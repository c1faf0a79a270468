import KrFs.BlockMap
import KrFs.Ialloc

/-!
# `kr_ioctl`

The flags, the version number and the window size of an open file. A user may change some
flags; two of them only with a capability, which the call tells from the old flags.
-/

namespace KrFs

def KR_FL_USER_VISIBLE : UInt32 := 0x0003DFFF
def KR_FL_USER_MODIFIABLE : UInt32 := 0x000380FF

/-- The flags that only `CAP_LINUX_IMMUTABLE` may change. -/
def protectedFlags : UInt32 := KR_APPEND_FL ||| KR_IMMUTABLE_FL

inductive IoctlCmd where
  | getflags | setflags | getversion | setversion | getrsvsz | setrsvsz | unknown
deriving DecidableEq

/-- An error that a step of the call gives, or one of those the call has itself. -/
inductive IoctlError where
  | failed (err : Errno)
  | eacces | eperm | efault | enotty
deriving DecidableEq

/-- What a call meets: the mount, the caller and its word. -/
structure IoctlEnv where
  mntWantWriteFile : Option Errno
  inodeOwnerOrCapable : Bool
  capable : Bool
  getUser : Option UInt32
  putUser : Bool
  reservation : Bool
  now : Int

section Ioctl

variable (env : IoctlEnv)

/-- `put_user`. -/
def IoctlEnv.put (word : UInt32) : Except IoctlError (Option UInt32) :=
  if env.putUser then .ok (some word) else .error .efault

/-- The flags that `KR_IOC_SETFLAGS` asks for and those it leaves. -/
def setflagsWord (mode : UInt16) (oldflags flags : UInt32) : UInt32 :=
  krMaskFlags mode flags &&& KR_FL_USER_MODIFIABLE ||| oldflags &&& ~~~KR_FL_USER_MODIFIABLE

/-- The call would change a protected flag. -/
def changesProtected (mode : UInt16) (oldflags flags : UInt32) : Bool :=
  (krMaskFlags mode flags ^^^ oldflags) &&& protectedFlags != 0

/-- `KR_IOC_SETFLAGS`; `dax` is `test_opt(sb, DAX)`. -/
def ioctlSetflags (dax : Bool) (inode : Inode) : Except IoctlError Inode :=
  match env.mntWantWriteFile with
  | some err => .error (.failed err)
  | none =>
    if !env.inodeOwnerOrCapable then .error .eacces
    else
      match env.getUser with
      | none => .error .efault
      | some flags =>
        if inode.sFlags &&& S_NOQUOTA != 0 then .error .eperm
        else if changesProtected inode.iMode inode.iFlags flags && !env.capable then .error .eperm
        else
          let inode := krSetInodeFlags dax
            { inode with iFlags := setflagsWord inode.iMode inode.iFlags flags }
          .ok { inode with iCtime := env.now }

/-- `KR_IOC_SETVERSION`. -/
def ioctlSetversion (inode : Inode) : Except IoctlError Inode :=
  if !env.inodeOwnerOrCapable then .error .eperm
  else
    match env.mntWantWriteFile, env.getUser with
    | some err, _ => .error (.failed err)
    | none, none => .error .efault
    | none, some generation =>
      .ok { inode with
        iCtime := env.now
        iGeneration := generation }

/-- `KR_IOC_SETRSVSZ`. -/
def ioctlSetrsvsz (alloc : GetBlocksEnv) (fs : Fs) (ino : Nat) : Except IoctlError Unit × Fs :=
  if !env.reservation || !S_ISREG (fs.inode ino).iMode then (.error .enotty, fs)
  else if !env.inodeOwnerOrCapable then (.error .eacces, fs)
  else
    match env.getUser, env.mntWantWriteFile with
    | none, _ => (.error .efault, fs)
    | some _, some err => (.error (.failed err), fs)
    | some word, none =>
      let size := min (word.toNat % 2 ^ 16) KR_MAX_RESERVE_BLOCKS
      let fs := initBlockAllocInfo alloc ino env.reservation fs
      match (fs.inode ino).iBlockAllocInfo with
      | none => (.ok (), fs)
      | some _ =>
        let window := fs.rsv.win (.inode ino)
        (.ok (), { fs with rsv := fs.rsv.setWin (.inode ino) { window with rsvGoalSize := size } })

/-- `kr_ioctl`: the word for the user, and whether the inode was marked dirty. -/
def krIoctl (dax : Bool) (alloc : GetBlocksEnv) (fs : Fs) (ino : Nat) (cmd : IoctlCmd) :
    Except IoctlError (Option UInt32) × Fs × Bool :=
  let inode := fs.inode ino
  match cmd with
  | .getflags =>
    let inode := krGetInodeFlags inode
    (env.put (inode.iFlags &&& KR_FL_USER_VISIBLE),
      { fs with inode := Function.update fs.inode ino inode }, false)
  | .setflags =>
    match ioctlSetflags env dax inode with
    | .error err => (.error err, fs, false)
    | .ok inode => (.ok none, { fs with inode := Function.update fs.inode ino inode }, true)
  | .getversion => (env.put inode.iGeneration, fs, false)
  | .setversion =>
    match ioctlSetversion env inode with
    | .error err => (.error err, fs, false)
    | .ok inode => (.ok none, { fs with inode := Function.update fs.inode ino inode }, true)
  | .getrsvsz =>
    if env.reservation && S_ISREG inode.iMode && inode.iBlockAllocInfo.isSome then
      (env.put (UInt32.ofNat ((fs.rsv.win (.inode ino)).rsvGoalSize % 2 ^ 16)), fs, false)
    else (.error .enotty, fs, false)
  | .setrsvsz =>
    match ioctlSetrsvsz env alloc fs ino with
    | (.error err, fs) => (.error err, fs, false)
    | (.ok (), fs) => (.ok none, fs, false)
  | .unknown => (.error .enotty, fs, false)

end Ioctl

/-! ## What the flags say -/

section Flags

variable {flags src dst word bit mode : UInt32}

theorem uint32_xor_and (x y z : UInt32) : (x ^^^ y) &&& z = x &&& z ^^^ y &&& z := by
  apply UInt32.toBitVec_inj.mp
  apply BitVec.eq_of_getLsbD_eq
  intro i _
  simp only [UInt32.toBitVec_and, UInt32.toBitVec_xor, BitVec.getLsbD_and, BitVec.getLsbD_xor,
    Bool.and_xor_distrib_right]

theorem copyFlag_other (h : dst &&& bit = 0) : copyFlag flags src dst word &&& bit = word &&& bit := by
  unfold copyFlag
  split
  · rw [uint32_or_and, h, UInt32.or_zero]
  · rfl

theorem copyFlag_self (hdst : dst ≠ 0) (h : word &&& dst = 0) :
    flags &&& src ≠ 0 ↔ copyFlag flags src dst word &&& dst ≠ 0 := by
  unfold copyFlag
  split
  · rename_i hset
    rw [uint32_or_and, h, UInt32.zero_or, UInt32.and_self]
    exact iff_of_true hset hdst
  · rename_i hclear
    exact iff_of_false hclear (not_not.mpr h)

/-- Whatever the two words said before, they agree after `kr_set_inode_flags`. -/
theorem krSetInodeFlags_agree (dax : Bool) (inode : Inode) :
    FlagsAgree (krSetInodeFlags dax inode) := by
  have hclear : ∀ bit : UInt32, bit &&& (S_SYNC ||| S_APPEND ||| S_IMMUTABLE ||| S_NOATIME |||
      S_DIRSYNC ||| S_DAX) = bit → inode.sFlags &&& ~~~(S_SYNC ||| S_APPEND ||| S_IMMUTABLE |||
      S_NOATIME ||| S_DIRSYNC ||| S_DAX) &&& bit = 0 := by
    intro bit hbit
    rw [← hbit, UInt32.and_assoc, UInt32.and_comm bit, ← UInt32.and_assoc (~~~_),
      UInt32.not_and_self, UInt32.zero_and, UInt32.and_zero]
  have hdax : ∀ (word bit : UInt32), S_DAX &&& bit = 0 →
      (if dax && S_ISREG inode.iMode then word ||| S_DAX else word) &&& bit = word &&& bit := by
    intro word bit hbit
    split
    · rw [uint32_or_and, hbit, UInt32.or_zero]
    · rfl
  constructor
  · simp only [krSetInodeFlags]
    rw [hdax _ _ (by decide), copyFlag_other (by decide), copyFlag_other (by decide),
      copyFlag_other (by decide), copyFlag_other (by decide)]
    exact copyFlag_self (by decide) (hclear _ (by decide))
  · simp only [krSetInodeFlags]
    rw [hdax _ _ (by decide), copyFlag_other (by decide), copyFlag_other (by decide),
      copyFlag_other (by decide)]
    refine copyFlag_self (by decide) ?_
    rw [copyFlag_other (by decide)]
    exact hclear _ (by decide)
  · simp only [krSetInodeFlags]
    rw [hdax _ _ (by decide), copyFlag_other (by decide), copyFlag_other (by decide)]
    refine copyFlag_self (by decide) ?_
    rw [copyFlag_other (by decide), copyFlag_other (by decide)]
    exact hclear _ (by decide)
  · simp only [krSetInodeFlags]
    rw [hdax _ _ (by decide), copyFlag_other (by decide)]
    refine copyFlag_self (by decide) ?_
    rw [copyFlag_other (by decide), copyFlag_other (by decide), copyFlag_other (by decide)]
    exact hclear _ (by decide)
  · simp only [krSetInodeFlags]
    rw [hdax _ _ (by decide)]
    refine copyFlag_self (by decide) ?_
    rw [copyFlag_other (by decide), copyFlag_other (by decide), copyFlag_other (by decide),
      copyFlag_other (by decide)]
    exact hclear _ (by decide)

/-- A call that needs no capability leaves the protected flags. -/
theorem setflagsWord_protected {mode : UInt16} {old flags : UInt32}
    (h : changesProtected mode old flags = false) :
    setflagsWord mode old flags &&& protectedFlags = old &&& protectedFlags := by
  have hsame : krMaskFlags mode flags &&& protectedFlags = old &&& protectedFlags := by
    simp only [changesProtected, bne_eq_false_iff_eq] at h
    rw [uint32_xor_and] at h
    exact UInt32.xor_eq_zero_iff.mp h
  have hinside : KR_FL_USER_MODIFIABLE &&& protectedFlags = protectedFlags := by decide
  have houtside : ~~~KR_FL_USER_MODIFIABLE &&& protectedFlags = 0 := by decide
  rw [setflagsWord, uint32_or_and, UInt32.and_assoc, UInt32.and_assoc, hinside, houtside, hsame,
    UInt32.and_zero, UInt32.or_zero]

/-- Flags that are not for users to change stay. -/
theorem setflagsWord_fixed (mode : UInt16) (old flags : UInt32) :
    setflagsWord mode old flags &&& ~~~KR_FL_USER_MODIFIABLE =
      old &&& ~~~KR_FL_USER_MODIFIABLE := by
  rw [setflagsWord, uint32_or_and, UInt32.and_assoc, UInt32.and_assoc, UInt32.and_not_self,
    UInt32.and_self, UInt32.and_zero, UInt32.zero_or]

end Flags

end KrFs
