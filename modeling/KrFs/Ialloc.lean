import KrFs.FindGroup

/-!
# Inode allocation

`kr_new_inode`, `kr_free_inode` and `kr_release_inode` of `ialloc.c`. Callers run one
after another. Messages and write-back are left out.
-/

namespace KrFs

open Bitmap

def KR_FL_INHERITED : UInt32 := 0x0001C6CF
def KR_REG_FLMASK : UInt32 := ~~~ (KR_DIRSYNC_FL ||| KR_TOPDIR_FL)
def KR_NODUMP_FL : UInt32 := 0x00000040
def KR_OTHER_FLMASK : UInt32 := KR_NODUMP_FL ||| KR_NOATIME_FL
def S_NOQUOTA : UInt32 := 32

/-- `kr_mask_flags`. -/
def krMaskFlags (mode : UInt16) (flags : UInt32) : UInt32 :=
  if S_ISDIR mode then flags
  else if S_ISREG mode then flags &&& KR_REG_FLMASK
  else flags &&& KR_OTHER_FLMASK

/-- What a new inode meets: the two options that matter, what `find_group_orlov` reads,
the inode object and its owner, and the results of reading bitmaps, of
`insert_inode_locked` and of the quota. -/
structure NewInodeEnv where
  oldalloc : Bool
  grpid : Bool
  orlov : OrlovEnv
  newInode : Bool
  readBitmap : Nat → Bool
  insert : Nat → Bool
  fsuid : UInt32
  initOwner : Inode → UInt16 → UInt16 × UInt32 × UInt32
  now : Int
  generation : UInt32
  quotaInit : Option Errno
  quotaAlloc : Option Errno

namespace Fs

/-- `read_inode_bitmap`. -/
def readInodeBitmap (fs : Fs) (readBitmap : Nat → Bool) (group : Nat) : Bool :=
  (fs.groupDesc group).isSome && readBitmap group

def setInodeBit (fs : Fs) (group bit : Nat) (used : Bool) : Fs :=
  { fs with
    inodeBitmap := Function.update fs.inodeBitmap group
      (Function.update (fs.inodeBitmap group) bit used) }

/-- `kr_release_inode`. -/
def krReleaseInode (fs : Fs) (group : Nat) (dir : Bool) : Fs :=
  match fs.groupDesc group with
  | none => fs
  | some desc =>
    { fs with
      desc := Function.update fs.desc group
        { desc with
          bgFreeInodesCount := desc.bgFreeInodesCount + 1
          bgUsedDirsCount := if dir then desc.bgUsedDirsCount - 1 else desc.bgUsedDirsCount }
      sDirsCounter := if dir then fs.sDirsCounter - 1 else fs.sDirsCounter }

/-- `kr_free_inode`; the group is the `unsigned int` that `kr_get_group_desc` receives. -/
def krFreeInode (fs : Fs) (readBitmap : Nat → Bool) (ino : Nat) : Fs :=
  if ino < fs.sbi.sFirstIno || fs.sbi.sEs.sInodesCount.toNat < ino then fs
  else
    let blockGroup := (sub64 ino 1 / fs.sbi.sInodesPerGroup) % 2 ^ 32
    let bit := sub64 ino 1 % fs.sbi.sInodesPerGroup
    if !fs.readInodeBitmap readBitmap blockGroup then fs
    else if !fs.inodeBitmap blockGroup bit then fs
    else (fs.setInodeBit blockGroup bit false).krReleaseInode blockGroup
      (S_ISDIR (fs.inode ino).iMode)

end Fs

/-- The block that `kr_preread_inode` asks for, unless the device is congested. -/
def krPrereadInode (sbi : SbInfo) (congested : Bool) (ino : Nat) : Option Nat :=
  if congested then none
  else
    let blockGroup := (sub64 ino 1 / sbi.sInodesPerGroup) % 2 ^ 32
    match krGetGroupDesc sbi blockGroup with
    | none => none
    | some gdp =>
      let offset := sub64 ino 1 % sbi.sInodesPerGroup * sbi.sInodeSize
      some (gdp.bgInodeTable.toNat + (offset >>> sbi.sBlocksizeBits))

/-- The label `repeat_in_this_group`: a bit that was clear, or nothing when the group has
none. -/
def findInodeBit (bm : Nat → Bool) (inodesPerGroup : Nat) : Nat → Nat → Option Nat
  | 0, _ => none
  | fuel + 1, ino =>
    let ino := nextZero bm inodesPerGroup ino
    if inodesPerGroup ≤ ino then none
    else if bm ino then
      if inodesPerGroup ≤ ino + 1 then none else findInodeBit bm inodesPerGroup fuel (ino + 1)
    else some ino

section NewInode

variable (env : NewInodeEnv) (fs : Fs) (dir : Nat) (mode : UInt16)

/-- The loop of `kr_new_inode` over the groups. -/
def newInodeLoop : Nat → Nat → Except Errno (Nat × Nat)
  | 0, _ => .error .enospc
  | n + 1, group =>
    let next := if group + 1 = fs.sbi.sGroupsCount then 0 else group + 1
    match fs.groupDesc group with
    | none => newInodeLoop n next
    | some _ =>
      if !fs.readInodeBitmap env.readBitmap group then .error .eio
      else
        match findInodeBit (fs.inodeBitmap group) fs.sbi.sInodesPerGroup
          (fs.sbi.sInodesPerGroup + 1) 0 with
        | none => newInodeLoop n next
        | some bit => .ok (group, bit)

/-- The counters for a new inode. -/
def countInode (group : Nat) : Fs :=
  let desc := fs.desc group
  let debt := fs.sDebts group
  { fs with
    desc := Function.update fs.desc group
      { desc with
        bgFreeInodesCount := desc.bgFreeInodesCount - 1
        bgUsedDirsCount :=
          if S_ISDIR mode then desc.bgUsedDirsCount + 1 else desc.bgUsedDirsCount }
    sFreeinodesCounter := fs.sFreeinodesCounter - 1
    sDirsCounter := if S_ISDIR mode then fs.sDirsCounter + 1 else fs.sDirsCounter
    sDebts := Function.update fs.sDebts group
      (if S_ISDIR mode then if debt < 255 then debt + 1 else debt else debt - 1) }

/-- The fields of a new inode. -/
def newInode (group : Nat) : Inode :=
  let parent := fs.inode dir
  let (iMode, iUid, iGid) :=
    if env.grpid then (mode, env.fsuid, parent.iGid) else env.initOwner parent mode
  krSetInodeFlags false
    { Inode.blank with
      iMode := iMode
      iUid := iUid
      iGid := iGid
      iAtime := env.now
      iCtime := env.now
      iMtime := env.now
      iFlags := krMaskFlags mode (parent.iFlags &&& KR_FL_INHERITED)
      iBlockGroup := group
      iStateNew := true
      iGeneration := env.generation }

/-- The label `fail_drop`: the inode goes again, and there are no blocks to free. -/
def failDrop (ino : Nat) : Fs :=
  let inode := fs.inode ino
  ({ fs with
    inode := Function.update fs.inode ino
      { inode with
        sFlags := inode.sFlags ||| S_NOQUOTA
        iNlink := 0 } } : Fs).krFreeInode env.readBitmap ino

/-- The policy for the group of the new inode. -/
def findGroup : Option (Option Nat) :=
  if S_ISDIR mode then
    if env.oldalloc then findGroupDir fs else findGroupOrlov fs env.orlov dir
  else findGroupOther fs dir

/-- `kr_new_inode`; `none` is a division by zero. -/
def krNewInode : Option (Except Errno Nat × Fs) :=
  if !env.newInode then some (.error .enomem, fs)
  else (findGroup env fs dir mode).map fun found =>
    match found with
    | none => (.error .enospc, fs)
    | some group =>
      match newInodeLoop env fs fs.sbi.sGroupsCount group with
      | .error err => (.error err, fs)
      | .ok (group, bit) =>
        let fs := fs.setInodeBit group bit true
        let ino := bit + (group * fs.sbi.sInodesPerGroup + 1)
        if ino < fs.sbi.sFirstIno || fs.sbi.sEs.sInodesCount.toNat < ino then (.error .eio, fs)
        else
          let fs := countInode fs mode group
          if !env.insert ino then (.error .eio, fs)
          else
            let fs : Fs :=
              { fs with inode := Function.update fs.inode ino (newInode env fs dir mode group) }
            match env.quotaInit, env.quotaAlloc with
            | some err, _ => (.error err, failDrop env fs ino)
            | none, some err => (.error err, failDrop env fs ino)
            | none, none => (.ok ino, fs)

end NewInode

/-! ## What a new inode takes -/

/-- The counts of free inodes are those of the bitmaps, reserved inodes are in use, and
the groups hold just the inodes of the file system. -/
structure InodesMatch (fs : Fs) : Prop where
  counts : ∀ g < fs.sbi.sGroupsCount, (fs.desc g).bgFreeInodesCount.toNat =
    clearCount (fs.inodeBitmap g) fs.sbi.sInodesPerGroup
  reserved : ∀ g < fs.sbi.sGroupsCount, ∀ bit < fs.sbi.sInodesPerGroup,
    g * fs.sbi.sInodesPerGroup + bit + 1 < fs.sbi.sFirstIno → fs.inodeBitmap g bit = true
  inodes : fs.sbi.sEs.sInodesCount.toNat = fs.sbi.sGroupsCount * fs.sbi.sInodesPerGroup

/-- Quota is granted, bitmaps are read, and the number of an inode that is not in use is
not in the inode cache. -/
structure NewInodeEnv.Grants (env : NewInodeEnv) (fs : Fs) : Prop where
  newInode : env.newInode = true
  readBitmap : ∀ g, env.readBitmap g = true
  insert : ∀ g < fs.sbi.sGroupsCount, ∀ bit < fs.sbi.sInodesPerGroup, fs.inodeBitmap g bit = false →
    env.insert (g * fs.sbi.sInodesPerGroup + bit + 1) = true
  quota : env.quotaInit = none ∧ env.quotaAlloc = none

section Spec

variable {env : NewInodeEnv} {fs : Fs} {dir : Nat} {mode : UInt16} {g : Nat}

theorem findInodeBit_some {bm : Nat → Bool} {n fuel ino bit : Nat}
    (h : findInodeBit bm n fuel ino = some bit) : bit < n ∧ bm bit = false := by
  induction fuel generalizing ino with
  | zero => cases h
  | succ fuel ih =>
    rw [findInodeBit] at h
    split at h
    · cases h
    · rename_i hlt
      split at h
      · split at h
        · cases h
        · exact ih h
      · rename_i hclear
        cases h
        exact ⟨Nat.not_le.mp hlt, by simpa using hclear⟩

/-- A clear bit is found at once. -/
theorem findInodeBit_isSome {bm : Nat → Bool} {n : Nat} (fuel : Nat) (hclear : ∃ bit < n, bm bit = false) :
    ∃ bit, findInodeBit bm n (fuel + 1) 0 = some bit := by
  obtain ⟨bit, hbit, hfalse⟩ := hclear
  obtain ⟨-, hfound, hset⟩ := nextZero_spec bm n 0
  have hlt : nextZero bm n 0 < n := by
    by_contra hge
    have htrue := hset bit (Nat.zero_le _) (by omega)
    rw [hfalse] at htrue
    cases htrue
  refine ⟨nextZero bm n 0, ?_⟩
  rw [findInodeBit]
  rw [if_neg (by omega), if_neg]
  rw [(hfound hlt).2]
  exact Bool.false_ne_true

theorem findGroup_finds (env : NewInodeEnv) (mode : UInt16) (hn : 0 < fs.sbi.sGroupsCount) (hlt : fs.sbi.sGroupsCount < 2 ^ 30)
    (hparent : (fs.inode dir).iBlockGroup < fs.sbi.sGroupsCount) :
    FindsGroup fs (findGroup env fs dir mode) := by
  unfold findGroup
  split
  · split
    · exact findGroupDir_finds hn
    · exact findGroupOrlov_finds hn hlt env.orlov dir
  · exact findGroupOther_finds hn hparent

/-- A group that the policies give has a clear bit. -/
theorem InodesMatch.clear (h : InodesMatch fs) (hfree : fs.HasFreeInode g) :
    ∃ bit < fs.sbi.sInodesPerGroup, fs.inodeBitmap g bit = false := by
  have hpos : 0 < clearCount (fs.inodeBitmap g) fs.sbi.sInodesPerGroup := by
    rw [← h.counts g hfree.1]
    exact Nat.pos_of_ne_zero fun hzero => hfree.2 (UInt16.toNat.inj hzero)
  obtain ⟨bit, hmem⟩ := Finset.card_pos.mp hpos
  rw [Finset.mem_filter, Finset.mem_range] at hmem
  exact ⟨bit, hmem.1, hmem.2⟩

theorem InodesMatch.full (h : InodesMatch fs) (hg : g < fs.sbi.sGroupsCount)
    (hzero : (fs.desc g).bgFreeInodesCount = 0) {bit : Nat} (hbit : bit < fs.sbi.sInodesPerGroup) :
    fs.inodeBitmap g bit = true := by
  have hcount : clearCount (fs.inodeBitmap g) fs.sbi.sInodesPerGroup = 0 := by
    rw [← h.counts g hg, hzero]
    rfl
  by_contra hclear
  refine absurd hcount (Nat.pos_iff_ne_zero.mp (Finset.card_pos.mpr ⟨bit, ?_⟩))
  rw [Finset.mem_filter, Finset.mem_range]
  exact ⟨hbit, by simpa using hclear⟩

theorem newInodeLoop_found (h : InodesMatch fs) (henv : env.Grants fs) (hfree : fs.HasFreeInode g)
    {n : Nat} (hn : 0 < n) : ∃ bit < fs.sbi.sInodesPerGroup, fs.inodeBitmap g bit = false ∧
      newInodeLoop env fs n g = .ok (g, bit) := by
  obtain ⟨n, rfl⟩ := Nat.exists_eq_succ_of_ne_zero (by omega : n ≠ 0)
  obtain ⟨bit, hbit⟩ := findInodeBit_isSome fs.sbi.sInodesPerGroup (h.clear hfree)
  obtain ⟨hlt, hclear⟩ := findInodeBit_some hbit
  refine ⟨bit, hlt, hclear, ?_⟩
  rw [newInodeLoop]
  have hread : fs.readInodeBitmap env.readBitmap g = true := by
    unfold Fs.readInodeBitmap
    rw [Fs.groupDesc_eq hfree.1, henv.readBitmap]
    rfl
  rw [Fs.groupDesc_eq hfree.1, hread, hbit]
  rfl

/-- The number of a clear bit is that of an inode that is not reserved. -/
theorem InodesMatch.number (h : InodesMatch fs) (hg : g < fs.sbi.sGroupsCount) {bit : Nat}
    (hbit : bit < fs.sbi.sInodesPerGroup) (hclear : fs.inodeBitmap g bit = false) :
    fs.sbi.sFirstIno ≤ g * fs.sbi.sInodesPerGroup + bit + 1 ∧
      g * fs.sbi.sInodesPerGroup + bit + 1 ≤ fs.sbi.sEs.sInodesCount.toNat := by
  constructor
  · by_contra hlow
    have hset := h.reserved g hg bit hbit (by omega)
    rw [hclear] at hset
    cases hset
  · rw [h.inodes]
    have hmul := Nat.mul_le_mul_right fs.sbi.sInodesPerGroup (Nat.succ_le_of_lt hg)
    rw [Nat.succ_mul] at hmul
    omega

theorem krNewInode_spec (mode : UInt16) (hn : 0 < fs.sbi.sGroupsCount) (hlt : fs.sbi.sGroupsCount < 2 ^ 30)
    (hparent : (fs.inode dir).iBlockGroup < fs.sbi.sGroupsCount) (h : InodesMatch fs)
    (henv : env.Grants fs) :
    ((∀ g < fs.sbi.sGroupsCount, ∀ bit < fs.sbi.sInodesPerGroup, fs.inodeBitmap g bit = true) ∧
      krNewInode env fs dir mode = some (.error .enospc, fs)) ∨
    ∃ g < fs.sbi.sGroupsCount, ∃ bit < fs.sbi.sInodesPerGroup, fs.inodeBitmap g bit = false ∧
      ∃ fs', krNewInode env fs dir mode = some (.ok (g * fs.sbi.sInodesPerGroup + bit + 1), fs') ∧
        fs'.inodeBitmap = (fs.setInodeBit g bit true).inodeBitmap := by
  obtain ⟨found, hfound, hnone, hsome⟩ :=
    findGroup_finds env mode hn hlt hparent
  unfold krNewInode
  rw [henv.newInode, hfound]
  cases found with
  | none =>
    left
    exact ⟨fun g hg bit hbit => h.full hg (hnone.mp rfl g hg) hbit, rfl⟩
  | some g =>
    right
    have hfree := hsome g rfl
    obtain ⟨bit, hbit, hclear, hloop⟩ := newInodeLoop_found h henv hfree hn
    obtain ⟨hfirst, hlast⟩ := h.number hfree.1 hbit hclear
    have hnumber : bit + (g * fs.sbi.sInodesPerGroup + 1) = g * fs.sbi.sInodesPerGroup + bit + 1 := by
      omega
    have hinsert := henv.insert g hfree.1 bit hbit hclear
    refine ⟨g, hfree.1, bit, hbit, hclear, ?_⟩
    have hsbi : (fs.setInodeBit g bit true).sbi = fs.sbi := rfl
    have hrange : ¬ (decide (g * fs.sbi.sInodesPerGroup + bit + 1 < fs.sbi.sFirstIno) ||
        decide (fs.sbi.sEs.sInodesCount.toNat < g * fs.sbi.sInodesPerGroup + bit + 1)) = true := by
      simp
      omega
    simp only [Option.map_some, hloop, hsbi, hnumber, if_neg hrange, hinsert, henv.quota.1,
      henv.quota.2]
    exact ⟨_, rfl, rfl⟩

end Spec

/-- `find_group_dir`, `find_group_orlov` and `find_group_other` find a group with free
inodes if there is one, whatever they read of the percpu counters and at random; and then
`kr_new_inode` takes one clear bit, and returns `-ENOSPC` just when there is none. -/
theorem findGroup_krNewInode (fs : Fs) (dir : Nat) (hn : 1 ≤ fs.sbi.sGroupsCount)
    (hlt : fs.sbi.sGroupsCount < 2 ^ 30)
    (hparent : (fs.inode dir).iBlockGroup < fs.sbi.sGroupsCount) :
    (FindsGroup fs (findGroupDir fs) ∧ (∀ env, FindsGroup fs (findGroupOrlov fs env dir)) ∧
      FindsGroup fs (findGroupOther fs dir)) ∧
    ∀ (env : NewInodeEnv) (mode : UInt16), InodesMatch fs → env.Grants fs →
      ∃ r fs', krNewInode env fs dir mode = some (r, fs') ∧
        (r = .error .enospc ↔ ∀ g < fs.sbi.sGroupsCount, ∀ bit < fs.sbi.sInodesPerGroup,
          fs.inodeBitmap g bit = true) ∧
        (r ≠ .error .enospc → ∃ g < fs.sbi.sGroupsCount, ∃ bit < fs.sbi.sInodesPerGroup,
          fs.inodeBitmap g bit = false ∧ r = .ok (g * fs.sbi.sInodesPerGroup + bit + 1) ∧
          fs.sbi.sFirstIno ≤ g * fs.sbi.sInodesPerGroup + bit + 1 ∧
          g * fs.sbi.sInodesPerGroup + bit + 1 ≤ fs.sbi.sEs.sInodesCount.toNat ∧
          fs'.inodeBitmap = (fs.setInodeBit g bit true).inodeBitmap) := by
  refine ⟨⟨findGroupDir_finds hn, fun env => findGroupOrlov_finds hn hlt env dir,
    findGroupOther_finds hn hparent⟩, ?_⟩
  intro env mode h henv
  rcases krNewInode_spec mode hn hlt hparent h henv with
    ⟨hall, hcall⟩ | ⟨g, hg, bit, hbit, hclear, fs', hcall, hbitmap⟩
  · exact ⟨_, _, hcall, iff_of_true rfl hall, fun hne => absurd rfl hne⟩
  · refine ⟨_, _, hcall, iff_of_false (fun h => nomatch h) fun hall => ?_, fun _ => ?_⟩
    · rw [hall g hg bit hbit] at hclear
      cases hclear
    · obtain ⟨hfirst, hlast⟩ := h.number hg hbit hclear
      exact ⟨g, hg, bit, hbit, hclear, rfl, hfirst, hlast, hbitmap⟩

/-- A file system of one group with 16 inodes, 11 of them in use. -/
def inodeFs : Fs where
  sbi := sbInfoOf smallEnv { smallImage 16 with sInodesCount := 16 } 1024
  desc := fun _ => { smallDesc with bgFreeInodesCount := 5 }
  blockBitmap := fun _ _ => true
  inodeBitmap := fun _ bit => decide (bit < 11)
  sFreeblocksCounter := 0
  sFreeinodesCounter := 5
  sDirsCounter := 2
  sDebts := fun _ => 0
  inode := fun _ => { Inode.blank with iMode := 0x41ED }
  ptr := fun _ _ => 0
  rsv := ⟨.node .head .nil .nil, fun _ => ⟨0, 0, 0, 0⟩⟩

/-- No quota, and the percpu counters have not been summed for long. -/
def inodeEnv : NewInodeEnv :=
  ⟨false, true, ⟨100, -3, 0, 7⟩, true, fun _ => true, fun _ => true, 0, fun _ mode => (mode, 0, 0),
    0, 1, none, none⟩

theorem inodeFs_match : InodesMatch inodeFs := by
  have hgroups : inodeFs.sbi.sGroupsCount = 1 := rfl
  refine ⟨fun g hg => ?_, fun g hg bit hbit hlow => ?_, rfl⟩
  · rw [hgroups, Nat.lt_one_iff] at hg
    subst hg
    decide +kernel
  · rw [hgroups, Nat.lt_one_iff] at hg
    subst hg
    have hfirst : inodeFs.sbi.sFirstIno = 11 := rfl
    have hper : inodeFs.sbi.sInodesPerGroup = 16 := rfl
    rw [hfirst, hper] at hlow
    exact decide_eq_true (by omega)

/-- A directory at the top gets one of the five numbers. -/
theorem findGroup_krNewInode_small : ∃ ino fs',
    krNewInode inodeEnv inodeFs 2 0x41ED = some (.ok ino, fs') ∧ 11 ≤ ino ∧ ino ≤ 16 := by
  have henv : inodeEnv.Grants inodeFs := ⟨rfl, fun _ => rfl, fun _ _ _ _ _ => rfl, rfl, rfl⟩
  obtain ⟨-, hnew⟩ := findGroup_krNewInode inodeFs 2 (by decide) (by decide) (by decide)
  obtain ⟨r, fs', hcall, hfull, hother⟩ := hnew inodeEnv 0x41ED inodeFs_match henv
  have hne : r ≠ .error .enospc := fun heq => absurd (hfull.mp heq 0 (by decide) 11 (by decide)) (by decide)
  obtain ⟨g, hg, bit, hbit, hclear, rfl, hfirst, hlast, hbitmap⟩ := hother hne
  exact ⟨_, fs', hcall, hfirst, hlast⟩

end KrFs
