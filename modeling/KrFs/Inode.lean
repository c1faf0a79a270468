import KrFs.Kernel

/-!
# The in-core inode

`struct inode` and `struct kr_inode_info` as one record, with the flag words of
`kr.h` and the two functions that copy flags between them. Pointers to operation
tables, locks and list heads carry no state that the modelled code reads and are
left out. Counters the kernel keeps in 64 bits are unbounded here.
-/

namespace KrFs

def KR_NDIR_BLOCKS : Nat := 12
def KR_IND_BLOCK : Nat := 12
def KR_DIND_BLOCK : Nat := 13
def KR_TIND_BLOCK : Nat := 14
def KR_N_BLOCKS : Nat := 15

def KR_SYNC_FL : UInt32 := 0x00000008
def KR_IMMUTABLE_FL : UInt32 := 0x00000010
def KR_APPEND_FL : UInt32 := 0x00000020
def KR_NOATIME_FL : UInt32 := 0x00000080
def KR_DIRSYNC_FL : UInt32 := 0x00010000

def S_SYNC : UInt32 := 1
def S_NOATIME : UInt32 := 2
def S_APPEND : UInt32 := 4
def S_IMMUTABLE : UInt32 := 8
def S_DIRSYNC : UInt32 := 64
def S_DAX : UInt32 := 8192

/-- `struct kr_block_alloc_info`; its window node is kept with the reservation
tree it is linked into. -/
structure BlockAllocInfo where
  lastAllocLogicalBlock : Nat
  lastAllocPhysicalBlock : Nat
deriving DecidableEq

structure Inode where
  iMode : UInt16
  iUid : UInt32
  iGid : UInt32
  iNlink : Nat
  iSize : Nat
  iAtime : Int
  iCtime : Int
  iMtime : Int
  iBlocks : Int
  sFlags : UInt32
  iGeneration : UInt32
  iRdev : UInt32
  iData : Nat → Nat
  iFlags : UInt32
  iFaddr : UInt32
  iFragNo : UInt8
  iFragSize : UInt8
  iStateNew : Bool
  iFileAcl : UInt32
  iDirAcl : UInt32
  iDtime : UInt32
  iBlockGroup : Nat
  iBlockAllocInfo : Option BlockAllocInfo
  iDirStartLookup : Nat

/-- `i_size` as the `loff_t` it is. The field has its 64 bits: a size with bit 31 of
`i_size_high` set is negative. -/
def Inode.signedSize (inode : Inode) : Int :=
  if inode.iSize < 2 ^ 63 then inode.iSize else (inode.iSize : Int) - 2 ^ 64

/-- The object `iget_locked` hands out for an inode not in the cache. -/
def Inode.blank : Inode where
  iMode := 0
  iUid := 0
  iGid := 0
  iNlink := 1
  iSize := 0
  iAtime := 0
  iCtime := 0
  iMtime := 0
  iBlocks := 0
  sFlags := 0
  iGeneration := 0
  iRdev := 0
  iData := fun _ => 0
  iFlags := 0
  iFaddr := 0
  iFragNo := 0
  iFragSize := 0
  iStateNew := false
  iFileAcl := 0
  iDirAcl := 0
  iDtime := 0
  iBlockGroup := 0
  iBlockAllocInfo := none
  iDirStartLookup := 0

/-- `if (flags & src) word |= dst`, the step both flag copies are made of. -/
def copyFlag (flags src dst word : UInt32) : UInt32 :=
  if flags &&& src ≠ 0 then word ||| dst else word

/-- `kr_set_inode_flags`; `dax` is `test_opt(sb, DAX)`. -/
def krSetInodeFlags (dax : Bool) (inode : Inode) : Inode :=
  let flags := inode.iFlags
  let word := inode.sFlags &&&
    ~~~(S_SYNC ||| S_APPEND ||| S_IMMUTABLE ||| S_NOATIME ||| S_DIRSYNC ||| S_DAX)
  let word := copyFlag flags KR_SYNC_FL S_SYNC word
  let word := copyFlag flags KR_APPEND_FL S_APPEND word
  let word := copyFlag flags KR_IMMUTABLE_FL S_IMMUTABLE word
  let word := copyFlag flags KR_NOATIME_FL S_NOATIME word
  let word := copyFlag flags KR_DIRSYNC_FL S_DIRSYNC word
  { inode with sFlags := if dax && S_ISREG inode.iMode then word ||| S_DAX else word }

/-- `kr_get_inode_flags`: propagate `i_flags` of the VFS inode to the kr flags. -/
def krGetInodeFlags (inode : Inode) : Inode :=
  let flags := inode.sFlags
  let word := inode.iFlags &&& ~~~(KR_SYNC_FL ||| KR_APPEND_FL ||| KR_IMMUTABLE_FL |||
    KR_NOATIME_FL ||| KR_DIRSYNC_FL)
  let word := copyFlag flags S_SYNC KR_SYNC_FL word
  let word := copyFlag flags S_APPEND KR_APPEND_FL word
  let word := copyFlag flags S_IMMUTABLE KR_IMMUTABLE_FL word
  let word := copyFlag flags S_NOATIME KR_NOATIME_FL word
  let word := copyFlag flags S_DIRSYNC KR_DIRSYNC_FL word
  { inode with iFlags := word }

/-- The five flags that both words hold, agree. -/
structure FlagsAgree (inode : Inode) : Prop where
  sync : inode.iFlags &&& KR_SYNC_FL ≠ 0 ↔ inode.sFlags &&& S_SYNC ≠ 0
  append : inode.iFlags &&& KR_APPEND_FL ≠ 0 ↔ inode.sFlags &&& S_APPEND ≠ 0
  immutable : inode.iFlags &&& KR_IMMUTABLE_FL ≠ 0 ↔ inode.sFlags &&& S_IMMUTABLE ≠ 0
  noatime : inode.iFlags &&& KR_NOATIME_FL ≠ 0 ↔ inode.sFlags &&& S_NOATIME ≠ 0
  dirsync : inode.iFlags &&& KR_DIRSYNC_FL ≠ 0 ↔ inode.sFlags &&& S_DIRSYNC ≠ 0

/-- The part of the VFS flag word that has a counterpart on disk. -/
def storedSFlags (word : UInt32) : UInt32 :=
  word &&& (S_SYNC ||| S_APPEND ||| S_IMMUTABLE ||| S_NOATIME ||| S_DIRSYNC)

theorem uint32_and_or (x y z : UInt32) : x &&& (y ||| z) = x &&& y ||| x &&& z :=
  UInt32.toBitVec_inj.mp BitVec.and_or_distrib_left

theorem uint32_or_and (x y z : UInt32) : (x ||| y) &&& z = x &&& z ||| y &&& z :=
  UInt32.toBitVec_inj.mp BitVec.and_or_distrib_right

theorem and_single_bit (x : UInt32) {bit : UInt32} {n : Nat} (hbit : bit.toNat = 2 ^ n) :
    x &&& bit = if x &&& bit ≠ 0 then bit else 0 := by
  split
  · rename_i h
    apply UInt32.toNat.inj
    rw [UInt32.toNat_and, hbit, Nat.and_two_pow]
    cases ht : x.toNat.testBit n with
    | true => simp
    | false =>
      exfalso
      apply h
      apply UInt32.toNat.inj
      rw [UInt32.toNat_and, hbit, Nat.and_two_pow, ht]
      simp
  · rename_i h
    exact not_not.mp h

/-- Copying a flag whose source agrees with its target bit sets exactly that bit. -/
theorem copyFlag_eq {flags src dst target word : UInt32} {n : Nat} (hdst : dst.toNat = 2 ^ n)
    (agree : target &&& dst ≠ 0 ↔ flags &&& src ≠ 0) :
    copyFlag flags src dst word = word ||| (target &&& dst) := by
  rw [and_single_bit target hdst]
  unfold copyFlag
  by_cases h : flags &&& src ≠ 0
  · rw [if_pos h, if_pos (agree.mpr h)]
  · rw [if_neg h, if_neg (fun ht => h (agree.mp ht))]
    simp

/-- Agreeing inodes lose nothing when the VFS flags are propagated. -/
theorem krGetInodeFlags_of_agree {inode : Inode} (agree : FlagsAgree inode) :
    krGetInodeFlags inode = inode := by
  have hflags : (krGetInodeFlags inode).iFlags = inode.iFlags := by
    simp only [krGetInodeFlags]
    rw [copyFlag_eq (n := 16) rfl agree.dirsync, copyFlag_eq (n := 7) rfl agree.noatime,
      copyFlag_eq (n := 4) rfl agree.immutable, copyFlag_eq (n := 5) rfl agree.append,
      copyFlag_eq (n := 3) rfl agree.sync]
    simp only [← uint32_and_or]
    rw [show ~~~(KR_SYNC_FL ||| KR_APPEND_FL ||| KR_IMMUTABLE_FL ||| KR_NOATIME_FL |||
      KR_DIRSYNC_FL) ||| KR_SYNC_FL ||| KR_APPEND_FL ||| KR_IMMUTABLE_FL ||| KR_NOATIME_FL |||
      KR_DIRSYNC_FL = -1 by decide, UInt32.and_neg_one]
  calc krGetInodeFlags inode = { inode with iFlags := (krGetInodeFlags inode).iFlags } := rfl
    _ = inode := by rw [hflags]

/-- The VFS flags a fresh inode gets from the kr flags of an agreeing one. -/
theorem krSetInodeFlags_of_agree {inode fresh : Inode} (agree : FlagsAgree inode) (dax : Bool)
    (hflags : fresh.iFlags = inode.iFlags) (hfresh : fresh.sFlags = 0) :
    (krSetInodeFlags dax fresh).sFlags &&& ~~~S_DAX = storedSFlags inode.sFlags := by
  have hword : ∀ word : UInt32, copyFlag fresh.iFlags KR_DIRSYNC_FL S_DIRSYNC
      (copyFlag fresh.iFlags KR_NOATIME_FL S_NOATIME
      (copyFlag fresh.iFlags KR_IMMUTABLE_FL S_IMMUTABLE
      (copyFlag fresh.iFlags KR_APPEND_FL S_APPEND
      (copyFlag fresh.iFlags KR_SYNC_FL S_SYNC word)))) =
      word ||| storedSFlags inode.sFlags := by
    intro word
    rw [hflags, copyFlag_eq (n := 6) rfl agree.dirsync.symm,
      copyFlag_eq (n := 1) rfl agree.noatime.symm,
      copyFlag_eq (n := 3) rfl agree.immutable.symm,
      copyFlag_eq (n := 2) rfl agree.append.symm, copyFlag_eq (n := 0) rfl agree.sync.symm]
    simp only [storedSFlags, uint32_and_or, UInt32.or_assoc]
  have hdax : storedSFlags inode.sFlags &&& ~~~S_DAX = storedSFlags inode.sFlags := by
    simp only [storedSFlags, UInt32.and_assoc]
    rfl
  simp only [krSetInodeFlags, hword, hfresh]
  split
  · rw [uint32_or_and, uint32_or_and, hdax]
    simp
  · rw [uint32_or_and, hdax]
    simp

end KrFs
