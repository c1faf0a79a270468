import KrFs.InodeCodec

/-!
# Blocks outside the data area

`kr_data_block_valid` of `balloc.c` against what it is for: a stretch of blocks above the first
data block and before the end of the device, without the superblock. It compares the start of the
stretch with the end of the device, and counts the block behind the stretch to it.
-/

namespace KrFs

section Blocks

variable {sbi : SbInfo} {start count : Nat}

/-- Blocks that data may be in. -/
def SbInfo.DataBlocks (sbi : SbInfo) (start count : Nat) : Prop :=
  ∀ b, start ≤ b → b < start + count →
    sbi.sEs.sFirstDataBlock.toNat < b ∧ b < sbi.sEs.sBlocksCount.toNat ∧ b ≠ sbi.sSbBlock

/-- The stretch begins in the device or right behind it and goes on over its end. -/
def SbInfo.OverEnd (sbi : SbInfo) (start count : Nat) : Prop :=
  sbi.sEs.sFirstDataBlock.toNat < start ∧ start ≤ sbi.sEs.sBlocksCount.toNat ∧
    sbi.sEs.sBlocksCount.toNat < start + count ∧
    ¬ (start ≤ sbi.sSbBlock ∧ sbi.sSbBlock ≤ start + count)

/-- The superblock comes right behind the stretch. -/
def SbInfo.BeforeSuper (sbi : SbInfo) (start count : Nat) : Prop :=
  sbi.sEs.sFirstDataBlock.toNat < start ∧ start + count ≤ sbi.sEs.sBlocksCount.toNat ∧
    sbi.sSbBlock = start + count

theorem dataBlocks_iff (hcount : 1 ≤ count) : sbi.DataBlocks start count ↔
    sbi.sEs.sFirstDataBlock.toNat < start ∧ start + count ≤ sbi.sEs.sBlocksCount.toNat ∧
      ¬ (start ≤ sbi.sSbBlock ∧ sbi.sSbBlock < start + count) := by
  constructor
  · intro h
    obtain ⟨hfirst, -, -⟩ := h start le_rfl (by omega)
    obtain ⟨-, hlast, -⟩ := h (start + count - 1) (by omega) (by omega)
    refine ⟨hfirst, by omega, ?_⟩
    rintro ⟨hle, hlt⟩
    exact (h sbi.sSbBlock hle hlt).2.2 rfl
  · rintro ⟨hfirst, hlast, hsuper⟩ b hle hlt
    refine ⟨by omega, by omega, ?_⟩
    rintro rfl
    exact hsuper ⟨hle, hlt⟩

/-- The sum wraps around only for stretches that begin behind the end. -/
theorem krDataBlockValid_eq_true (hcount : count < 2 ^ 32) :
    krDataBlockValid sbi start count = true ↔
      sbi.sEs.sFirstDataBlock.toNat < start ∧ start ≤ sbi.sEs.sBlocksCount.toNat ∧
        ¬ (start ≤ sbi.sSbBlock ∧ sbi.sSbBlock ≤ start + count) := by
  have hblocks := sbi.sEs.sBlocksCount.toNat_lt
  unfold krDataBlockValid
  simp only [Bool.and_eq_true, Bool.not_eq_true', Bool.or_eq_false_iff, decide_eq_false_iff_not,
    Bool.and_eq_false_iff]
  omega

/-- The check is right but for stretches over the end of the device and those right before the
superblock. -/
theorem krDataBlockValid_right_iff (hpos : 1 ≤ count) (hcount : count < 2 ^ 32) :
    (krDataBlockValid sbi start count = true ↔ sbi.DataBlocks start count) ↔
      ¬ (sbi.OverEnd start count ∨ sbi.BeforeSuper start count) := by
  rw [krDataBlockValid_eq_true hcount, dataBlocks_iff hpos]
  unfold SbInfo.OverEnd SbInfo.BeforeSuper
  omega

end Blocks

section Acl

variable {m : Mount} {table : Nat × Nat → RawInode} {ino : Nat}

/-- The block of extended attributes of an inode in memory is a block of the device. -/
def AclInside (m : Mount) (inode : Inode) : Prop :=
  inode.iFileAcl = 0 ∨ m.sbi.sEs.sFirstDataBlock.toNat < inode.iFileAcl.toNat ∧
    inode.iFileAcl.toNat < m.sbi.sEs.sBlocksCount.toNat

/-- The block is the one right behind the device. -/
def AclBehind (m : Mount) (raw : RawInode) : Prop :=
  raw.iFileAcl ≠ 0 ∧ raw.iFileAcl.toNat = m.sbi.sEs.sBlocksCount.toNat ∧
    m.sbi.sEs.sFirstDataBlock.toNat < raw.iFileAcl.toNat ∧
    ¬ (raw.iFileAcl.toNat ≤ m.sbi.sSbBlock ∧ m.sbi.sSbBlock ≤ raw.iFileAcl.toNat + 1)

/-- An inode that was deleted is not read. -/
def RawInode.Deleted (raw : RawInode) : Prop :=
  raw.iLinksCount = 0 ∧ (raw.iMode = 0 ∨ raw.iDtime ≠ 0)

theorem krSetInodeFlags_iFileAcl (m : Mount) (raw : RawInode) (inode : Inode) :
    (krSetInodeFlags m.dax (krIgetByType m raw inode)).iFileAcl = inode.iFileAcl := by
  unfold krSetInodeFlags
  dsimp only
  rw [krIgetByType_eq]

theorem inodeOfRaw_acl_iff (m : Mount) (ino : Nat) (raw : RawInode) :
    (∀ inode, inodeOfRaw m ino raw = .ok inode → AclInside m inode) ↔
      ¬ (¬ raw.Deleted ∧ AclBehind m raw) := by
  have hvalid : krDataBlockValid m.sbi raw.iFileAcl.toNat 1 = true ↔ _ :=
    krDataBlockValid_eq_true (by decide)
  have hdeleted : (raw.iLinksCount = 0 && (raw.iMode = 0 || raw.iDtime ≠ 0)) = true ↔
      raw.Deleted := by
    simp [RawInode.Deleted]
  unfold inodeOfRaw
  by_cases hgone : raw.Deleted
  · rw [if_pos (hdeleted.mpr hgone)]
    exact iff_of_true (fun _ => nofun) fun h => h.1 hgone
  · rw [if_neg (mt hdeleted.mp hgone)]
    by_cases hzero : raw.iFileAcl = 0
    · rw [if_neg (by simp [hzero])]
      refine iff_of_true (fun inode hinode => ?_) fun h => h.2.1 hzero
      cases hinode
      exact Or.inl ((krSetInodeFlags_iFileAcl m raw _).trans hzero)
    · by_cases hcheck : krDataBlockValid m.sbi raw.iFileAcl.toNat 1 = true
      · rw [if_neg (by simp [hcheck])]
        obtain ⟨hfirst, hlast, hsuper⟩ := hvalid.mp hcheck
        constructor
        · rintro hall ⟨-, -, hbehind, -⟩
          rcases hall _ rfl with hacl | ⟨-, hacl⟩
          · exact hzero ((krSetInodeFlags_iFileAcl m raw _).symm.trans hacl)
          · rw [krSetInodeFlags_iFileAcl] at hacl
            exact absurd hbehind hacl.ne
        · intro hnot inode hinode
          cases hinode
          refine Or.inr ?_
          rw [krSetInodeFlags_iFileAcl]
          refine ⟨hfirst, lt_of_le_of_ne hlast fun hbehind => ?_⟩
          exact hnot ⟨hgone, hzero, hbehind, hfirst, hsuper⟩
      · rw [if_pos (by simp [hzero, hcheck])]
        refine iff_of_true (fun _ => nofun) ?_
        rintro ⟨-, -, hbehind, hfirst, hsuper⟩
        exact hcheck (hvalid.mpr ⟨hfirst, hbehind.le, hsuper⟩)

/-- `kr_data_block_valid` says what it is for, but for stretches over the end of the device and
those right before the superblock; and `kr_iget` gives an inode with a block of extended attributes
inside the device, but for a block right behind its end. -/
theorem krDataBlockValid_iff (m : Mount) (table : Nat × Nat → RawInode) (ino : Nat) :
    (∀ start count, 1 ≤ count → count < 2 ^ 32 →
      ((krDataBlockValid m.sbi start count = true ↔ m.sbi.DataBlocks start count) ↔
        ¬ (m.sbi.OverEnd start count ∨ m.sbi.BeforeSuper start count))) ∧
    ((∀ inode, krIget m table ino = .ok inode → AclInside m inode) ↔
      ∀ slot, krGetInode m.sbi m.bread ino = .ok slot →
        ¬ (¬ (table slot).Deleted ∧ AclBehind m (table slot))) := by
  refine ⟨fun start count hpos hcount => krDataBlockValid_right_iff hpos hcount, ?_⟩
  unfold krIget
  cases krGetInode m.sbi m.bread ino with
  | error err => exact iff_of_true (fun _ => nofun) (fun _ => nofun)
  | ok slot =>
    rw [inodeOfRaw_acl_iff]
    constructor
    · rintro h _ ⟨⟩
      exact h
    · intro h
      exact h slot rfl

end Acl

/-- The table of a file system with an inode whose extended attributes are in block `acl`. -/
def aclTable (acl : UInt32) : Nat × Nat → RawInode := fun _ =>
  { RawInode.zero with iMode := 0x81A4, iLinksCount := 1, iFileAcl := acl }

/-- The last block of the device. -/
theorem krDataBlockValid_iff_small :
    (krDataBlockValid smallMount.sbi 99 1 = true ↔ smallMount.sbi.DataBlocks 99 1) ∧
      ∀ inode, krIget smallMount (aclTable 99) 12 = .ok inode → AclInside smallMount inode := by
  obtain ⟨hright, hacl⟩ := krDataBlockValid_iff smallMount (aclTable 99) 12
  refine ⟨(hright 99 1 (by decide) (by decide)).mpr ?_, hacl.mpr ?_⟩
  · rintro (⟨-, -, hover, -⟩ | ⟨-, -, hsuper⟩)
    · exact absurd hover (by decide)
    · exact absurd hsuper (by decide)
  · rintro slot - ⟨-, -, hbehind, -⟩
    have hlast : (99 : UInt32).toNat = smallMount.sbi.sEs.sBlocksCount.toNat := hbehind
    exact absurd hlast (by decide)

/-- A device of 100 blocks with the superblock in block 1: block 100 passes as a block of extended
attributes. With the superblock taken from block 64, the block before it does not pass. -/
theorem krDataBlockValid_behind :
    krFillSuper smallEnv (smallImage 16) = .ok smallMount.sbi ∧
      smallMount.sbi.sEs.sBlocksCount = 100 ∧
      (∃ inode, krIget smallMount (aclTable 100) 12 = .ok inode ∧ inode.iFileAcl = 100 ∧
        ¬ AclInside smallMount inode) ∧
      krDataBlockValid smallMount.sbi 99 2 = true ∧ ¬ smallMount.sbi.DataBlocks 99 2 ∧
      ∃ sbi, krFillSuper { smallEnv with sbBlock := 64 } (smallImage 16) = .ok sbi ∧
        sbi.sSbBlock = 64 ∧ krDataBlockValid sbi 63 1 = false ∧ sbi.DataBlocks 63 1 := by
  refine ⟨krFillSuper_smallImage 16 (Or.inl rfl), rfl, ⟨_, rfl, rfl, ?_⟩, by decide, ?_, _, rfl, rfl,
    by decide, ?_⟩
  · rintro (hzero | ⟨-, hlt⟩)
    · exact absurd hzero (by decide)
    · exact absurd hlt (by decide)
  · rw [dataBlocks_iff (by decide)]
    decide
  · rw [dataBlocks_iff (by decide)]
    decide

end KrFs
