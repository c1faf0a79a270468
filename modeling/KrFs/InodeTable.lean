import KrFs.Superblock

/-!
# Addressing of on-disk inodes

`kr_get_inode` of `inode.c` finds the block and the slot of an inode from the
descriptor of its group. The mount code keeps three quantities derived from the
image by separate divisions: inodes per block, inode table blocks per group and
the slot offset. What their relation guarantees is settled here.
-/

namespace KrFs

/-- Index of an inode inside its group, `(ino - 1) % KR_INODES_PER_GROUP`. -/
def inodeIndex (sbi : SbInfo) (ino : Nat) : Nat := sub64 ino 1 % sbi.sInodesPerGroup

/-- Group of an inode as the `unsigned int` that `kr_get_group_desc` receives. -/
def inodeGroup (sbi : SbInfo) (ino : Nat) : Nat :=
  (sub64 ino 1 / sbi.sInodesPerGroup) % 2 ^ 32

theorem sub64_one {ino : Nat} (hpos : 0 < ino) (hlt : ino < 2 ^ 32) : sub64 ino 1 = ino - 1 :=
  sub64_of_le hpos (by omega)

/-- Only inode number 0 wraps. -/
theorem inodeGroup_eq {sbi : SbInfo} {ino : Nat} (hpos : 0 < ino) (hlt : ino < 2 ^ 32) :
    inodeGroup sbi ino = (ino - 1) / sbi.sInodesPerGroup := by
  have hle := Nat.div_le_self (ino - 1) sbi.sInodesPerGroup
  rw [inodeGroup, sub64_one hpos hlt, Nat.mod_eq_of_lt (by omega)]

theorem inodeIndex_eq {sbi : SbInfo} {ino : Nat} (hpos : 0 < ino) (hlt : ino < 2 ^ 32) :
    inodeIndex sbi ino = (ino - 1) % sbi.sInodesPerGroup := by
  rw [inodeIndex, sub64_one hpos hlt]

/-- Group and index of the number that `kr_new_inode` makes of a group and a bit. -/
theorem inodePlace_of_number {sbi : SbInfo} {ino group bit : Nat}
    (hino : ino = group * sbi.sInodesPerGroup + bit + 1) (hbit : bit < sbi.sInodesPerGroup)
    (hlt : ino < 2 ^ 32) : inodeGroup sbi ino = group ∧ inodeIndex sbi ino = bit := by
  have hpos : 0 < sbi.sInodesPerGroup := by omega
  have hpred : ino - 1 = sbi.sInodesPerGroup * group + bit := by
    rw [hino, Nat.mul_comm]
    omega
  rw [inodeGroup_eq (by omega) hlt, inodeIndex_eq (by omega) hlt, hpred]
  constructor
  · rw [Nat.mul_add_div hpos, Nat.div_eq_of_lt hbit, Nat.add_zero]
  · rw [Nat.mul_add_mod, Nat.mod_eq_of_lt hbit]

/-- The range check of `kr_get_inode`. -/
def inodeInRange (sbi : SbInfo) (ino : Nat) : Bool :=
  !((ino != KR_ROOT_INO && ino < sbi.sFirstIno) || sbi.sEs.sInodesCount.toNat < ino)

/-- `kr_get_inode`: the block it reads and the byte offset of the inode in it.
The argument `bread` says which block reads succeed. -/
def krGetInode (sbi : SbInfo) (bread : Nat → Bool) (ino : Nat) : Except Errno (Nat × Nat) :=
  if !inodeInRange sbi ino then .error .einval
  else match krGetGroupDesc sbi (inodeGroup sbi ino) with
    | none => .error .eio
    | some gdp =>
      let offset := inodeIndex sbi ino * sbi.sInodeSize
      let block := gdp.bgInodeTable.toNat + (offset >>> sbi.sBlocksizeBits)
      if !bread block then .error .eio
      else .ok (block, offset &&& (sbi.sBlocksize - 1))

/-- The part of an accepted geometry that inode addressing rests on. -/
structure InodeGeometry (sbi : SbInfo) : Prop where
  blocksize_pow : sbi.sBlocksize = 2 ^ sbi.sBlocksizeBits
  inodes_fill_block : sbi.sInodesPerBlock * sbi.sInodeSize = sbi.sBlocksize
  inodesPerBlock_pos : 0 < sbi.sInodesPerBlock
  inodeSize_pos : 0 < sbi.sInodeSize
  inodesPerGroup_pos : 0 < sbi.sInodesPerGroup
  itb_eq : sbi.sItbPerGroup = sbi.sInodesPerGroup / sbi.sInodesPerBlock

/-- What acceptance says about the state that `kr_fill_super` builds. -/
theorem krFillSuper_ok {k : MountEnv} {es : SuperBlock} {sbi : SbInfo}
    (h : krFillSuper k es = .ok sbi) :
    let blocksize := shl32 BLOCK_SIZE es.sLogBlockSize.toNat
    sbi = sbInfoOf k es blocksize ∧ (k.minBlocksize = blocksize ∨ k.setBlocksize blocksize) ∧
      geometryOk sbi es ∧ krCheckDescriptors sbi := by
  intro blocksize
  unfold krFillSuper at h
  dsimp only at h
  split at h; · cases h
  split at h; · cases h
  split at h; · cases h
  split at h; · cases h
  split at h; · cases h
  rename_i hsize
  split at h; · cases h
  rename_i hgeo
  split at h; · cases h
  split at h; · cases h
  split at h; · cases h
  rename_i hdesc
  cases hroot : k.rootInode (sbInfoOf k es blocksize) with
  | error e => simp [blocksize, hroot] at h
  | ok u =>
    simp only [hroot, Except.ok.injEq, blocksize] at h
    subst h
    refine ⟨rfl, ?_, by simpa using hgeo, by simpa using hdesc⟩
    by_cases hm : k.minBlocksize = blocksize
    · exact Or.inl hm
    · exact Or.inr (by simpa [blocksize, hm] using hsize)

theorem blocksPerGroup_pos_of_krFillSuper {k : MountEnv} {es : SuperBlock} {sbi : SbInfo}
    (h : krFillSuper k es = .ok sbi) : 0 < sbi.sBlocksPerGroup := by
  obtain ⟨-, -, hgeo, -⟩ := krFillSuper_ok h
  simp only [geometryOk, Bool.and_eq_true, bne_iff_ne] at hgeo
  omega

theorem accepted_blocksize {k : MountEnv} {n : Nat}
    (h : k.minBlocksize = n ∨ k.setBlocksize n) : n.isPowerOfTwo ∧ 512 ≤ n := by
  rcases h with h | h
  · obtain ⟨hp, hle, _⟩ := k.minBlocksize_spec
    subst h
    exact ⟨hp, le_trans (by decide) hle⟩
  · exact ⟨(k.setBlocksize_spec n h).1, (k.setBlocksize_spec n h).2.1⟩

/-- Every accepted image satisfies the relations inode addressing needs. -/
theorem inodeGeometry_of_krFillSuper {k : MountEnv} {es : SuperBlock} {sbi : SbInfo}
    (h : krFillSuper k es = .ok sbi) : InodeGeometry sbi := by
  obtain ⟨hsbi, hsize, hgeo, _⟩ := krFillSuper_ok h
  obtain ⟨hpow, hmin⟩ := accepted_blocksize hsize
  have hbs : sbi.sBlocksize = shl32 BLOCK_SIZE es.sLogBlockSize.toNat := by rw [hsbi]; rfl
  simp only [geometryOk, Bool.and_eq_true, Bool.or_eq_true, decide_eq_true_eq, bne_iff_ne,
    beq_iff_eq] at hgeo
  obtain ⟨⟨⟨⟨⟨⟨⟨⟨⟨hrev, _⟩, hisz⟩, hipb⟩, hipg⟩, _⟩, _⟩, _⟩, _⟩, _⟩ := hgeo
  have hdvd : sbi.sInodeSize ∣ sbi.sBlocksize := by
    rcases hrev with hrev | ⟨⟨_, hp⟩, hle⟩
    · have hold : sbi.sInodeSize = 2 ^ 7 := by
        rw [hsbi]
        simp [sbInfoOf, hrev, KR_GOOD_OLD_INODE_SIZE]
      rw [hold, hbs]
      exact dvd_of_isPowerOfTwo ⟨7, rfl⟩ hpow (by omega)
    · rw [← hbs] at hpow
      exact dvd_of_isPowerOfTwo hp hpow hle
  refine ⟨?_, ?_, by omega, by omega, by omega, ?_⟩
  · obtain ⟨n, hn⟩ := hpow
    have hbits : sbi.sBlocksizeBits = Nat.log2 (2 ^ n) := by rw [hsbi, ← hn]; rfl
    rw [hbits, Nat.log2_two_pow, hbs, hn]
  · have hipbEq : sbi.sInodesPerBlock = sbi.sBlocksize / sbi.sInodeSize := by rw [hsbi]; rfl
    rw [hipbEq]
    exact Nat.div_mul_cancel hdvd
  · rw [hsbi]
    rfl

/-- The block index inside the inode table and the slot inside the block. -/
theorem inode_slot_address {sbi : SbInfo} (g : InodeGeometry sbi) (idx : Nat) :
    (idx * sbi.sInodeSize) >>> sbi.sBlocksizeBits = idx / sbi.sInodesPerBlock ∧
    (idx * sbi.sInodeSize) &&& (sbi.sBlocksize - 1) =
      (idx % sbi.sInodesPerBlock) * sbi.sInodeSize := by
  have hbs := g.inodes_fill_block
  constructor
  · rw [Nat.shiftRight_eq_div_pow, ← g.blocksize_pow, ← hbs,
      Nat.mul_div_mul_right _ _ g.inodeSize_pos]
  · rw [g.blocksize_pow, Nat.and_two_pow_sub_one_eq_mod, ← g.blocksize_pow, ← hbs,
      Nat.mul_mod_mul_right]

theorem krGetInode_ok {sbi : SbInfo} {bread : Nat → Bool} {ino block offset : Nat}
    (h : krGetInode sbi bread ino = .ok (block, offset)) :
    ∃ gdp, krGetGroupDesc sbi (inodeGroup sbi ino) = some gdp ∧
      inodeInRange sbi ino = true ∧ bread block = true ∧
      block = gdp.bgInodeTable.toNat +
        ((inodeIndex sbi ino * sbi.sInodeSize) >>> sbi.sBlocksizeBits) ∧
      offset = (inodeIndex sbi ino * sbi.sInodeSize) &&& (sbi.sBlocksize - 1) := by
  unfold krGetInode at h
  split at h; · cases h
  rename_i hrange
  split at h; · cases h
  rename_i gdp hgdp
  dsimp only at h
  split at h; · cases h
  rename_i hread
  simp only [Except.ok.injEq, Prod.mk.injEq] at h
  obtain ⟨rfl, rfl⟩ := h
  exact ⟨gdp, hgdp, by simpa using hrange, by simpa using hread, rfl, rfl⟩

/-- The inode read for `ino` lies in the inode table of its group and inside
one block. -/
def InodeInsideTable (sbi : SbInfo) (ino block offset : Nat) : Prop :=
  ∃ gdp, krGetGroupDesc sbi (inodeGroup sbi ino) = some gdp ∧
    gdp.bgInodeTable.toNat ≤ block ∧ block < gdp.bgInodeTable.toNat + sbi.sItbPerGroup ∧
    offset + sbi.sInodeSize ≤ sbi.sBlocksize

/-- On an accepted image the inode lies inside its table exactly when its index
is below the last whole inode table block: `s_itb_per_group` is a rounded-down
quotient, so the inodes of a partly filled last block have no table block. -/
theorem krGetInode_inside_table_iff {k : MountEnv} {es : SuperBlock} {sbi : SbInfo}
    (accepted : krFillSuper k es = .ok sbi) (bread : Nat → Bool) (ino block offset : Nat)
    (found : krGetInode sbi bread ino = .ok (block, offset)) :
    InodeInsideTable sbi ino block offset ↔
      inodeIndex sbi ino <
        sbi.sInodesPerGroup / sbi.sInodesPerBlock * sbi.sInodesPerBlock := by
  have g := inodeGeometry_of_krFillSuper accepted
  obtain ⟨gdp, hgdp, -, -, hblock, hoff⟩ := krGetInode_ok found
  obtain ⟨haddr, hslot⟩ := inode_slot_address g (inodeIndex sbi ino)
  rw [haddr] at hblock
  rw [hslot] at hoff
  have inside : offset + sbi.sInodeSize ≤ sbi.sBlocksize := by
    have hlt := Nat.mod_lt (inodeIndex sbi ino) g.inodesPerBlock_pos
    calc offset + sbi.sInodeSize
        = (inodeIndex sbi ino % sbi.sInodesPerBlock + 1) * sbi.sInodeSize := by
          rw [hoff, Nat.add_mul, Nat.one_mul]
      _ ≤ sbi.sInodesPerBlock * sbi.sInodeSize := Nat.mul_le_mul_right _ hlt
      _ = sbi.sBlocksize := g.inodes_fill_block
  rw [← Nat.div_lt_iff_lt_mul g.inodesPerBlock_pos, ← g.itb_eq]
  constructor
  · rintro ⟨gdp', hgdp', -, hlt, -⟩
    have hsame : gdp = gdp' := Option.some.inj (hgdp.symm.trans hgdp')
    subst hsame
    rw [hblock] at hlt
    exact Nat.lt_of_add_lt_add_left hlt
  · intro hlt
    rw [hblock]
    exact ⟨gdp, hgdp, Nat.le_add_right _ _, Nat.add_lt_add_left hlt _, inside⟩

/-- A one-group image with 1 KiB blocks and 128-byte inodes. -/
def smallImage (inodesPerGroup : UInt32) : SuperBlock where
  sInodesCount := 17
  sBlocksCount := 100
  sRBlocksCount := 0
  sFirstDataBlock := 1
  sLogBlockSize := 0
  sLogFragSize := 0
  sBlocksPerGroup := 8192
  sFragsPerGroup := 8192
  sInodesPerGroup := inodesPerGroup
  sMagic := 0xEF53
  sRevLevel := 0
  sFirstIno := 0
  sInodeSize := 0
  sFeatureIncompat := 0
  sFeatureRoCompat := 0
  sFirstMetaBg := 0

def smallDesc : GroupDesc := ⟨3, 4, 5, 0, 0, 0⟩

/-- A 4 KiB page machine whose device holds `smallDesc` in every descriptor. -/
def smallEnv : MountEnv where
  pageSize := 4096
  minBlocksize := 1024
  setBlocksize := fun n => decide (n.isPowerOfTwo ∧ 512 ≤ n ∧ n ≤ 4096)
  sbBlock := 1
  rdonly := false
  parseOptions := true
  allocOk := true
  bread := fun _ => some (fun _ => smallDesc)
  rootInode := fun _ => .ok ()
  setBlocksize_spec := fun _ h => of_decide_eq_true h
  minBlocksize_spec := ⟨⟨10, rfl⟩, by decide, by decide⟩

theorem krFillSuper_smallImage (n : UInt32) (hn : n = 16 ∨ n = 17) :
    krFillSuper smallEnv (smallImage n) = .ok (sbInfoOf smallEnv (smallImage n) 1024) := by
  rcases hn with rfl | rfl <;> rfl

/-- With 16 inodes a group, inode 16 is the last slot of the second table block. -/
theorem krGetInode_inside_small :
    InodeInsideTable (sbInfoOf smallEnv (smallImage 16) 1024) 16 6 896 :=
  (krGetInode_inside_table_iff (krFillSuper_smallImage 16 (Or.inl rfl)) (fun _ => true)
    16 6 896 rfl).mpr (by decide)

/-- With 17 inodes a group the mount succeeds with two table blocks, blocks 5
and 6, and inode 17 is read from block 7. -/
theorem krGetInode_past_table :
    ¬ ∀ (k : MountEnv) (es : SuperBlock) (sbi : SbInfo), krFillSuper k es = .ok sbi →
      ∀ (bread : Nat → Bool) (ino block offset : Nat),
        krGetInode sbi bread ino = .ok (block, offset) →
        InodeInsideTable sbi ino block offset := by
  intro h
  obtain ⟨gdp, hgdp, -, hlt, -⟩ := h smallEnv (smallImage 17) _
    (krFillSuper_smallImage 17 (Or.inr rfl)) (fun _ => true) 17 7 0 rfl
  have hsame : smallDesc = gdp := Option.some.inj (Eq.trans rfl hgdp)
  subst hsame
  exact absurd hlt (by decide)

end KrFs
