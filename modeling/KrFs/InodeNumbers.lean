import KrFs.Groups
import KrFs.InodeCounts

/-!
# The place of an inode

Four functions compute from an inode number where the inode is: `kr_get_inode` and
`kr_preread_inode` the slot of the inode table, `kr_new_inode` and `kr_free_inode` the
bit of the bitmap. With whole blocks of inodes in each group they agree, and no two
numbers share a slot.
-/

namespace KrFs

/-- Slot `index` in the inode table of the group: a block and an offset in it. -/
def InodeSlot (sbi : SbInfo) (group index block offset : Nat) : Prop :=
  ∃ gdp, krGetGroupDesc sbi group = some gdp ∧
    block = gdp.bgInodeTable.toNat + index / sbi.sInodesPerBlock ∧
    offset = index % sbi.sInodesPerBlock * sbi.sInodeSize

section Slots

variable {k : MountEnv} {es : SuperBlock} {sbi : SbInfo}
  {group group' index index' block block' offset offset' ino ino' : Nat}

/-- The slots of a table follow one another. -/
theorem InodeSlot.address (g : InodeGeometry sbi) (h : InodeSlot sbi group index block offset) :
    ∃ gdp, krGetGroupDesc sbi group = some gdp ∧ block * sbi.sBlocksize + offset =
      gdp.bgInodeTable.toNat * sbi.sBlocksize + index * sbi.sInodeSize := by
  obtain ⟨gdp, hgdp, rfl, rfl⟩ := h
  refine ⟨gdp, hgdp, ?_⟩
  have hsplit := Nat.div_add_mod' index sbi.sInodesPerBlock
  calc (gdp.bgInodeTable.toNat + index / sbi.sInodesPerBlock) * sbi.sBlocksize +
        index % sbi.sInodesPerBlock * sbi.sInodeSize
      = gdp.bgInodeTable.toNat * sbi.sBlocksize +
          (index / sbi.sInodesPerBlock * sbi.sInodesPerBlock + index % sbi.sInodesPerBlock) *
            sbi.sInodeSize := by
        rw [Nat.add_mul, Nat.add_mul, Nat.add_assoc, Nat.mul_assoc, g.inodes_fill_block]
    _ = gdp.bgInodeTable.toNat * sbi.sBlocksize + index * sbi.sInodeSize := by rw [hsplit]

/-- A table begins in its group and, when another group follows, ends before it. -/
theorem inodeTable_inside (accepted : krFillSuper k es = .ok sbi) {gdp : GroupDesc}
    (hgdp : krGetGroupDesc sbi group = some gdp) :
    sbi.groupFirstBlockNo group ≤ gdp.bgInodeTable.toNat ∧
      (group + 1 < sbi.sGroupsCount →
        gdp.bgInodeTable.toNat + sbi.sItbPerGroup ≤ sbi.groupFirstBlockNo (group + 1)) := by
  have hgroup : group < sbi.sGroupsCount := by
    by_contra hge
    rw [krGetGroupDesc, if_pos (by omega)] at hgdp
    cases hgdp
  have hbpg := blocksPerGroup_pos_of_krFillSuper accepted
  have hitb := (inodeGeometry_of_krFillSuper accepted).itb_eq
  have hper : sbi.sInodesPerGroup < 2 ^ 32 := by
    rw [(krFillSuper_ok accepted).1]
    exact es.sInodesPerGroup.toNat_lt
  have hitb_le : sbi.sItbPerGroup < 2 ^ 32 := by
    have := Nat.div_le_self sbi.sInodesPerGroup sbi.sInodesPerBlock
    omega
  have htable := gdp.bgInodeTable.toNat_lt
  have hcheck := checkDescriptor_of_krFillSuper accepted hgroup
  rw [krCheckDescriptor, hgdp] at hcheck
  simp only [Bool.and_eq_true, decide_eq_true_eq] at hcheck
  obtain ⟨⟨-, hlow⟩, hhigh⟩ := hcheck
  refine ⟨hlow, fun hnext => ?_⟩
  rw [if_neg (by omega)] at hhigh
  have hfirst := groupFirstBlockNo_succ sbi group
  by_cases hzero : gdp.bgInodeTable.toNat + sbi.sItbPerGroup = 0
  · omega
  · rw [sub64_of_le (by omega) (by omega)] at hhigh
    omega

/-- Two byte ranges of the length of an inode have no byte in common. -/
def InodesApart (sbi : SbInfo) (address address' : Nat) : Prop :=
  address + sbi.sInodeSize ≤ address' ∨ address' + sbi.sInodeSize ≤ address

/-- A slot of a group with another one after it ends before that. -/
theorem InodeSlot.before (accepted : krFillSuper k es = .ok sbi)
    (hwhole : sbi.sInodesPerBlock ∣ sbi.sInodesPerGroup) (hindex : index < sbi.sInodesPerGroup)
    (h : InodeSlot sbi group index block offset)
    (h' : InodeSlot sbi group' index' block' offset') (hlt : group < group') :
    block * sbi.sBlocksize + offset + sbi.sInodeSize ≤ block' * sbi.sBlocksize + offset' := by
  have g := inodeGeometry_of_krFillSuper accepted
  obtain ⟨gdp, hgdp, haddress⟩ := h.address g
  obtain ⟨gdp', hgdp', haddress'⟩ := h'.address g
  have hgroup' : group' < sbi.sGroupsCount := by
    by_contra hge
    rw [krGetGroupDesc, if_pos (by omega)] at hgdp'
    cases hgdp'
  have hend := (inodeTable_inside accepted hgdp).2 (by omega)
  have hstart := (inodeTable_inside accepted hgdp').1
  have hfirst : sbi.groupFirstBlockNo (group + 1) ≤ sbi.groupFirstBlockNo group' :=
    groupFirstBlockNo_mono sbi hlt
  have hitb : sbi.sItbPerGroup * sbi.sInodesPerBlock = sbi.sInodesPerGroup := by
    rw [g.itb_eq, Nat.div_mul_cancel hwhole]
  calc block * sbi.sBlocksize + offset + sbi.sInodeSize
      = gdp.bgInodeTable.toNat * sbi.sBlocksize + (index + 1) * sbi.sInodeSize := by
        rw [haddress, Nat.add_mul, Nat.one_mul, Nat.add_assoc]
    _ ≤ gdp.bgInodeTable.toNat * sbi.sBlocksize + sbi.sInodesPerGroup * sbi.sInodeSize :=
        Nat.add_le_add_left (Nat.mul_le_mul_right _ hindex) _
    _ = (gdp.bgInodeTable.toNat + sbi.sItbPerGroup) * sbi.sBlocksize := by
        rw [Nat.add_mul, ← g.inodes_fill_block, ← hitb, Nat.mul_assoc]
    _ ≤ gdp'.bgInodeTable.toNat * sbi.sBlocksize :=
        Nat.mul_le_mul_right _ (hend.trans (hfirst.trans hstart))
    _ ≤ block' * sbi.sBlocksize + offset' := by
        rw [haddress']
        exact Nat.le_add_right _ _

/-- Different slots do not overlap. -/
theorem InodeSlot.apart (accepted : krFillSuper k es = .ok sbi)
    (hwhole : sbi.sInodesPerBlock ∣ sbi.sInodesPerGroup) (hindex : index < sbi.sInodesPerGroup)
    (hindex' : index' < sbi.sInodesPerGroup) (h : InodeSlot sbi group index block offset)
    (h' : InodeSlot sbi group' index' block' offset') (hne : group ≠ group' ∨ index ≠ index') :
    InodesApart sbi (block * sbi.sBlocksize + offset) (block' * sbi.sBlocksize + offset') := by
  rcases Nat.lt_trichotomy group group' with hlt | rfl | hgt
  · exact Or.inl (h.before accepted hwhole hindex h' hlt)
  · have g := inodeGeometry_of_krFillSuper accepted
    obtain ⟨gdp, hgdp, haddress⟩ := h.address g
    obtain ⟨gdp', hgdp', haddress'⟩ := h'.address g
    obtain rfl : gdp = gdp' := Option.some.inj (hgdp.symm.trans hgdp')
    rw [haddress, haddress', InodesApart]
    rcases Nat.lt_trichotomy index index' with hlt | rfl | hgt
    · have := Nat.mul_le_mul_right sbi.sInodeSize (Nat.succ_le_of_lt hlt)
      rw [Nat.succ_mul] at this
      omega
    · simp at hne
    · have := Nat.mul_le_mul_right sbi.sInodeSize (Nat.succ_le_of_lt hgt)
      rw [Nat.succ_mul] at this
      omega
  · exact Or.inr (h'.before accepted hwhole hindex' h hgt)

/-- A number is known by its group and index. Number 0, which wraps, has those of a number
beyond the 32-bit ones. -/
theorem inodePlace_injective (hino : ino < 2 ^ 32) (hino' : ino' < 2 ^ 32)
    (hgroup : inodeGroup sbi ino = inodeGroup sbi ino')
    (hindex : inodeIndex sbi ino = inodeIndex sbi ino') : ino = ino' := by
  have wraps : ∀ {i : Nat}, 0 < i → i < 2 ^ 32 → inodeGroup sbi 0 = inodeGroup sbi i →
      inodeIndex sbi 0 = inodeIndex sbi i → False := by
    intro i hpos hlt hg hx
    rw [inodeGroup_eq hpos hlt, inodeGroup] at hg
    rw [inodeIndex_eq hpos hlt, inodeIndex] at hx
    have hzero : sub64 0 1 = 2 ^ 64 - 1 := rfl
    rw [hzero] at hg hx
    have hsplit := Nat.div_add_mod (2 ^ 64 - 1) sbi.sInodesPerGroup
    have hsplit' := Nat.div_add_mod (i - 1) sbi.sInodesPerGroup
    have hquot := Nat.div_add_mod ((2 ^ 64 - 1) / sbi.sInodesPerGroup) (2 ^ 32)
    rw [hg] at hquot
    rw [hx, ← hquot, Nat.mul_add] at hsplit
    have hmul : sbi.sInodesPerGroup * (2 ^ 32 * ((2 ^ 64 - 1) / sbi.sInodesPerGroup / 2 ^ 32)) =
        2 ^ 32 * (sbi.sInodesPerGroup * ((2 ^ 64 - 1) / sbi.sInodesPerGroup / 2 ^ 32)) :=
      Nat.mul_left_comm _ _ _
    rw [hmul] at hsplit
    omega
  rcases Nat.eq_zero_or_pos ino with rfl | hpos
  · rcases Nat.eq_zero_or_pos ino' with rfl | hpos'
    · rfl
    · exact (wraps hpos' hino' hgroup hindex).elim
  rcases Nat.eq_zero_or_pos ino' with rfl | hpos'
  · exact (wraps hpos hino hgroup.symm hindex.symm).elim
  rw [inodeGroup_eq hpos hino, inodeGroup_eq hpos' hino'] at hgroup
  rw [inodeIndex_eq hpos hino, inodeIndex_eq hpos' hino'] at hindex
  have hsplit := Nat.div_add_mod (ino - 1) sbi.sInodesPerGroup
  have hsplit' := Nat.div_add_mod (ino' - 1) sbi.sInodesPerGroup
  rw [hgroup, hindex] at hsplit
  omega

theorem krGetInode_slot (g : InodeGeometry sbi) {bread : Nat → Bool}
    (h : krGetInode sbi bread ino = .ok (block, offset)) :
    InodeSlot sbi (inodeGroup sbi ino) (inodeIndex sbi ino) block offset := by
  obtain ⟨gdp, hgdp, -, -, hblock, hoff⟩ := krGetInode_ok h
  obtain ⟨haddr, hslot⟩ := inode_slot_address g (inodeIndex sbi ino)
  exact ⟨gdp, hgdp, by rw [hblock, haddr], by rw [hoff, hslot]⟩

theorem krPrereadInode_slot (g : InodeGeometry sbi) {congested : Bool}
    (h : krPrereadInode sbi congested ino = some block) :
    ∃ offset, InodeSlot sbi (inodeGroup sbi ino) (inodeIndex sbi ino) block offset := by
  unfold krPrereadInode at h
  split at h
  · cases h
  dsimp only at h
  split at h
  · cases h
  · rename_i gdp hgdp
    cases h
    exact ⟨_, gdp, hgdp, congrArg _ (inode_slot_address g _).1, rfl⟩

end Slots

section Bits

variable {fs fs' : Fs} {ino : Nat}

theorem krFreeInode_bitmap (fs : Fs) (readBitmap : Nat → Bool) (ino : Nat) :
    (fs.krFreeInode readBitmap ino).inodeBitmap =
      if fs.frees readBitmap ino then
        (fs.setInodeBit (inodeGroup fs.sbi ino) (inodeIndex fs.sbi ino) false).inodeBitmap
      else fs.inodeBitmap := by
  cases hfrees : fs.frees readBitmap ino with
  | false =>
    rw [krFreeInode_keeps hfrees]
    rfl
  | true =>
    have hrelease : ∀ (fs1 : Fs) (group : Nat) (dir : Bool),
        (fs1.krReleaseInode group dir).inodeBitmap = fs1.inodeBitmap := by
      intro fs1 group dir
      unfold Fs.krReleaseInode
      split
      · rfl
      · rfl
    rw [if_pos rfl, krFreeInode_frees hfrees, hrelease]

theorem krNewInode_bit {env : NewInodeEnv} {dir : Nat} {mode : UInt16}
    (h : krNewInode env fs dir mode = some (.ok ino, fs')) :
    inodeInRange fs.sbi ino = true ∧
      ino = inodeIndex fs.sbi ino + inodeGroup fs.sbi ino * fs.sbi.sInodesPerGroup + 1 ∧
      fs.inodeBitmap (inodeGroup fs.sbi ino) (inodeIndex fs.sbi ino) = false ∧
      fs'.inodeBitmap =
        (fs.setInodeBit (inodeGroup fs.sbi ino) (inodeIndex fs.sbi ino) true).inodeBitmap := by
  obtain ⟨hinit, halloc⟩ := krNewInode_ok h
  rw [← NewInodeEnv.granting_eq hinit halloc] at h
  obtain ⟨group, -, bit, hbit, hclear, -, hino, hlow, hhigh, rfl, -⟩ := krNewInode_took h
  obtain ⟨hgroup, hindex⟩ := inodePlace_of_number hino hbit
    (hhigh.trans_lt fs.sbi.sEs.sInodesCount.toNat_lt)
  rw [hgroup, hindex]
  refine ⟨?_, by omega, hclear, rfl⟩
  simp only [inodeInRange, Bool.not_eq_true', Bool.or_eq_false_iff, Bool.and_eq_false_iff,
    decide_eq_false_iff_not]
  exact ⟨Or.inr (by omega), by omega⟩

end Bits

/-- On an accepted image with whole blocks of inodes in each group no two inode numbers share a
byte, and for each number there is one group and index to which its slot, its preread block
and its bit belong. -/
theorem inode_addressing {k : MountEnv} {es : SuperBlock} {sbi : SbInfo}
    (accepted : krFillSuper k es = .ok sbi)
    (hwhole : sbi.sInodesPerBlock ∣ sbi.sInodesPerGroup) :
    (∀ (bread bread' : Nat → Bool) (ino ino' block block' offset offset' : Nat),
      krGetInode sbi bread ino = .ok (block, offset) →
      krGetInode sbi bread' ino' = .ok (block', offset') → ino ≠ ino' →
      InodesApart sbi (block * sbi.sBlocksize + offset) (block' * sbi.sBlocksize + offset')) ∧
    ∀ ino, ∃ group, ∃ index < sbi.sInodesPerGroup,
      (∀ bread block offset, krGetInode sbi bread ino = .ok (block, offset) →
        InodeSlot sbi group index block offset) ∧
      (∀ congested block, krPrereadInode sbi congested ino = some block →
        ∃ offset, InodeSlot sbi group index block offset) ∧
      (∀ (fs : Fs) (readBitmap : Nat → Bool), fs.sbi = sbi →
        (fs.krFreeInode readBitmap ino).inodeBitmap =
          if fs.frees readBitmap ino then (fs.setInodeBit group index false).inodeBitmap
          else fs.inodeBitmap) ∧
      ∀ (env : NewInodeEnv) (fs fs' : Fs) (dir : Nat) (mode : UInt16), fs.sbi = sbi →
        krNewInode env fs dir mode = some (.ok ino, fs') →
        inodeInRange sbi ino = true ∧ ino = index + group * sbi.sInodesPerGroup + 1 ∧
          fs.inodeBitmap group index = false ∧
          fs'.inodeBitmap = (fs.setInodeBit group index true).inodeBitmap := by
  have g := inodeGeometry_of_krFillSuper accepted
  have hindex : ∀ ino, inodeIndex sbi ino < sbi.sInodesPerGroup := fun ino =>
    Nat.mod_lt _ g.inodesPerGroup_pos
  have hlt : ∀ {bread : Nat → Bool} {ino block offset : Nat},
      krGetInode sbi bread ino = .ok (block, offset) → ino < 2 ^ 32 := by
    intro bread ino block offset h
    obtain ⟨-, -, hrange, -⟩ := krGetInode_ok h
    have hcount := sbi.sEs.sInodesCount.toNat_lt
    simp only [inodeInRange, Bool.not_eq_true', Bool.or_eq_false_iff, decide_eq_false_iff_not]
      at hrange
    omega
  constructor
  · intro bread bread' ino ino' block block' offset offset' h h' hne
    refine (krGetInode_slot g h).apart accepted hwhole (hindex ino) (hindex ino')
      (krGetInode_slot g h') ?_
    by_contra hsame
    rw [not_or, not_not, not_not] at hsame
    exact hne (inodePlace_injective (hlt h) (hlt h') hsame.1 hsame.2)
  · intro ino
    refine ⟨inodeGroup sbi ino, inodeIndex sbi ino, hindex ino, ?_, ?_, ?_, ?_⟩
    · exact fun _ _ _ h => krGetInode_slot g h
    · exact fun _ _ h => krPrereadInode_slot g h
    · rintro fs readBitmap rfl
      exact krFreeInode_bitmap fs readBitmap ino
    · rintro env fs fs' dir mode rfl h
      exact krNewInode_bit h

/-- Inodes 11 and 16 of the small image lie in one block of the table. -/
theorem inode_addressing_small :
    InodesApart (sbInfoOf smallEnv (smallImage 16) 1024) (6 * 1024 + 256) (6 * 1024 + 896) ∧
      ∃ group index, InodeSlot (sbInfoOf smallEnv (smallImage 16) 1024) group index 6 896 := by
  obtain ⟨hapart, hplace⟩ :=
    inode_addressing (krFillSuper_smallImage 16 (Or.inl rfl)) (by decide)
  obtain ⟨group, index, -, hslot, -⟩ := hplace 16
  exact ⟨hapart (fun _ => true) (fun _ => true) 11 16 6 6 256 896 rfl rfl (by decide),
    group, index, hslot (fun _ => true) 6 896 rfl⟩

end KrFs
