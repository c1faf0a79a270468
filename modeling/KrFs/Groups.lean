import KrFs.InodeTable
import Mathlib.Algebra.Order.Floor.Div

/-!
# Block groups of an accepted image

`kr_fill_super` computes the number of groups by 32-bit subtractions and compares
`s_first_data_block` with `s_blocks_count` nowhere. What an accepted image says
about its groups rests on the check that `kr_check_descriptors` makes of the last
one, which subtracts in 32 bits as well.
-/

namespace KrFs

/-- The block belongs to the group. -/
def SbInfo.InGroup (sbi : SbInfo) (b g : Nat) : Prop :=
  g < sbi.sGroupsCount ∧ sbi.groupFirstBlockNo g ≤ b ∧
    b < sbi.groupFirstBlockNo g + sbi.sBlocksPerGroup

theorem groupFirstBlockNo_succ (sbi : SbInfo) (g : Nat) :
    sbi.groupFirstBlockNo (g + 1) = sbi.groupFirstBlockNo g + sbi.sBlocksPerGroup := by
  rw [SbInfo.groupFirstBlockNo, SbInfo.groupFirstBlockNo, Nat.succ_mul]
  omega

theorem groupFirstBlockNo_mono (sbi : SbInfo) {g g' : Nat} (h : g ≤ g') :
    sbi.groupFirstBlockNo g ≤ sbi.groupFirstBlockNo g' :=
  Nat.add_le_add_right (Nat.mul_le_mul_right _ h) _

/-- `kr_get_group_desc` finds the descriptor of the group, in a block that was
read when the file system was mounted. -/
def SbInfo.DescLoaded (sbi : SbInfo) (g : Nat) : Prop :=
  ∃ descs, g >>> sbi.sDescPerBlockBits < sbi.sGdbCount ∧
    sbi.sGroupDesc (g >>> sbi.sDescPerBlockBits) = some descs ∧
    g &&& (sbi.sDescPerBlock - 1) < sbi.sDescPerBlock ∧
    krGetGroupDesc sbi g = some (descs (g &&& (sbi.sDescPerBlock - 1)))

/-- `kr_count_free_blocks` and `kr_count_free_inodes`, by the counter of a descriptor. -/
def countFree (sbi : SbInfo) (desc : Nat → GroupDesc) (counter : GroupDesc → UInt16) : Nat :=
  (List.range sbi.sGroupsCount).foldl (fun descCount i => descCount + (counter (desc i)).toNat) 0

def krCountFreeBlocks (sbi : SbInfo) (desc : Nat → GroupDesc) : Nat :=
  countFree sbi desc GroupDesc.bgFreeBlocksCount

def krCountFreeInodes (sbi : SbInfo) (desc : Nat → GroupDesc) : Nat :=
  countFree sbi desc GroupDesc.bgFreeInodesCount

/-- The groups cut the data blocks of the image into pieces, each with a
descriptor and a bitmap that is long enough. -/
structure GroupsPartition (sbi : SbInfo) : Prop where
  first_lt : sbi.sEs.sFirstDataBlock < sbi.sEs.sBlocksCount
  groups_eq : sbi.sGroupsCount =
    (sbi.sEs.sBlocksCount.toNat - sbi.sEs.sFirstDataBlock.toNat) ⌈/⌉ sbi.sBlocksPerGroup
  in_one_group : ∀ b, sbi.sEs.sFirstDataBlock.toNat ≤ b → b < sbi.sEs.sBlocksCount.toNat →
    ∃! g, sbi.InGroup b g
  desc_loaded : ∀ b g, sbi.InGroup b g → sbi.DescLoaded g
  bit_lt : ∀ b g, sbi.InGroup b g → b - sbi.groupFirstBlockNo g < 8 * sbi.sBlocksize

section Accepted

variable {k : MountEnv} {es : SuperBlock} {sbi : SbInfo}

theorem sEs_of_krFillSuper (accepted : krFillSuper k es = .ok sbi) : sbi.sEs = es := by
  rw [(krFillSuper_ok accepted).1]
  rfl

/-- The count of groups, with the subtractions of the source. -/
theorem groupsCount_of_krFillSuper (accepted : krFillSuper k es = .ok sbi) :
    sbi.sGroupsCount = sub32 (sub32 es.sBlocksCount.toNat es.sFirstDataBlock.toNat) 1 /
      sbi.sBlocksPerGroup + 1 := by
  rw [(krFillSuper_ok accepted).1]
  rfl

theorem checkDescriptor_of_krFillSuper (accepted : krFillSuper k es = .ok sbi) {g : Nat}
    (hg : g < sbi.sGroupsCount) : krCheckDescriptor sbi g = true := by
  have hall := (krFillSuper_ok accepted).2.2.2
  rw [krCheckDescriptors, List.all_eq_true] at hall
  exact hall g (List.mem_range.mpr hg)

/-- A check of the last group compares it with the last block of the image. -/
theorem last_group_le (accepted : krFillSuper k es = .ok sbi) :
    es.sFirstDataBlock.toNat ≤ sub32 es.sBlocksCount.toNat 1 := by
  have hpos : 0 < sbi.sGroupsCount := by
    rw [groupsCount_of_krFillSuper accepted]
    exact Nat.succ_pos _
  have hcheck := checkDescriptor_of_krFillSuper accepted (Nat.sub_one_lt_of_lt hpos)
  unfold krCheckDescriptor at hcheck
  split at hcheck
  · cases hcheck
  · rename_i gdp _
    simp only [if_true, sEs_of_krFillSuper accepted, Bool.and_eq_true, decide_eq_true_eq] at hcheck
    obtain ⟨⟨⟨⟨hlow, hhigh⟩, -⟩, -⟩, -⟩ := hcheck
    rw [SbInfo.groupFirstBlockNo, sEs_of_krFillSuper accepted] at hlow
    omega

/-- A wrapped geometry is refused unless the image claims to have no block. -/
theorem first_lt_blocksCount (accepted : krFillSuper k es = .ok sbi) (hblocks : es.sBlocksCount ≠ 0) :
    es.sFirstDataBlock.toNat < es.sBlocksCount.toNat := by
  have hle := last_group_le accepted
  have hlt := es.sBlocksCount.toNat_lt
  have hpos : es.sBlocksCount.toNat ≠ 0 := fun h => hblocks (UInt32.toNat.inj h)
  rw [sub32_of_le (by omega) hlt] at hle
  omega

theorem descPerBlock_of_krFillSuper (accepted : krFillSuper k es = .ok sbi) :
    sbi.sDescPerBlock = 2 ^ sbi.sDescPerBlockBits := by
  obtain ⟨hsbi, hsize, -, -⟩ := krFillSuper_ok accepted
  obtain ⟨⟨n, hn⟩, hmin⟩ := accepted_blocksize hsize
  have hdesc : sbi.sDescPerBlock = 2 ^ n / 2 ^ 5 := by
    rw [hsbi, ← hn]
    rfl
  have hbits : sbi.sDescPerBlockBits = Nat.log2 (2 ^ n / 2 ^ 5) := by
    rw [hsbi, ← hn]
    rfl
  have hn5 : 5 ≤ n := by
    have : 2 ^ 5 ≤ 2 ^ n := by omega
    exact (Nat.pow_le_pow_iff_right (by decide)).mp this
  rw [hdesc, hbits, Nat.pow_div hn5 (by decide), Nat.log2_two_pow]

/-- The table that was read holds a descriptor of every group. -/
theorem descLoaded_of_krFillSuper (accepted : krFillSuper k es = .ok sbi) {g : Nat}
    (hg : g < sbi.sGroupsCount) : sbi.DescLoaded g := by
  have hdpb := descPerBlock_of_krFillSuper accepted
  have hpos : 0 < sbi.sDescPerBlock := by
    rw [hdpb]
    exact Nat.two_pow_pos _
  have hgdb : sbi.sGdbCount = (sbi.sGroupsCount + sbi.sDescPerBlock - 1) / sbi.sDescPerBlock := by
    rw [(krFillSuper_ok accepted).1]
    rfl
  have hindex : g >>> sbi.sDescPerBlockBits < sbi.sGdbCount := by
    rw [Nat.shiftRight_eq_div_pow, ← hdpb, hgdb, Nat.div_lt_iff_lt_mul hpos]
    have hdiv := Nat.lt_div_mul_add (a := sbi.sGroupsCount + sbi.sDescPerBlock - 1) hpos
    omega
  have hslot : g &&& (sbi.sDescPerBlock - 1) < sbi.sDescPerBlock := by
    have := Nat.and_le_right (n := g) (m := sbi.sDescPerBlock - 1)
    omega
  have hcheck := checkDescriptor_of_krFillSuper accepted hg
  unfold krCheckDescriptor at hcheck
  cases hblock : sbi.sGroupDesc (g >>> sbi.sDescPerBlockBits) with
  | none =>
    have hnone : krGetGroupDesc sbi g = none := by
      rw [krGetGroupDesc, if_neg (by omega), hblock]
    rw [hnone] at hcheck
    cases hcheck
  | some descs =>
    exact ⟨descs, hindex, hblock, hslot, by rw [krGetGroupDesc, if_neg (by omega), hblock]⟩

/-- Two groups have no block in common. -/
theorem inGroup_unique {b g g' : Nat} (h : sbi.InGroup b g) (h' : sbi.InGroup b g') : g = g' := by
  obtain ⟨-, hlow, hhigh⟩ := h
  obtain ⟨-, hlow', hhigh'⟩ := h'
  simp only [SbInfo.groupFirstBlockNo] at hlow hhigh hlow' hhigh'
  rcases Nat.lt_trichotomy g g' with hlt | heq | hgt
  · have := Nat.mul_le_mul_right sbi.sBlocksPerGroup (Nat.succ_le_of_lt hlt)
    rw [Nat.succ_mul] at this
    omega
  · exact heq
  · have := Nat.mul_le_mul_right sbi.sBlocksPerGroup (Nat.succ_le_of_lt hgt)
    rw [Nat.succ_mul] at this
    omega

/-- The groups of an accepted image partition its blocks exactly when the image
has any: with `s_blocks_count` zero every 32-bit subtraction wraps, also the one
that `kr_check_descriptors` compares the last group with. -/
theorem groupsPartition_iff (accepted : krFillSuper k es = .ok sbi) :
    GroupsPartition sbi ↔ es.sBlocksCount ≠ 0 := by
  have hes := sEs_of_krFillSuper accepted
  constructor
  · intro h hzero
    have hlt := h.first_lt
    rw [hes, hzero] at hlt
    exact absurd hlt (UInt32.not_lt.mpr (UInt32.zero_le ..))
  · intro hblocks
    have hbpg := blocksPerGroup_pos_of_krFillSuper accepted
    have hlt := first_lt_blocksCount accepted hblocks
    have hb := es.sBlocksCount.toNat_lt
    have hgroups := groupsCount_of_krFillSuper accepted
    rw [sub32_of_le hlt.le hb, sub32_of_le (by omega) (by omega)] at hgroups
    have hsize : sbi.sBlocksPerGroup ≤ sbi.sBlocksize * 8 := by
      obtain ⟨-, -, hgeo, -⟩ := krFillSuper_ok accepted
      simp only [geometryOk, Bool.and_eq_true, decide_eq_true_eq] at hgeo
      omega
    refine ⟨?_, ?_, ?_, fun b g hg => descLoaded_of_krFillSuper accepted hg.1, ?_⟩
    · rw [hes]
      exact hlt
    · rw [hes, Nat.ceilDiv_eq_add_pred_div, hgroups,
        show es.sBlocksCount.toNat - es.sFirstDataBlock.toNat + sbi.sBlocksPerGroup - 1 =
          es.sBlocksCount.toNat - es.sFirstDataBlock.toNat - 1 + sbi.sBlocksPerGroup by omega,
        Nat.add_div_right _ hbpg]
    · intro b hlow hhigh
      rw [hes] at hlow hhigh
      have hin : sbi.InGroup b ((b - es.sFirstDataBlock.toNat) / sbi.sBlocksPerGroup) := by
        have hle := Nat.div_mul_le_self (b - es.sFirstDataBlock.toNat) sbi.sBlocksPerGroup
        have hgt := Nat.lt_div_mul_add (a := b - es.sFirstDataBlock.toNat) hbpg
        simp only [SbInfo.InGroup, SbInfo.groupFirstBlockNo, hes]
        refine ⟨?_, by omega, by omega⟩
        rw [hgroups]
        exact Nat.lt_succ_of_le (Nat.div_le_div_right (by omega))
      exact ⟨_, hin, fun g hg => inGroup_unique hg hin⟩
    · intro b g hg
      have := hg.2.2
      omega

end Accepted

theorem groupsPartition_small : GroupsPartition (sbInfoOf smallEnv (smallImage 16) 1024) :=
  (groupsPartition_iff (krFillSuper_smallImage 16 (Or.inl rfl))).mpr (by decide)

/-- The image of a file system without a block; 2^19 groups come out. -/
def emptyImage : SuperBlock :=
  { smallImage 16 with sBlocksCount := 0, sFirstDataBlock := 0 }

/-- The bitmaps and the inode table of group `g` of `emptyImage`. -/
def emptyDesc (g : Nat) : GroupDesc :=
  ⟨UInt32.ofNat (g * 8192 + 3), UInt32.ofNat (g * 8192 + 4), UInt32.ofNat (g * 8192 + 5), 0, 0, 0⟩

/-- The descriptor table of `emptyImage` lies in the blocks from 2 on. -/
def emptyEnv : MountEnv :=
  { smallEnv with bread := fun block => some fun slot => emptyDesc ((block - 2) * 32 + slot) }

theorem descriptorLoc_empty {sbi : SbInfo} (hes : sbi.sEs = emptyImage) (i : Nat) :
    descriptorLoc sbi 1 i = i + 2 := by
  rw [descriptorLoc, if_pos (by rw [hes]; rfl)]
  omega

theorem sGroupDesc_empty {i : Nat} (hi : i < 16384) :
    (sbInfoOf emptyEnv emptyImage 1024).sGroupDesc i =
      some fun slot => emptyDesc (i * 32 + slot) := by
  have hgdb : (sbInfoOf emptyEnv emptyImage 1024).sGdbCount = 16384 := rfl
  have hsb : emptyEnv.sbBlock * BLOCK_SIZE / 1024 = 1 := rfl
  simp only [sbInfoOf] at hgdb ⊢
  rw [hgdb, if_pos hi, hsb, descriptorLoc_empty rfl]
  rfl

theorem krGetGroupDesc_empty {g : Nat} (hg : g < 524288) :
    krGetGroupDesc (sbInfoOf emptyEnv emptyImage 1024) g = some (emptyDesc g) := by
  have hgroups : (sbInfoOf emptyEnv emptyImage 1024).sGroupsCount = 524288 := rfl
  have hblock : g >>> 5 < 16384 := by
    rw [Nat.shiftRight_eq_div_pow]
    omega
  have hbits : (sbInfoOf emptyEnv emptyImage 1024).sDescPerBlockBits = 5 := rfl
  have hmask : (sbInfoOf emptyEnv emptyImage 1024).sDescPerBlock - 1 = 31 := rfl
  simp only [krGetGroupDesc, hgroups, hbits, hmask, sGroupDesc_empty hblock]
  rw [if_neg (by omega)]
  have hsplit : g >>> 5 * 32 + (g &&& 31) = g := by
    rw [Nat.shiftRight_eq_div_pow, Nat.and_two_pow_sub_one_eq_mod g 5]
    omega
  simp only [hsplit]

theorem krCheckDescriptor_empty {g : Nat} (hg : g < 524288) :
    krCheckDescriptor (sbInfoOf emptyEnv emptyImage 1024) g = true := by
  have hbpg : (sbInfoOf emptyEnv emptyImage 1024).sBlocksPerGroup = 8192 := rfl
  have hitb : (sbInfoOf emptyEnv emptyImage 1024).sItbPerGroup = 2 := rfl
  have hgroups : (sbInfoOf emptyEnv emptyImage 1024).sGroupsCount - 1 = 524287 := rfl
  have hend : sub32 (sbInfoOf emptyEnv emptyImage 1024).sEs.sBlocksCount.toNat 1 = 4294967295 := rfl
  have hfirst : (sbInfoOf emptyEnv emptyImage 1024).groupFirstBlockNo g = g * 8192 := by
    have hfdb : (sbInfoOf emptyEnv emptyImage 1024).sEs.sFirstDataBlock.toNat = 0 := rfl
    rw [SbInfo.groupFirstBlockNo, hbpg, hfdb, Nat.add_zero]
  have hlast : g * 8192 + 8191 ≤ (if g = 524287 then 4294967295 else g * 8192 + (8192 - 1)) := by
    split <;> omega
  have htable : sub64 (g * 8192 + 5 + 2) 1 = g * 8192 + 6 := by
    rw [sub64_of_le (by omega) (by omega)]
    omega
  rw [krCheckDescriptor, krGetGroupDesc_empty hg]
  simp only [hfirst, hbpg, hitb, hgroups, hend, emptyDesc, Bool.and_eq_true, decide_eq_true_eq]
  rw [UInt32.toNat_ofNat_of_lt' (by simp only [UInt32.size]; omega),
    UInt32.toNat_ofNat_of_lt' (by simp only [UInt32.size]; omega),
    UInt32.toNat_ofNat_of_lt' (by simp only [UInt32.size]; omega)]
  rw [htable]
  omega

theorem krFillSuper_emptyImage :
    krFillSuper emptyEnv emptyImage = .ok (sbInfoOf emptyEnv emptyImage 1024) := by
  have hread : (List.range (sbInfoOf emptyEnv emptyImage 1024).sGdbCount).all
      (fun i => ((sbInfoOf emptyEnv emptyImage 1024).sGroupDesc i).isSome) = true := by
    rw [List.all_eq_true]
    intro i hi
    rw [sGroupDesc_empty (List.mem_range.mp hi)]
    rfl
  have hdesc : krCheckDescriptors (sbInfoOf emptyEnv emptyImage 1024) = true := by
    rw [krCheckDescriptors, List.all_eq_true]
    intro g hg
    exact krCheckDescriptor_empty (List.mem_range.mp hg)
  unfold krFillSuper
  dsimp only
  rw [if_neg (by decide), if_neg (by decide), if_neg (by decide), if_neg (by decide),
    if_neg (by decide), if_neg (by decide), if_neg (by decide)]
  change (if (!(List.range (sbInfoOf emptyEnv emptyImage 1024).sGdbCount).all
      (fun i => ((sbInfoOf emptyEnv emptyImage 1024).sGroupDesc i).isSome)) = true then _ else
      if (!krCheckDescriptors (sbInfoOf emptyEnv emptyImage 1024)) = true then _ else _) = _
  rw [hread, hdesc]
  rfl

/-- The mount accepts an image that says it has no block. -/
theorem krFillSuper_accepts_empty :
    ¬ ∀ (k : MountEnv) (es : SuperBlock) (sbi : SbInfo), krFillSuper k es = .ok sbi →
      GroupsPartition sbi := by
  intro h
  have hlt := (h emptyEnv emptyImage _ krFillSuper_emptyImage).first_lt
  exact absurd hlt (by decide)

end KrFs
