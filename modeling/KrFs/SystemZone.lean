import KrFs.BlockOwner
import KrFs.Groups

/-!
# The system zone of a group

`kr_free_blocks` refuses to free the bitmaps and the inode table of a group. It
cuts a range at the group boundaries and tests each part: whether it contains a
bitmap, and whether one of its ends lies in the inode table. A part that begins
below the table and ends above it passes that test.
-/

namespace KrFs

open Bitmap

/-- Where the part of a range from `block` on in group `g` begins. -/
def SbInfo.partStart (sbi : SbInfo) (block g : Nat) : Nat := max block (sbi.groupFirstBlockNo g)

/-- Where the part of a range up to `stop` in group `g` ends. -/
def SbInfo.partEnd (sbi : SbInfo) (stop g : Nat) : Nat :=
  min stop (sbi.groupFirstBlockNo g + sbi.sBlocksPerGroup)

/-- The first group of a range. -/
def SbInfo.groupOf (sbi : SbInfo) (block : Nat) : Nat :=
  (block - sbi.sEs.sFirstDataBlock.toNat) / sbi.sBlocksPerGroup

/-- The bit of a block in the bitmap of its group. -/
def SbInfo.bitOf (sbi : SbInfo) (block : Nat) : Nat :=
  (block - sbi.sEs.sFirstDataBlock.toNat) % sbi.sBlocksPerGroup

/-- The bitmap of the group can be read and the part passes the system zone test. -/
def Fs.PartPasses (fs : Fs) (readBitmap : Nat → Bool) (block stop g : Nat) : Prop :=
  readBitmap g = true ∧ inSystemZone fs.sbi (fs.desc g) (fs.sbi.partStart block g)
    (fs.sbi.partEnd stop g - fs.sbi.partStart block g) = false

/-- The loop comes to the part of the range in group `g` and frees it. -/
def Fs.PartFreed (fs : Fs) (readBitmap : Nat → Bool) (block stop g : Nat) : Prop :=
  fs.sbi.groupOf block ≤ g ∧
    ∀ g', fs.sbi.groupOf block ≤ g' → g' ≤ g → fs.PartPasses readBitmap block stop g'

theorem clearBits_bits (bm : Nat → Bool) (bit n i : Nat) :
    (clearBits bm bit n).1 i = true ↔ bm i = true ∧ ¬ (bit ≤ i ∧ i < bit + n) := by
  induction n with
  | zero =>
    simp only [clearBits]
    constructor
    · intro h
      exact ⟨h, by omega⟩
    · exact fun h => h.1
  | succ n ih =>
    simp only [clearBits]
    by_cases hi : i = bit + n
    · subst hi
      split
      · simp
      · rename_i hclear
        constructor
        · intro h
          exact absurd h hclear
        · rintro ⟨-, hout⟩
          exact absurd ⟨by omega, by omega⟩ hout
    · have hsame : (if (clearBits bm bit n).1 (bit + n) = true then
          (Function.update (clearBits bm bit n).1 (bit + n) false, (clearBits bm bit n).2 + 1)
          else ((clearBits bm bit n).1, (clearBits bm bit n).2)).1 i = (clearBits bm bit n).1 i := by
        split
        · exact Function.update_of_ne hi _ _
        · rfl
      rw [hsame, ih]
      constructor
      · rintro ⟨hset, hout⟩
        exact ⟨hset, by omega⟩
      · rintro ⟨hset, hout⟩
        exact ⟨hset, by omega⟩

section Loop

variable {readBitmap : Nat → Bool}

/-- Address of the first block of a range, by group and bit. -/
theorem groupOf_addr {sbi : SbInfo} {block : Nat} (hlow : sbi.sEs.sFirstDataBlock.toNat ≤ block) :
    sbi.groupFirstBlockNo (sbi.groupOf block) + sbi.bitOf block = block := by
  have hdm := Nat.div_add_mod (block - sbi.sEs.sFirstDataBlock.toNat) sbi.sBlocksPerGroup
  rw [SbInfo.groupFirstBlockNo, SbInfo.groupOf, SbInfo.bitOf, Nat.mul_comm]
  omega

theorem groupOf_groupFirstBlockNo (sbi : SbInfo) (hbpg : 0 < sbi.sBlocksPerGroup) (g : Nat) :
    sbi.groupOf (sbi.groupFirstBlockNo g) = g := by
  rw [SbInfo.groupOf, SbInfo.groupFirstBlockNo, Nat.add_sub_cancel, Nat.mul_div_cancel _ hbpg]

/-- Freeing the part in one group changes no other group and no location. -/
theorem freeInGroup_desc (fs : Fs) (group bit count g : Nat) :
    (freeInGroup fs group bit count).1.desc g = fs.desc g ∨ g = group := by
  by_cases hg : g = group
  · exact Or.inr hg
  · exact Or.inl (by simp only [freeInGroup, Function.update_of_ne hg])

theorem freeInGroup_bits (fs : Fs) (group bit count g i : Nat) :
    (freeInGroup fs group bit count).1.blockBitmap g i = true ↔
      fs.blockBitmap g i = true ∧ ¬ (g = group ∧ bit ≤ i ∧ i < bit + count) := by
  by_cases hg : g = group
  · subst hg
    simp only [freeInGroup, Function.update_self, true_and]
    exact clearBits_bits _ _ _ _
  · simp [freeInGroup, hg]

/-- One round of `do_more`: the part of the range in its first group, and what
lies beyond the group. -/
theorem freeBlocksLoop_round (fs : Fs) (block count freed fuel : Nat) (hbpg : 0 < fs.sbi.sBlocksPerGroup) :
    ∃ part beyond, count = part + beyond ∧
      fs.sbi.bitOf block + part ≤ fs.sbi.sBlocksPerGroup ∧
      (beyond ≠ 0 → fs.sbi.bitOf block + part = fs.sbi.sBlocksPerGroup) ∧
      freeBlocksLoop readBitmap (fuel + 1) fs block count freed =
        if !readBitmap (fs.sbi.groupOf block) then (fs, freed)
        else match fs.groupDesc (fs.sbi.groupOf block) with
          | none => (fs, freed)
          | some desc =>
            if inSystemZone fs.sbi desc block part then (fs, freed)
            else if beyond ≠ 0 then
              freeBlocksLoop readBitmap fuel
                (freeInGroup fs (fs.sbi.groupOf block) (fs.sbi.bitOf block) part).1 (block + part) beyond
                (freed + (freeInGroup fs (fs.sbi.groupOf block) (fs.sbi.bitOf block) part).2)
            else ((freeInGroup fs (fs.sbi.groupOf block) (fs.sbi.bitOf block) part).1,
              freed + (freeInGroup fs (fs.sbi.groupOf block) (fs.sbi.bitOf block) part).2) := by
  have hbit : fs.sbi.bitOf block < fs.sbi.sBlocksPerGroup := Nat.mod_lt _ hbpg
  refine ⟨count - if fs.sbi.sBlocksPerGroup < fs.sbi.bitOf block + count then
    fs.sbi.bitOf block + count - fs.sbi.sBlocksPerGroup else 0,
    if fs.sbi.sBlocksPerGroup < fs.sbi.bitOf block + count then
      fs.sbi.bitOf block + count - fs.sbi.sBlocksPerGroup else 0, ?_, ?_, ?_, rfl⟩
  · split <;> omega
  · split <;> omega
  · split <;> omega

/-- The bits after the rounds of `do_more`: those of the parts that were freed
are clear, all others are as they were. -/
theorem freeBlocksLoop_bits (fuel : Nat) : ∀ {fs : Fs} {block count freed : Nat},
    0 < fs.sbi.sBlocksPerGroup → fs.sbi.sEs.sFirstDataBlock.toNat ≤ block →
    block + count ≤ fs.sbi.sEs.sFirstDataBlock.toNat +
      fs.sbi.sGroupsCount * fs.sbi.sBlocksPerGroup →
    count < fuel → ∀ g i, i < fs.sbi.sBlocksPerGroup →
    ((freeBlocksLoop readBitmap fuel fs block count freed).1.blockBitmap g i = true ↔
      fs.blockBitmap g i = true ∧ ¬ (fs.PartFreed readBitmap block (block + count) g ∧
        block ≤ fs.sbi.groupFirstBlockNo g + i ∧ fs.sbi.groupFirstBlockNo g + i < block + count)) := by
  induction fuel with
  | zero => omega
  | succ fuel ih =>
    intro fs block count freed hbpg hlow hhigh hfuel g i hi
    obtain ⟨part, beyond, hsum, hfit, hfull, hloop⟩ :=
      @freeBlocksLoop_round readBitmap fs block count freed fuel hbpg
    set bit := fs.sbi.bitOf block with hbit
    have haddr : fs.sbi.groupFirstBlockNo (fs.sbi.groupOf block) + bit = block := groupOf_addr hlow
    have hbitlt : bit < fs.sbi.sBlocksPerGroup := Nat.mod_lt _ hbpg
    have hsucc := groupFirstBlockNo_succ fs.sbi (fs.sbi.groupOf block)
    have hstart : fs.sbi.partStart block (fs.sbi.groupOf block) = block := by
      unfold SbInfo.partStart
      omega
    have hlen : fs.sbi.partEnd (block + count) (fs.sbi.groupOf block) - block = part := by
      unfold SbInfo.partEnd
      rcases Nat.eq_zero_or_pos beyond with hz | hz
      · omega
      · have := hfull (by omega)
        omega
    -- a round that stops the loop leaves every bit, and no part counts as freed
    have stopped : ¬ (fs.PartPasses readBitmap block (block + count) (fs.sbi.groupOf block) ∧
          0 < count) →
        (fs.blockBitmap g i = true ↔ fs.blockBitmap g i = true ∧
          ¬ (fs.PartFreed readBitmap block (block + count) g ∧
            block ≤ fs.sbi.groupFirstBlockNo g + i ∧ fs.sbi.groupFirstBlockNo g + i < block + count)) := by
      intro hstop
      constructor
      · intro hset
        refine ⟨hset, ?_⟩
        rintro ⟨⟨hle, hpass⟩, h1, h2⟩
        exact hstop ⟨hpass _ (le_refl _) hle, by omega⟩
      · exact fun h => h.1
    rw [hloop]
    by_cases hread : readBitmap (fs.sbi.groupOf block) = true
    swap
    · rw [if_pos (by simpa using hread)]
      exact stopped fun h => hread h.1.1
    rw [if_neg (by simpa using hread)]
    cases hdesc : fs.groupDesc (fs.sbi.groupOf block) with
    | none =>
      refine stopped fun h => ?_
      rw [Fs.groupDesc] at hdesc
      split at hdesc
      · rename_i hge
        have := groupFirstBlockNo_mono fs.sbi hge
        have hend : fs.sbi.groupFirstBlockNo fs.sbi.sGroupsCount = fs.sbi.sEs.sFirstDataBlock.toNat +
            fs.sbi.sGroupsCount * fs.sbi.sBlocksPerGroup := Nat.add_comm _ _
        omega
      · cases hdesc
    | some desc =>
      have hd : desc = fs.desc (fs.sbi.groupOf block) := by
        rw [Fs.groupDesc] at hdesc
        split at hdesc
        · cases hdesc
        · exact (Option.some.inj hdesc).symm
      subst hd
      by_cases hzone : inSystemZone fs.sbi (fs.desc (fs.sbi.groupOf block)) block part = true
      · simp only [hzone, if_true]
        refine stopped fun h => ?_
        have hpass := h.1.2
        rw [hstart, hlen, hzone] at hpass
        cases hpass
      · have hpass : fs.PartPasses readBitmap block (block + count) (fs.sbi.groupOf block) := by
          refine ⟨hread, ?_⟩
          rw [hstart, hlen]
          simpa using hzone
        simp only [hzone, Bool.false_eq_true, if_false]
        -- the bits of this part, as bits of the range
        have here : (g = fs.sbi.groupOf block ∧ bit ≤ i ∧ i < bit + part) ↔
            (g = fs.sbi.groupOf block ∧ block ≤ fs.sbi.groupFirstBlockNo g + i ∧
              fs.sbi.groupFirstBlockNo g + i < block + part) := by
          constructor
          · rintro ⟨rfl, h1, h2⟩
            exact ⟨rfl, by omega, by omega⟩
          · rintro ⟨rfl, h1, h2⟩
            exact ⟨rfl, by omega, by omega⟩
        have hfirst : fs.PartFreed readBitmap block (block + count) (fs.sbi.groupOf block) :=
          ⟨le_refl _, fun g' h1 h2 => le_antisymm h2 h1 ▸ hpass⟩
        by_cases hz : beyond = 0
        · rw [if_neg (by simpa using hz), freeInGroup_bits, here]
          refine and_congr_right fun _ => not_congr ⟨?_, ?_⟩
          · rintro ⟨rfl, h1, h2⟩
            exact ⟨hfirst, h1, by omega⟩
          · rintro ⟨⟨hle, -⟩, h1, h2⟩
            have heq : g = fs.sbi.groupOf block := by
              by_contra hne
              have := groupFirstBlockNo_mono fs.sbi (show fs.sbi.groupOf block + 1 ≤ g by omega)
              omega
            exact ⟨heq, h1, by omega⟩
        · rw [if_pos hz]
          have hnext : block + part = fs.sbi.groupFirstBlockNo (fs.sbi.groupOf block + 1) := by
            have := hfull hz
            omega
          set fs1 := (freeInGroup fs (fs.sbi.groupOf block) bit part).1 with hfs1
          have hgroup : fs.sbi.groupOf (block + part) = fs.sbi.groupOf block + 1 := by
            rw [hnext, groupOf_groupFirstBlockNo fs.sbi hbpg]
          have hrest := @ih fs1 (block + part) beyond
            (freed + (freeInGroup fs (fs.sbi.groupOf block) bit part).2) hbpg
            (show fs.sbi.sEs.sFirstDataBlock.toNat ≤ block + part by omega)
            (show block + part + beyond ≤ fs.sbi.sEs.sFirstDataBlock.toNat +
              fs.sbi.sGroupsCount * fs.sbi.sBlocksPerGroup by omega) (by omega) g i hi
          have hpasses : ∀ g', fs.sbi.groupOf block < g' →
              (fs1.PartPasses readBitmap (block + part) (block + count) g' ↔
                fs.PartPasses readBitmap block (block + count) g') := by
            intro g' hg'
            have hdesc' : fs1.desc g' = fs.desc g' :=
              (freeInGroup_desc fs _ bit part g').resolve_right (by omega)
            have hmono := groupFirstBlockNo_mono fs.sbi (show fs.sbi.groupOf block + 1 ≤ g' by omega)
            have hsame : fs.sbi.partStart (block + part) g' = fs.sbi.partStart block g' := by
              unfold SbInfo.partStart
              omega
            have hsbi : fs1.sbi = fs.sbi := rfl
            simp only [Fs.PartPasses, hsbi, hdesc', hsame]
          have hlater : fs.PartFreed readBitmap block (block + count) g ↔
              g = fs.sbi.groupOf block ∨
                fs1.PartFreed readBitmap (block + part) (block + count) g := by
            have hsbi : fs1.sbi = fs.sbi := rfl
            simp only [Fs.PartFreed, hsbi, hgroup]
            constructor
            · rintro ⟨hle, hall⟩
              rcases Nat.eq_or_lt_of_le hle with heq | hlt
              · exact Or.inl heq.symm
              · exact Or.inr ⟨hlt, fun g' h1 h2 => (hpasses g' h1).mpr (hall g' (by omega) h2)⟩
            · rintro (rfl | ⟨hle, hall⟩)
              · exact hfirst
              · refine ⟨by omega, fun g' h1 h2 => ?_⟩
                rcases Nat.eq_or_lt_of_le h1 with heq | hlt
                · exact heq ▸ hpass
                · exact (hpasses g' hlt).mp (hall g' hlt h2)
          have hstop : block + part + beyond = block + count := by omega
          rw [hstop, show fs1.sbi = fs.sbi from rfl] at hrest
          rw [hrest, freeInGroup_bits, here, and_assoc, hlater]
          refine and_congr_right fun _ => ?_
          rw [← not_or]
          refine not_congr ⟨?_, ?_⟩
          · rintro (⟨rfl, h1, h2⟩ | ⟨hfreed, h1, h2⟩)
            · exact ⟨Or.inl rfl, h1, by omega⟩
            · exact ⟨Or.inr hfreed, by omega, h2⟩
          · rintro ⟨rfl | hfreed, h1, h2⟩
            · exact Or.inl ⟨rfl, h1, by omega⟩
            · have hle : fs.sbi.groupOf block + 1 ≤ g := hgroup ▸ hfreed.1
              have hmono := groupFirstBlockNo_mono fs.sbi hle
              exact Or.inr ⟨hfreed, by omega, h2⟩

/-- The bits after `kr_free_blocks`. -/
theorem krFreeBlocks_bits {fs : Fs} (readBitmap : Nat → Bool) (ino block count g i : Nat)
    (hbpg : 0 < fs.sbi.sBlocksPerGroup)
    (hcovers : fs.sbi.sEs.sBlocksCount.toNat ≤ fs.sbi.sEs.sFirstDataBlock.toNat +
      fs.sbi.sGroupsCount * fs.sbi.sBlocksPerGroup) (hi : i < fs.sbi.sBlocksPerGroup) :
    (krFreeBlocks readBitmap fs ino block count).blockBitmap g i = true ↔
      fs.blockBitmap g i = true ∧ ¬ (fs.sbi.sEs.sFirstDataBlock.toNat ≤ block ∧
        block + count ≤ fs.sbi.sEs.sBlocksCount.toNat ∧
        fs.PartFreed readBitmap block (block + count) g ∧
        block ≤ fs.sbi.groupFirstBlockNo g + i ∧ fs.sbi.groupFirstBlockNo g + i < block + count) := by
  have hb := fs.sbi.sEs.sBlocksCount.toNat_lt
  unfold krFreeBlocks
  by_cases hzone : fs.sbi.sEs.sFirstDataBlock.toNat ≤ block ∧
      block + count ≤ fs.sbi.sEs.sBlocksCount.toNat
  · obtain ⟨hlow, hhigh⟩ := hzone
    have hsettle : ∀ (fs' : Fs) (freed : Nat),
        (if freed ≠ 0 then fs'.settleFreed ino freed else fs').blockBitmap = fs'.blockBitmap := by
      intro fs' freed
      split
      · rfl
      · rfl
    rw [if_neg (by simp only [Bool.or_eq_true, decide_eq_true_eq, not_or, not_lt]; omega)]
    dsimp only
    rw [hsettle, freeBlocksLoop_bits (count + 1) hbpg hlow (by omega) (Nat.lt_succ_self _) g i hi]
    refine and_congr_right fun _ => not_congr ⟨?_, ?_⟩
    · exact fun h => ⟨hlow, hhigh, h⟩
    · exact fun h => h.2.2
  · rw [if_pos (by simp only [Bool.or_eq_true, decide_eq_true_eq]; omega)]
    constructor
    · exact fun h => ⟨h, fun hin => hzone ⟨hin.1, hin.2.1⟩⟩
    · exact fun h => h.1

end Loop

/-- The location fields of the descriptors are those that were read when the file
system was mounted; nothing writes them. -/
def Fs.DescsAsRead (fs : Fs) : Prop :=
  ∀ g < fs.sbi.sGroupsCount, ∃ gdp, krGetGroupDesc fs.sbi g = some gdp ∧
    (fs.desc g).bgBlockBitmap = gdp.bgBlockBitmap ∧
    (fs.desc g).bgInodeBitmap = gdp.bgInodeBitmap ∧ (fs.desc g).bgInodeTable = gdp.bgInodeTable

/-- Every bit of the metadata of a group that is set before is set after. -/
def KeepsSystemBits (fs fs' : Fs) : Prop :=
  ∀ g < fs.sbi.sGroupsCount, ∀ b, SystemBlock fs.sbi (fs.desc g) b →
    fs.blockBitmap g (b - fs.sbi.groupFirstBlockNo g) = true →
    fs'.blockBitmap g (b - fs.sbi.groupFirstBlockNo g) = true

/-- The part of the range in group `g` is freed although it begins below the
inode table of the group and ends above it, and the table is marked in use. -/
def Fs.EnclosesTable (fs : Fs) (readBitmap : Nat → Bool) (block count g : Nat) : Prop :=
  fs.PartFreed readBitmap block (block + count) g ∧
    fs.sbi.partStart block g < (fs.desc g).bgInodeTable.toNat ∧
    (fs.desc g).bgInodeTable.toNat + fs.sbi.sItbPerGroup < fs.sbi.partEnd (block + count) g ∧
    ∃ n < fs.sbi.sItbPerGroup, fs.blockBitmap g
      ((fs.desc g).bgInodeTable.toNat + n - fs.sbi.groupFirstBlockNo g) = true

/-- The last block of the image, as `kr_check_descriptors` computes it, lies in
the last group. -/
theorem last_block_lt {k : MountEnv} {es : SuperBlock} {sbi : SbInfo}
    (accepted : krFillSuper k es = .ok sbi) : sub32 es.sBlocksCount.toNat 1 <
      sbi.groupFirstBlockNo (sbi.sGroupsCount - 1) + sbi.sBlocksPerGroup := by
  have hle := last_group_le accepted
  have hb := es.sBlocksCount.toNat_lt
  have hf := es.sFirstDataBlock.toNat_lt
  have hsub : sub32 (sub32 es.sBlocksCount.toNat es.sFirstDataBlock.toNat) 1 =
      sub32 es.sBlocksCount.toNat 1 - es.sFirstDataBlock.toNat := by
    unfold sub32 at hle ⊢
    omega
  have hgroups := groupsCount_of_krFillSuper accepted
  have hdiv := Nat.lt_div_mul_add (a := sub32 es.sBlocksCount.toNat 1 - es.sFirstDataBlock.toNat)
    (blocksPerGroup_pos_of_krFillSuper accepted)
  rw [hsub] at hgroups
  rw [SbInfo.groupFirstBlockNo, hgroups, Nat.add_sub_cancel, sEs_of_krFillSuper accepted]
  omega

/-- The groups reach to the end of the image. -/
theorem groups_cover {k : MountEnv} {es : SuperBlock} {sbi : SbInfo}
    (accepted : krFillSuper k es = .ok sbi) : sbi.sEs.sBlocksCount.toNat ≤
      sbi.sEs.sFirstDataBlock.toNat + sbi.sGroupsCount * sbi.sBlocksPerGroup := by
  have hlast := last_block_lt accepted
  have hb := es.sBlocksCount.toNat_lt
  have hpos : 1 ≤ sbi.sGroupsCount := by
    rw [groupsCount_of_krFillSuper accepted]
    exact Nat.succ_pos _
  rw [SbInfo.groupFirstBlockNo] at hlast
  rw [← Nat.sub_add_cancel hpos, Nat.succ_mul]
  rw [sEs_of_krFillSuper accepted] at hlast ⊢
  unfold sub32 at hlast
  omega

/-- The metadata of a group lies in the group. -/
theorem systemBlock_inGroup {k : MountEnv} {es : SuperBlock} {fs : Fs}
    (accepted : krFillSuper k es = .ok fs.sbi) (hasRead : fs.DescsAsRead) {g b : Nat}
    (hg : g < fs.sbi.sGroupsCount) (hb : SystemBlock fs.sbi (fs.desc g) b) : fs.sbi.InGroup b g := by
  have hbpg := blocksPerGroup_pos_of_krFillSuper accepted
  obtain ⟨gdp, hgdp, hbb, hib, hit⟩ := hasRead g hg
  have hcheck := checkDescriptor_of_krFillSuper accepted hg
  rw [krCheckDescriptor, hgdp] at hcheck
  simp only [Bool.and_eq_true, decide_eq_true_eq, ← hbb, ← hib, ← hit] at hcheck
  obtain ⟨⟨⟨⟨h1, h2⟩, h3, h4⟩, h5⟩, h6⟩ := hcheck
  have hlast : (if g = fs.sbi.sGroupsCount - 1 then sub32 fs.sbi.sEs.sBlocksCount.toNat 1
      else fs.sbi.groupFirstBlockNo g + (fs.sbi.sBlocksPerGroup - 1)) <
      fs.sbi.groupFirstBlockNo g + fs.sbi.sBlocksPerGroup := by
    split
    · rename_i heq
      rw [heq, sEs_of_krFillSuper accepted]
      exact last_block_lt accepted
    · omega
  have hitb := (fs.desc g).bgInodeTable.toNat_lt
  rcases hb with rfl | rfl | ⟨hlow, hhigh⟩
  · exact ⟨hg, h1, by omega⟩
  · exact ⟨hg, h3, by omega⟩
  · have hsize : fs.sbi.sItbPerGroup < 2 ^ 32 := by
      rw [(krFillSuper_ok accepted).1]
      exact lt_of_le_of_lt (Nat.div_le_self _ _) es.sInodesPerGroup.toNat_lt
    rw [sub64_of_le (by omega) (by omega)] at h6
    exact ⟨hg, by omega, by omega⟩

/-- `kr_free_blocks` keeps the metadata of all groups marked in use exactly when
no part of the range that it frees encloses the inode table of its group. -/
theorem krFreeBlocks_keeps_system_iff {k : MountEnv} {es : SuperBlock} {fs : Fs}
    (accepted : krFillSuper k es = .ok fs.sbi) (hasRead : fs.DescsAsRead)
    (readBitmap : Nat → Bool) (ino block count : Nat) :
    KeepsSystemBits fs (krFreeBlocks readBitmap fs ino block count) ↔
      ¬ (fs.sbi.sEs.sFirstDataBlock.toNat ≤ block ∧
        block + count ≤ fs.sbi.sEs.sBlocksCount.toNat ∧
        ∃ g < fs.sbi.sGroupsCount, fs.EnclosesTable readBitmap block count g) := by
  have hbpg := blocksPerGroup_pos_of_krFillSuper accepted
  have hcovers := groups_cover accepted
  constructor
  · rintro hkeep ⟨hlow, hhigh, g, hg, ⟨hfreed, hstart, hend, n, hn, hset⟩⟩
    have hsys : SystemBlock fs.sbi (fs.desc g) ((fs.desc g).bgInodeTable.toNat + n) :=
      Or.inr (Or.inr ⟨by omega, by omega⟩)
    obtain ⟨-, hin1, hin2⟩ := systemBlock_inGroup accepted hasRead hg hsys
    have hafter := hkeep g hg _ hsys hset
    rw [krFreeBlocks_bits readBitmap ino block count g _ hbpg hcovers (by omega)] at hafter
    unfold SbInfo.partStart at hstart
    unfold SbInfo.partEnd at hend
    exact hafter.2 ⟨hlow, hhigh, hfreed, by omega, by omega⟩
  · intro hout g hg b hb hset
    obtain ⟨-, hin1, hin2⟩ := systemBlock_inGroup accepted hasRead hg hb
    rw [krFreeBlocks_bits readBitmap ino block count g _ hbpg hcovers (by omega)]
    refine ⟨hset, ?_⟩
    rintro ⟨hlow, hhigh, hfreed, h1, h2⟩
    rw [Nat.add_sub_cancel' hin1] at h1 h2
    have hpass := (hfreed.2 g hfreed.1 (le_refl _)).2
    simp only [inSystemZone, inRange, Bool.or_eq_false_iff, Bool.and_eq_false_iff,
      decide_eq_false_iff_not] at hpass
    obtain ⟨⟨⟨hbb, hib⟩, hts⟩, hte⟩ := hpass
    have hs : fs.sbi.partStart block g ≤ b := by
      unfold SbInfo.partStart
      omega
    have he : b < fs.sbi.partEnd (block + count) g := by
      unfold SbInfo.partEnd
      omega
    rcases hb with rfl | rfl | ⟨ht1, ht2⟩
    · omega
    · omega
    · refine hout ⟨hlow, hhigh, g, hg, hfreed, by omega, by omega, b -
        (fs.desc g).bgInodeTable.toNat, by omega, ?_⟩
      rwa [Nat.add_sub_cancel' ht1]

/-- A one-group file system of sixteen blocks with its inode table in the blocks
10 and 11, all metadata marked in use. -/
def tableEnv : MountEnv :=
  { smallEnv with bread := fun _ => some fun _ => { smallDesc with bgInodeTable := 10 } }

def tableImage : SuperBlock :=
  { smallImage 16 with sBlocksCount := 17, sBlocksPerGroup := 16, sFragsPerGroup := 16 }

theorem krFillSuper_tableImage :
    krFillSuper tableEnv tableImage = .ok (sbInfoOf tableEnv tableImage 1024) := rfl

def tableFs : Fs where
  sbi := sbInfoOf tableEnv tableImage 1024
  desc := fun _ => { smallDesc with bgInodeTable := 10 }
  blockBitmap := fun _ _ => true
  inodeBitmap := fun _ _ => false
  sFreeblocksCounter := 0
  sFreeinodesCounter := 0
  sDirsCounter := 0
  sDebts := fun _ => 0
  inode := fun _ => Inode.blank
  ptr := fun _ _ => 0
  rsv := ⟨.node .head .nil .nil, fun _ => ⟨0, 0, 0, 0⟩⟩

theorem tableFs_descsAsRead : tableFs.DescsAsRead := by
  intro g hg
  have hzero : g = 0 := Nat.lt_one_iff.mp hg
  subst hzero
  exact ⟨_, rfl, rfl, rfl, rfl⟩

/-- Freeing the blocks 12 to 14 leaves the metadata alone. -/
theorem krFreeBlocks_keeps_above_table :
    KeepsSystemBits tableFs (krFreeBlocks (fun _ => true) tableFs 12 12 3) := by
  rw [krFreeBlocks_keeps_system_iff krFillSuper_tableImage tableFs_descsAsRead]
  rintro ⟨-, -, g, hg, -, hlow, -⟩
  have hzero : g = 0 := Nat.lt_one_iff.mp hg
  subst hzero
  exact absurd hlow (by decide)

/-- Freeing the blocks 9 to 12, which `kr_free_data` hands over as one run, clears
the bits of the inode table. -/
theorem krFreeBlocks_frees_table :
    ¬ ∀ (k : MountEnv) (es : SuperBlock) (fs : Fs), krFillSuper k es = .ok fs.sbi →
      fs.DescsAsRead → ∀ (readBitmap : Nat → Bool) (ino block count : Nat),
        KeepsSystemBits fs (krFreeBlocks readBitmap fs ino block count) := by
  intro h
  have hkeep := h tableEnv tableImage tableFs krFillSuper_tableImage tableFs_descsAsRead
    (fun _ => true) 12 9 4 0 (by decide) 10 (Or.inr (Or.inr (by decide))) rfl
  exact absurd hkeep (by decide)

end KrFs
