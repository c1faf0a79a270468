import KrFs.SystemZone
import KrFs.BlockBits
import KrFs.NewBlocksFail
import KrFs.MaximalRun

/-!
# Freeing a run

Outside the metadata `kr_free_blocks` treats every block of its range alike, and
the blocks do not interfere: a range is freed as its blocks would be one after
another, in any order. What `kr_new_blocks` hands out it takes back without a
trace, unless the call has marked another run in the metadata before.
-/

namespace KrFs

open SearchTree Bitmap

/-! ## One bit -/

theorem cpuToLe16_add (x m : Int) : cpuToLe16 ((cpuToLe16 x).toNat + m) = cpuToLe16 (x + m) := by
  have htoNat : ∀ n : Int, ((cpuToLe16 n).toNat : Int) = n % 2 ^ 16 := by
    intro n
    have hlt : (n % 2 ^ 16).toNat < 2 ^ 16 := by omega
    rw [cpuToLe16, UInt16.toNat_ofNat_of_lt' hlt]
    omega
  unfold cpuToLe16 at htoNat ⊢
  rw [htoNat, Int.emod_add_emod]

theorem groupAdjustBlocks_add (desc : GroupDesc) (m n : Int) :
    groupAdjustBlocks (groupAdjustBlocks desc m) n = groupAdjustBlocks desc (m + n) := by
  have hself : cpuToLe16 desc.bgFreeBlocksCount.toNat = desc.bgFreeBlocksCount := by
    have hlt := desc.bgFreeBlocksCount.toNat_lt
    unfold cpuToLe16
    rw [Int.emod_eq_of_lt (by omega) (by omega), Int.toNat_natCast, UInt16.ofNat_toNat]
  by_cases hm : m = 0
  · subst hm
    rw [Int.zero_add]
    rfl
  by_cases hn : n = 0
  · subst hn
    rw [Int.add_zero]
    rfl
  have hone : ∀ d : GroupDesc, ∀ k : Int, k ≠ 0 → groupAdjustBlocks d k =
      { d with bgFreeBlocksCount := cpuToLe16 (d.bgFreeBlocksCount.toNat + k) } :=
    fun d k hk => if_neg hk
  rw [hone _ n hn, hone _ m hm]
  by_cases hsum : m + n = 0
  · rw [hsum, groupAdjustBlocks, if_pos rfl]
    dsimp only
    rw [cpuToLe16_add, Int.add_assoc, hsum, Int.add_zero, hself]
  · rw [hone _ _ hsum]
    dsimp only
    rw [cpuToLe16_add, Int.add_assoc]

/-- Two values of a function are changed in either order. -/
theorem update_apply_comm {α β : Type} [DecidableEq α] {f : α → β} {a b : α} {m n : β → β}
    (h : a = b → ∀ x, n (m x) = m (n x)) :
    Function.update (Function.update f a (m (f a))) b (n (Function.update f a (m (f a)) b)) =
      Function.update (Function.update f b (n (f b))) a (m (Function.update f b (n (f b)) a)) := by
  by_cases hab : a = b
  · subst hab
    simp only [Function.update_self, Function.update_idem, h rfl]
  · rw [Function.update_of_ne (Ne.symm hab), Function.update_of_ne hab, Function.update_comm hab]

/-- A block whose bit is set is freed with its accounts. -/
def Fs.freeBit (ino : Nat) (fs : Fs) (block : Nat) : Fs :=
  let group := fs.sbi.groupOf block
  let bit := fs.sbi.bitOf block
  if fs.blockBitmap group bit then
    { fs with
      blockBitmap := Function.update fs.blockBitmap group
        (Function.update (fs.blockBitmap group) bit false)
      desc := Function.update fs.desc group (groupAdjustBlocks (fs.desc group) 1)
      sFreeblocksCounter := fs.sFreeblocksCounter + 1 }.chargeBlocks ino (-1)
  else fs

section Bit

variable {fs : Fs} {ino : Nat}

theorem freeBit_of_clear {block : Nat}
    (h : fs.blockBitmap (fs.sbi.groupOf block) (fs.sbi.bitOf block) = false) :
    fs.freeBit ino block = fs := by
  simp [Fs.freeBit, h]

@[simp] theorem freeBit_sbi (block : Nat) : (fs.freeBit ino block).sbi = fs.sbi := by
  unfold Fs.freeBit
  dsimp only
  split <;> rfl

/-- The bit of another block is as it was. -/
theorem freeBit_blockBitmap (block g i : Nat)
    (h : g ≠ fs.sbi.groupOf block ∨ i ≠ fs.sbi.bitOf block) :
    (fs.freeBit ino block).blockBitmap g i = fs.blockBitmap g i := by
  unfold Fs.freeBit
  dsimp only
  split
  · simp only [Fs.chargeBlocks]
    by_cases hg : g = fs.sbi.groupOf block
    · subst hg
      rw [Function.update_self, Function.update_of_ne (h.resolve_left (not_not_intro rfl))]
    · rw [Function.update_of_ne hg]
  · rfl

/-- Two blocks may be freed in either order. -/
theorem freeBit_comm (a b : Nat) :
    (fs.freeBit ino a).freeBit ino b = (fs.freeBit ino b).freeBit ino a := by
  by_cases hsame : fs.sbi.groupOf a = fs.sbi.groupOf b ∧ fs.sbi.bitOf a = fs.sbi.bitOf b
  · have heq : ∀ s : Fs, s.sbi = fs.sbi → s.freeBit ino a = s.freeBit ino b := by
      intro s hs
      simp only [Fs.freeBit, hs, hsame]
    rw [heq fs rfl, heq _ (freeBit_sbi b)]
  have hab : fs.sbi.groupOf b ≠ fs.sbi.groupOf a ∨ fs.sbi.bitOf b ≠ fs.sbi.bitOf a := by omega
  have hba : fs.sbi.groupOf a ≠ fs.sbi.groupOf b ∨ fs.sbi.bitOf a ≠ fs.sbi.bitOf b := by omega
  have hbit := @freeBit_blockBitmap fs ino a _ _ hab
  have hbit' := @freeBit_blockBitmap fs ino b _ _ hba
  by_cases ha : fs.blockBitmap (fs.sbi.groupOf a) (fs.sbi.bitOf a) = true
  swap
  · have hclear : fs.freeBit ino a = fs := freeBit_of_clear (by simpa using ha)
    have hclear' : (fs.freeBit ino b).freeBit ino a = fs.freeBit ino b :=
      freeBit_of_clear (by rw [freeBit_sbi, hbit']; simpa using ha)
    rw [hclear, hclear']
  by_cases hb : fs.blockBitmap (fs.sbi.groupOf b) (fs.sbi.bitOf b) = true
  swap
  · have hclear : fs.freeBit ino b = fs := freeBit_of_clear (by simpa using hb)
    have hclear' : (fs.freeBit ino a).freeBit ino b = fs.freeBit ino a :=
      freeBit_of_clear (by rw [freeBit_sbi, hbit]; simpa using hb)
    rw [hclear, hclear']
  -- both bits are set: the two groups, or the two bits of one group, differ
  have hfree : ∀ s : Fs, ∀ c, s.sbi = fs.sbi →
      s.blockBitmap (fs.sbi.groupOf c) (fs.sbi.bitOf c) = true → s.freeBit ino c =
        ({ s with
          blockBitmap := Function.update s.blockBitmap (fs.sbi.groupOf c)
            (Function.update (s.blockBitmap (fs.sbi.groupOf c)) (fs.sbi.bitOf c) false)
          desc := Function.update s.desc (fs.sbi.groupOf c)
            (groupAdjustBlocks (s.desc (fs.sbi.groupOf c)) 1)
          sFreeblocksCounter := s.sFreeblocksCounter + 1 } : Fs).chargeBlocks ino (-1) := by
    intro s c hs hc
    simp only [Fs.freeBit, hs, hc, if_true]
  rw [hfree _ b (freeBit_sbi a) (hbit.trans hb), hfree _ a (freeBit_sbi b) (hbit'.trans ha),
    hfree fs a rfl ha, hfree fs b rfl hb]
  simp only [Fs.chargeBlocks, Fs.mk.injEq, true_and, and_true]
  refine ⟨update_apply_comm (f := fs.desc) (m := fun desc => groupAdjustBlocks desc 1)
    (n := fun desc => groupAdjustBlocks desc 1) fun _ _ => rfl, ?_, rfl⟩
  refine update_apply_comm (f := fs.blockBitmap)
    (m := fun bm : Nat → Bool => Function.update bm (fs.sbi.bitOf a) false)
    (n := fun bm : Nat → Bool => Function.update bm (fs.sbi.bitOf b) false) fun hg bm => ?_
  exact Function.update_comm (fun hi => hsame ⟨hg, hi⟩) _ _ _

end Bit

/-! ## A range -/

section Range

variable {readBitmap : Nat → Bool} {fs : Fs} {ino : Nat}

/-- A block of the image outside the metadata of its group, whose bitmap can be
read. -/
structure Fs.Freeable (fs : Fs) (readBitmap : Nat → Bool) (block : Nat) : Prop where
  first_le : fs.sbi.sEs.sFirstDataBlock.toNat ≤ block
  group_lt : fs.sbi.groupOf block < fs.sbi.sGroupsCount
  read : readBitmap (fs.sbi.groupOf block) = true
  no_system : ¬ SystemBlock fs.sbi (fs.desc (fs.sbi.groupOf block)) block

theorem groupOf_add (sbi : SbInfo) (group : Nat) {bit : Nat} (h : bit < sbi.sBlocksPerGroup) :
    sbi.groupOf (sbi.groupFirstBlockNo group + bit) = group ∧
      sbi.bitOf (sbi.groupFirstBlockNo group + bit) = bit := by
  have haddr : sbi.groupFirstBlockNo group + bit - sbi.sEs.sFirstDataBlock.toNat =
      group * sbi.sBlocksPerGroup + bit := by
    unfold SbInfo.groupFirstBlockNo
    omega
  constructor
  · rw [SbInfo.groupOf, haddr, Nat.mul_comm, Nat.mul_add_div (by omega), Nat.div_eq_of_lt h,
      Nat.add_zero]
  · rw [SbInfo.bitOf, haddr, Nat.mul_add_mod_of_lt h]

theorem clearBits_succ (bm : Nat → Bool) (bit n : Nat) : clearBits bm bit (n + 1) =
    if (clearBits bm bit n).1 (bit + n) then
      (Function.update (clearBits bm bit n).1 (bit + n) false, (clearBits bm bit n).2 + 1)
    else clearBits bm bit n := rfl

/-- The bits of one group, cleared together and counted once. -/
theorem freeInGroup_settle (group bit freed n : Nat)
    (hinside : bit + n ≤ fs.sbi.sBlocksPerGroup) :
    (freeInGroup fs group bit n).1.settleFreed ino (freed + (freeInGroup fs group bit n).2) =
      (List.range' (fs.sbi.groupFirstBlockNo group + bit) n).foldl (Fs.freeBit ino)
        (fs.settleFreed ino freed) := by
  induction n with
  | zero =>
    simp [freeInGroup, clearBits, groupAdjustBlocks]
  | succ n ih =>
    obtain ⟨hgroup, hbit⟩ := groupOf_add fs.sbi group (show bit + n < fs.sbi.sBlocksPerGroup by omega)
    rw [List.range'_1_concat, List.foldl_concat, ← ih (by omega), Nat.add_assoc _ bit n]
    obtain ⟨bm, k, hclear⟩ : ∃ bm k, clearBits (fs.blockBitmap group) bit n = (bm, k) := ⟨_, _, rfl⟩
    simp only [freeInGroup, clearBits_succ, hclear, Fs.freeBit, Fs.settleFreed, Fs.chargeBlocks,
      hgroup, hbit, Function.update_self]
    by_cases hset : bm (bit + n) = true
    · simp only [hset, if_true, Function.update_idem, Fs.mk.injEq, true_and, and_true]
      refine ⟨?_, ?_, ?_⟩
      · rw [groupAdjustBlocks_add]
        rfl
      · push_cast
        omega
      · simp only [Fs.sectorsPerBlock, Inode.addSectors_addSectors, ← Int.add_mul]
        congr 3
        push_cast
        omega
    · simp only [hset, if_false, Bool.false_eq_true]

/-- Where the metadata lies does not change. -/
theorem Fs.Freeable.frame {fs' : Fs} {block : Nat} (h : fs.Freeable readBitmap block)
    (hframe : fs.BlockFrame fs') : fs'.Freeable readBitmap block := by
  obtain ⟨hlow, hlt, hread, hno⟩ := h
  rw [← hframe.sbi] at hlow hlt hread hno
  refine ⟨hlow, hlt, hread, ?_⟩
  obtain ⟨n, hn⟩ := hframe.desc (fs'.sbi.groupOf block)
  rw [hn]
  exact hno

theorem groupDesc_of_lt {group : Nat} (h : group < fs.sbi.sGroupsCount) :
    fs.groupDesc group = some (fs.desc group) := by
  simp [Fs.groupDesc, h]

theorem freeInGroup_zero (group bit : Nat) : freeInGroup fs group bit 0 = (fs, 0) := by
  simp [freeInGroup, clearBits, groupAdjustBlocks]

theorem freeBlocksLoop_empty (hbpg : 0 < fs.sbi.sBlocksPerGroup) (fuel block freed : Nat) :
    freeBlocksLoop readBitmap (fuel + 1) fs block 0 freed = (fs, freed) := by
  obtain ⟨part, beyond, hsum, -, -, hloop⟩ :=
    @freeBlocksLoop_round readBitmap fs block 0 freed fuel hbpg
  obtain ⟨rfl, rfl⟩ : part = 0 ∧ beyond = 0 := by omega
  rw [hloop]
  split
  · rfl
  split
  · rfl
  split
  · rfl
  · rw [freeInGroup_zero]
    rfl

/-- The rounds of `do_more` free the blocks of the range one by one. -/
theorem freeBlocksLoop_settle (fuel : Nat) : ∀ {fs : Fs} {block count freed : Nat},
    0 < fs.sbi.sBlocksPerGroup →
    (∀ b, block ≤ b → b < block + count → fs.Freeable readBitmap b) → count < fuel →
    (freeBlocksLoop readBitmap fuel fs block count freed).1.settleFreed ino
        (freeBlocksLoop readBitmap fuel fs block count freed).2 =
      (List.range' block count).foldl (Fs.freeBit ino) (fs.settleFreed ino freed) := by
  induction fuel with
  | zero => omega
  | succ fuel ih =>
    intro fs block count freed hbpg hfree hfuel
    rcases Nat.eq_zero_or_pos count with rfl | hpos
    · rw [freeBlocksLoop_empty hbpg]
      rfl
    obtain ⟨part, beyond, rfl, hfit, hfull, hloop⟩ :=
      @freeBlocksLoop_round readBitmap fs block count freed fuel hbpg
    have hbit : fs.sbi.bitOf block < fs.sbi.sBlocksPerGroup := Nat.mod_lt _ hbpg
    obtain ⟨hlow, hlt, hread, -⟩ := hfree block (le_refl _) (by omega)
    have haddr := groupOf_addr hlow
    have hpart : 0 < part := by omega
    -- the part lies in one group, so its blocks are outside the metadata of that group
    have hzone : inSystemZone fs.sbi (fs.desc (fs.sbi.groupOf block)) block part = false := by
      refine inSystemZone_eq_false hpart fun b h1 h2 => ?_
      have hgroup : fs.sbi.groupOf b = fs.sbi.groupOf block := by
        have hi : b - fs.sbi.groupFirstBlockNo (fs.sbi.groupOf block) < fs.sbi.sBlocksPerGroup := by
          omega
        have hgroup := (groupOf_add fs.sbi (fs.sbi.groupOf block) hi).1
        rwa [Nat.add_sub_cancel' (by omega)] at hgroup
      rw [← hgroup]
      exact (hfree b h1 (by omega)).no_system
    have hsettle := @freeInGroup_settle fs ino (fs.sbi.groupOf block) (fs.sbi.bitOf block) freed part
      hfit
    rw [haddr] at hsettle
    simp only [hloop, hread, groupDesc_of_lt hlt, hzone, Bool.not_true, Bool.false_eq_true, if_false]
    rw [List.range'_append_1.symm, List.foldl_append, ← hsettle]
    by_cases hz : beyond = 0
    · subst hz
      simp
    · rw [if_pos hz]
      refine ih hbpg (fun b h1 h2 => ?_) (by omega)
      exact (hfree b (by omega) (by omega)).frame (freeInGroup_frame _ _ _ _)

/-- A range outside the metadata is freed as its blocks are one after another. -/
theorem krFreeBlocks_foldl (hbpg : 0 < fs.sbi.sBlocksPerGroup) {block count : Nat}
    (hlow : fs.sbi.sEs.sFirstDataBlock.toNat ≤ block)
    (hhigh : block + count ≤ fs.sbi.sEs.sBlocksCount.toNat)
    (hfree : ∀ b, block ≤ b → b < block + count → fs.Freeable readBitmap b) :
    krFreeBlocks readBitmap fs ino block count =
      (List.range' block count).foldl (Fs.freeBit ino) fs := by
  have hlt := fs.sbi.sEs.sBlocksCount.toNat_lt
  have hcheck : ¬ (block < fs.sbi.sEs.sFirstDataBlock.toNat || (block + count) % 2 ^ 64 < block ||
      fs.sbi.sEs.sBlocksCount.toNat < block + count) = true := by
    simp only [Bool.or_eq_true, decide_eq_true_eq, not_or, not_lt]
    omega
  have hsettle := @freeBlocksLoop_settle readBitmap ino (count + 1) fs block count 0 hbpg hfree
    (Nat.lt_succ_self _)
  rw [Fs.settleFreed_zero] at hsettle
  unfold krFreeBlocks
  rw [if_neg hcheck, ← hsettle]
  dsimp only
  split
  · rfl
  · rename_i hzero
    rw [not_not.mp hzero, Fs.settleFreed_zero]

theorem freeBit_frame (fs : Fs) (ino block : Nat) : fs.BlockFrame (fs.freeBit ino block) := by
  unfold Fs.freeBit
  dsimp only
  split
  · refine ⟨rfl, rfl, rfl, rfl, rfl, rfl, fun i => ?_, fun g => ?_⟩
    · by_cases hi : i = ino
      · subst hi
        exact ⟨_, Function.update_self _ _ _⟩
      · exact ⟨(fs.inode i).iBlocks, Function.update_of_ne hi _ _⟩
    · by_cases hg : g = fs.sbi.groupOf block
      · subst hg
        exact ⟨_, Function.update_self _ _ _⟩
      · exact ⟨(fs.desc g).bgFreeBlocksCount, Function.update_of_ne hg _ _⟩
  · exact Fs.BlockFrame.refl fs

/-- Single blocks outside the metadata, freed by a call each. -/
theorem krFreeBlocks_each (blocks : List Nat) :
    ∀ {fs : Fs}, 0 < fs.sbi.sBlocksPerGroup →
    (∀ b ∈ blocks, b < fs.sbi.sEs.sBlocksCount.toNat ∧ fs.Freeable readBitmap b) →
    blocks.foldl (fun fs b => krFreeBlocks readBitmap fs ino b 1) fs =
      blocks.foldl (Fs.freeBit ino) fs := by
  induction blocks with
  | nil => exact fun _ _ => rfl
  | cons b blocks ih =>
    intro fs hbpg hfree
    obtain ⟨hlt, hb⟩ := hfree b (by simp)
    have hone : krFreeBlocks readBitmap fs ino b 1 = fs.freeBit ino b := by
      refine krFreeBlocks_foldl hbpg hb.first_le hlt fun b' h1 h2 => ?_
      obtain rfl : b' = b := by omega
      exact hb
    have hframe := freeBit_frame fs ino b
    rw [List.foldl_cons, List.foldl_cons, hone]
    refine ih (by rwa [hframe.sbi]) fun b' hb' => ?_
    obtain ⟨hlt', hfree'⟩ := hfree b' (by simp [hb'])
    exact ⟨by rwa [hframe.sbi], hfree'.frame hframe⟩

/-- Any order of the blocks of a range outside the metadata. -/
theorem krFreeBlocks_perm (hbpg : 0 < fs.sbi.sBlocksPerGroup) {block count : Nat}
    (hlow : fs.sbi.sEs.sFirstDataBlock.toNat ≤ block)
    (hhigh : block + count ≤ fs.sbi.sEs.sBlocksCount.toNat)
    (hfree : ∀ b, block ≤ b → b < block + count → fs.Freeable readBitmap b) {blocks : List Nat}
    (hperm : blocks.Perm (List.range' block count)) :
    krFreeBlocks readBitmap fs ino block count =
      blocks.foldl (fun fs b => krFreeBlocks readBitmap fs ino b 1) fs := by
  have hmem : ∀ b ∈ blocks, b < fs.sbi.sEs.sBlocksCount.toNat ∧ fs.Freeable readBitmap b := by
    intro b hb
    obtain ⟨h1, h2⟩ := List.mem_range'_1.mp (hperm.mem_iff.mp hb)
    exact ⟨by omega, hfree b h1 h2⟩
  calc krFreeBlocks readBitmap fs ino block count
      = (List.range' block count).foldl (Fs.freeBit ino) fs :=
        krFreeBlocks_foldl hbpg hlow hhigh hfree
    _ = blocks.foldl (Fs.freeBit ino) fs :=
        (hperm.foldl_eq' (fun a _ b _ s => freeBit_comm a b) fs).symm
    _ = blocks.foldl (fun fs b => krFreeBlocks readBitmap fs ino b 1) fs :=
        (krFreeBlocks_each blocks hbpg hmem).symm

end Range

/-! ## The run that was handed out -/

section Taken

variable {ops : Rebalance Window} {env : AllocEnv} {ino fuel goal goalGroup : Nat} {fs fs' : Fs}
  {readBitmap : Nat → Bool}

/-- A run of clear bits that was taken goes back whole. -/
theorem krFreeBlocks_takeRun (rsv : Rsv) {group first num : Nat}
    (hgroup : group < fs.sbi.sGroupsCount) (hpos : 1 ≤ num)
    (hinside : first + num ≤ fs.sbi.sBlocksPerGroup)
    (hclear : ∀ i, first ≤ i → i < first + num → fs.blockBitmap group i = false)
    (hread : readBitmap group = true)
    (hzone : inSystemZone fs.sbi (fs.desc group) (fs.sbi.groupFirstBlockNo group + first) num = false)
    (hend : fs.sbi.groupFirstBlockNo group + first + num ≤ fs.sbi.sEs.sBlocksCount.toNat) :
    krFreeBlocks readBitmap (fs.takeRun rsv ino group first num) ino
      (fs.sbi.groupFirstBlockNo group + first) num = { fs with rsv := rsv } := by
  have hlt := fs.sbi.sEs.sBlocksCount.toNat_lt
  have hlow : fs.sbi.sEs.sFirstDataBlock.toNat ≤ fs.sbi.groupFirstBlockNo group :=
    Nat.le_add_left _ _
  have hbpg : 0 < fs.sbi.sBlocksPerGroup := by omega
  obtain ⟨hgroupOf, hbitOf⟩ := groupOf_add fs.sbi group (show first < fs.sbi.sBlocksPerGroup by omega)
  set block := fs.sbi.groupFirstBlockNo group + first with hblock
  obtain ⟨taken, htaken⟩ : ∃ taken, taken = fs.takeRun rsv ino group first num := ⟨_, rfl⟩
  have hsbi : taken.sbi = fs.sbi := by rw [htaken]; rfl
  have hcheck : ¬ (block < taken.sbi.sEs.sFirstDataBlock.toNat || (block + num) % 2 ^ 64 < block ||
      taken.sbi.sEs.sBlocksCount.toNat < block + num) = true := by
    rw [hsbi]
    simp only [Bool.or_eq_true, decide_eq_true_eq, not_or, not_lt]
    omega
  obtain ⟨part, beyond, hsum, hfit, hfull, hloop⟩ :=
    @freeBlocksLoop_round readBitmap taken block num 0 num (hsbi ▸ hbpg)
  rw [hsbi, hbitOf] at hfit hfull
  obtain ⟨rfl, rfl⟩ : beyond = 0 ∧ part = num := by omega
  have hdesc : taken.groupDesc group = some (groupAdjustBlocks (fs.desc group) (-part)) := by
    rw [groupDesc_of_lt (hsbi ▸ hgroup), htaken]
    simp [Fs.takeRun]
  have hzone' : inSystemZone fs.sbi (groupAdjustBlocks (fs.desc group) (-part)) block part =
      false := by
    rw [← hzone]
    unfold groupAdjustBlocks
    split <;> rfl
  -- all bits of the run are set, and clearing them gives the bitmap from before
  have hbits : clearBits (setBits (fs.blockBitmap group) first part) first part =
      (fs.blockBitmap group, part) := by
    rw [clearBits_of_set part fun i h1 h2 => by simp [setBits, h1, h2]]
    refine Prod.ext (funext fun i => ?_) rfl
    dsimp only
    split
    · rename_i hin
      exact (hclear i hin.1 hin.2).symm
    · rename_i hout
      rw [setBits, ← Bool.decide_and, decide_eq_false hout, Bool.or_false]
  have hback : (freeInGroup taken group first part) = ({ taken with
      blockBitmap := fs.blockBitmap
      desc := fs.desc }, part) := by
    rw [htaken]
    simp only [freeInGroup, Fs.takeRun, Function.update_self, hbits, Function.update_idem,
      Function.update_eq_self, groupAdjustBlocks_add, Int.add_left_neg]
    simp [groupAdjustBlocks]
  unfold krFreeBlocks
  rw [← htaken, if_neg hcheck, hloop, hsbi, hgroupOf, hbitOf, hdesc]
  simp only [hread, hzone', hback, Bool.not_true, Bool.false_eq_true, if_false, ne_eq,
    not_true_eq_false, Nat.zero_add]
  rw [if_pos (by omega), htaken]
  have hcharge : (fs.chargeBlocks ino part).chargeBlocks ino (-part) = fs := by
    rw [Fs.chargeBlocks_add, Int.add_right_neg, Fs.chargeBlocks_zero]
  have hinode : ((fs.chargeBlocks ino part).chargeBlocks ino (-part)).inode = fs.inode := by
    rw [hcharge]
  simp only [Fs.settleFreed, Fs.takeRun, Fs.chargeBlocks, Fs.mk.injEq, true_and, and_true]
  exact ⟨by omega, hinode⟩

/-- A loop at `retry_alloc` that succeeds hands out the first run that was marked,
or has left one in the metadata and hands out another. -/
theorem retryAlloc_ok {group block n : Nat} (rounds : Nat) :
    ∀ {fs : Fs} {groupNo : Nat} {useRsv : Bool} {windowsz num : Nat},
    0 < fs.sbi.sBlocksPerGroup →
    retryAlloc ops env ino fuel goal goalGroup rounds fs groupNo useRsv windowsz num =
      .done (fs', .ok (group, block, n)) →
    (∃ first, block = first + fs.sbi.groupFirstBlockNo group ∧ Claimed fs fs' group first n num ∧
      ¬ (MarkedRun.mk group first n).Strays fs.sbi fs.desc ∧ ∀ fs₁ run,
        MarksFirst ops env ino fuel goal goalGroup fs groupNo useRsv windowsz num fs₁ run →
          ¬ run.Strays fs.sbi fs.desc) ∨
    ∃ fs₁ g f m,
      MarksFirst ops env ino fuel goal goalGroup fs groupNo useRsv windowsz num fs₁ ⟨g, f, m⟩ ∧
      (MarkedRun.mk g f m).Strays fs.sbi fs.desc ∧ fs.blockBitmap g f = false ∧ fs'.blockBitmap g f = true ∧
      f < fs.sbi.sBlocksPerGroup ∧ fs.sbi.groupFirstBlockNo g + f ∉ blockRun block n := by
  induction rounds with
  | zero =>
    intro fs groupNo useRsv windowsz num _ hrun
    cases hrun
  | succ rounds ih =>
    intro fs groupNo useRsv windowsz num hbpg hrun
    unfold retryAlloc at hrun
    obtain ⟨⟨fs₁, found⟩, hsearch, hend⟩ := Exec.bind_eq_done.mp hrun
    have hok := searchFrom_spec ops env ino fuel hbpg hsearch
    have hsbi : fs₁.sbi = fs.sbi := hok.sbi
    have hbpg₁ : 0 < fs₁.sbi.sBlocksPerGroup := by
      rw [hsbi]
      exact hbpg
    dsimp only at hend
    cases found with
    | ioError => cases hend
    | missed num₁ =>
      dsimp only at hend
      split at hend
      · -- the search is made again without the window
        rename_i hrsv
        have hsame : SameButRsv fs fs₁ := hok.1
        have hbits : fs₁.blockBitmap = fs.blockBitmap := by rw [hsame]
        rcases ih hbpg₁ hend with ⟨first, hblock, hclaim, hstray, hall⟩ | ⟨fs₂, g, f, m, hfirst,
          hstray, hclear, hset, hlt, hout⟩
        · refine .inl ⟨first, hsbi ▸ hblock, (hsame.claimed hclaim).mono hok.2, ?_, ?_⟩
          · rwa [hsame] at hstray
          · intro fs₂ run hmarks
            have hrun := hall fs₂ run (hmarks.of_missed hsearch).2
            rwa [hsame] at hrun
        · refine .inr ⟨fs₂, g, f, m, .again hsearch hrsv hfirst, ?_, hbits ▸ hclear, hset, hsbi ▸ hlt,
            hsbi ▸ hout⟩
          rwa [hsame] at hstray
      · cases hend
    | found g f m =>
      have hclaim : Claimed fs fs₁ g f m num := hok
      have hdesc : fs₁.desc = fs.desc := by rw [hclaim.state]
      dsimp only at hend
      rw [hsbi, hdesc] at hend
      split at hend
      · -- a run in the system zone stays marked, and the next search does not come to its blocks
        rename_i hzone
        obtain ⟨hclear, hset⟩ := hclaim.takes
        have hinside := hclaim.run.inside
        have hpos := hclaim.run.pos
        refine .inr ⟨fs₁, g, f, m, .found hsearch, .inl hzone, hclear,
          retryAlloc_grows rounds hbpg₁ hend hset, by omega, fun hmem => ?_⟩
        obtain ⟨-, hblocks⟩ := retryAlloc_bits rounds hbpg₁ hend
        have hfree := ((hblocks group block n rfl).2.2 _ hmem).1
        refine hfree.not_inUse ⟨g, f, ?_, ?_, hset⟩
        · rw [hsbi]
          omega
        · rw [hsbi]
      split at hend
      · cases hend
      rename_i hzone hpast
      simp only [Exec.done.injEq, Prod.mk.injEq, Except.ok.injEq] at hend
      obtain ⟨rfl, rfl, rfl, rfl⟩ := hend
      have hstray : ¬ (MarkedRun.mk g f m).Strays fs.sbi fs.desc := by
        rintro (hin | hout)
        · exact hzone hin
        · exact hpast hout
      refine .inl ⟨f, rfl, hclaim, hstray, fun fs₂ run hmarks => ?_⟩
      cases hmarks with
      | found hfound =>
        rw [hsearch] at hfound
        cases hfound
        exact hstray
      | again hagain =>
        rw [hsearch] at hagain
        cases hagain

/-- Bitmaps, counts and `i_blocks` are the same. -/
structure Fs.SameAccounts (fs fs' : Fs) : Prop where
  bitmap : fs'.blockBitmap = fs.blockBitmap
  groupCount : ∀ g, (fs'.desc g).bgFreeBlocksCount = (fs.desc g).bgFreeBlocksCount
  counter : fs'.sFreeblocksCounter = fs.sFreeblocksCounter
  iBlocks : ∀ i, (fs'.inode i).iBlocks = (fs.inode i).iBlocks

theorem SameButRsv.sameAccounts (h : SameButRsv fs fs') : fs.SameAccounts fs' := by
  rw [h]
  exact ⟨rfl, fun _ => rfl, rfl, fun _ => rfl⟩

/-- Freeing what `kr_new_blocks` handed out restores the accounts, unless the call
has marked another run in the metadata. -/
theorem krFreeBlocks_restores_iff (hbpg : 0 < fs.sbi.sBlocksPerGroup) (hwf : fs.rsv.Wf)
    (hcovers : fs.sbi.sEs.sBlocksCount.toNat ≤ fs.sbi.sEs.sFirstDataBlock.toNat +
      fs.sbi.sGroupsCount * fs.sbi.sBlocksPerGroup) (hread : ∀ g, readBitmap g = true)
    {count block n : Nat} (hcount : 1 ≤ count)
    (hrun : krNewBlocks ops env ino fuel fs goal count = .done (fs', .ok (block, n))) :
    fs.SameAccounts (krFreeBlocks readBitmap fs' ino block n) ↔
      ¬ NewBlocksStrays env ino fs goal count := by
  obtain ⟨hquota, hhas, fs₁, group, hretry, hdone⟩ := krNewBlocks_retry ops env ino hrun
  have hbpg' : 0 < (fs.chargeBlocks ino count).sbi.sBlocksPerGroup := hbpg
  have hwf' : (fs.chargeBlocks ino count).rsv.Wf := hwf
  rcases retryAlloc_ok fuel hbpg' hretry with ⟨first, hblock, hclaim, hstray, hall⟩ | ⟨fs₂, g, f, m, hfirst, hstray, hclear, hset,
      hlt, hout⟩
  · have htaken := hclaim.newBlocksDone_eq ino hcount
    have hnot : inSystemZone fs.sbi (fs.desc group) (fs.sbi.groupFirstBlockNo group + first) n =
        false ∧ fs.sbi.groupFirstBlockNo group + first + n ≤ fs.sbi.sEs.sBlocksCount.toNat := by
      have hpos := hclaim.run.pos
      simp only [MarkedRun.Strays, MarkedRun.InZone, MarkedRun.block, not_or, Bool.not_eq_true,
        not_le] at hstray
      rw [Nat.add_comm first] at hstray
      refine ⟨hstray.1, ?_⟩
      have hend : fs.sbi.groupFirstBlockNo group + first + n - 1 < fs.sbi.sEs.sBlocksCount.toNat :=
        hstray.2
      omega
    have hback : krFreeBlocks readBitmap (fs.takeRun fs₁.rsv ino group first n) ino
        (fs.sbi.groupFirstBlockNo group + first) n = { fs with rsv := fs₁.rsv } :=
      krFreeBlocks_takeRun fs₁.rsv hclaim.group_lt hclaim.run.pos hclaim.run.inside
        hclaim.run.clear (hread group) hnot.1 hnot.2
    have haddr : block = fs.sbi.groupFirstBlockNo group + first := by
      rw [Nat.add_comm, hblock]
      rfl
    refine iff_of_true ?_ ?_
    · rw [hdone, htaken, haddr, hback]
      exact SameButRsv.sameAccounts rfl
    · rintro ⟨-, run, v', hfirst, hstray'⟩
      rw [← fs.allocView_chargeBlocks ino count] at hfirst
      obtain ⟨fs₂, -, hmarks⟩ := hfirst.marksFirst hbpg' hwf' hretry
      exact hall fs₂ run hmarks hstray'
  · have hrun' := hfirst.firstRun hbpg' hwf'
    rw [fs.allocView_chargeBlocks ino count] at hrun'
    refine iff_of_false ?_ (not_not_intro ⟨⟨hquota, hhas⟩, ⟨g, f, m⟩, _, hrun', hstray⟩)
    intro hsame
    have hstate := newBlocksDone_eq fs₁ ino group n count
    have hgrow := (krNewBlocks_bits hbpg hcount hrun).1
    have hset' : fs'.blockBitmap g f = true := by
      rw [hdone, hstate]
      exact hset
    have hkept : (krFreeBlocks readBitmap fs' ino block n).blockBitmap g f = true := by
      rw [krFreeBlocks_bits readBitmap ino block n g f (by rwa [hgrow.sbi]) (by rwa [hgrow.sbi])
        (by rwa [hgrow.sbi])]
      refine ⟨hset', ?_⟩
      rintro ⟨-, -, -, h1, h2⟩
      rw [hgrow.sbi] at h1 h2
      exact hout (mem_blockRun.mpr ⟨h1, h2⟩)
    rw [hsame.bitmap] at hkept
    rw [show fs.blockBitmap g f = false from hclear] at hkept
    cases hkept

/-- A call strays only where metadata or padding is not marked in use. -/
theorem Fs.SystemSet.not_strays (h : fs.SystemSet) (goal count : Nat) :
    ¬ NewBlocksStrays env ino fs goal count := by
  rintro ⟨-, run, v', hfirst, hstray⟩
  exact h.first_run_ok hfirst hstray

end Taken

/-- A range outside the metadata is freed like its single blocks, in any order;
and what `kr_new_blocks` hands out is taken back without a trace just when the call
has marked no other run. -/
theorem krFreeBlocks_run (fs : Fs) (readBitmap : Nat → Bool) (ino : Nat) {k : MountEnv}
    {es : SuperBlock} (accepted : krFillSuper k es = .ok fs.sbi)
    (hread : ∀ g, readBitmap g = true) :
    (∀ (block count : Nat) (blocks : List Nat), fs.sbi.sEs.sFirstDataBlock.toNat ≤ block →
      block + count ≤ fs.sbi.sEs.sBlocksCount.toNat →
      (∀ b, block ≤ b → b < block + count →
        ¬ SystemBlock fs.sbi (fs.desc (fs.sbi.groupOf b)) b) →
      blocks.Perm (List.range' block count) →
      krFreeBlocks readBitmap fs ino block count =
        blocks.foldl (fun fs b => krFreeBlocks readBitmap fs ino b 1) fs) ∧
    ∀ (ops : Rebalance Window) (env : AllocEnv) (fuel goal count : Nat) (fs' : Fs) (block n : Nat),
      fs.rsv.Wf → 1 ≤ count →
      krNewBlocks ops env ino fuel fs goal count = .done (fs', .ok (block, n)) →
      (fs.SameAccounts (krFreeBlocks readBitmap fs' ino block n) ↔
        ¬ NewBlocksStrays env ino fs goal count) := by
  have hbpg := blocksPerGroup_pos_of_krFillSuper accepted
  have hcovers := groups_cover accepted
  constructor
  · intro block count blocks hlow hhigh hno hperm
    refine krFreeBlocks_perm hbpg hlow hhigh (fun b h1 h2 => ⟨by omega, ?_, hread _, hno b h1 h2⟩)
      hperm
    refine Nat.div_lt_of_lt_mul ?_
    rw [Nat.mul_comm]
    omega
  · intro ops env fuel goal count fs' block n hwf hcount hrun
    exact krFreeBlocks_restores_iff hbpg hwf hcovers hread hcount hrun

/-- Two of the four blocks at the end of the image, and four blocks that a call
hands out. -/
theorem krFreeBlocks_run_tail :
    krFreeBlocks (fun _ => true) tailFs 12 13 2 =
      [14, 13].foldl (fun fs b => krFreeBlocks (fun _ => true) fs 12 b 1) tailFs ∧
    ∃ fs', krNewBlocks Rebalance.plain reserveEnv 12 40 tailFs 8 4 = .done (fs', .ok (8, 4)) ∧
      tailFs.SameAccounts (krFreeBlocks (fun _ => true) fs' 12 8 4) := by
  obtain ⟨hrange, hback⟩ := krFreeBlocks_run tailFs (fun _ => true) 12 krFillSuper_reserveImage
    fun _ => rfl
  obtain ⟨fs', hrun⟩ := krNewBlocks_of_gotBlocks (show gotBlocks (krNewBlocks Rebalance.plain
    reserveEnv 12 40 tailFs 8 4) = some (8, 4) by decide +kernel)
  refine ⟨hrange 13 2 [14, 13] (by decide) (by decide) (fun b h1 h2 hs => ?_) (by decide), fs', hrun,
    (hback _ _ _ _ _ _ _ _ tailFs_counted.windows (by decide) hrun).mpr
      (tailFs_counted.not_strays 8 4)⟩
  rcases hs with hs | hs | ⟨-, hs⟩
  · have : b = 3 := hs
    omega
  · have : b = 4 := hs
    omega
  · have : b < 7 := hs
    omega

/-- The bit of the block bitmap itself is clear. -/
def zoneFs : Fs :=
  { reserveFs with blockBitmap := fun _ i => decide (i < 6 ∧ i ≠ 2) }

/-- The call marks block 3, in the metadata, and hands out block 7; freeing block 7
leaves block 3 marked. -/
theorem krFreeBlocks_leaves_stray : krFillSuper smallEnv reserveImage = .ok zoneFs.sbi ∧ ∃ fs',
    krNewBlocks Rebalance.plain reserveEnv 12 40 zoneFs 3 1 = .done (fs', .ok (7, 1)) ∧
      zoneFs.blockBitmap 0 2 = false ∧
      (krFreeBlocks (fun _ => true) fs' 12 7 1).blockBitmap 0 2 = true ∧
      ¬ zoneFs.SameAccounts (krFreeBlocks (fun _ => true) fs' 12 7 1) := by
  have hvalue : (krNewBlocks Rebalance.plain reserveEnv 12 40 zoneFs 3 1).toOption.map (fun r =>
      (r.2, (krFreeBlocks (fun _ => true) r.1 12 7 1).blockBitmap 0 2)) =
        some (.ok (7, 1), true) := by decide +kernel
  obtain ⟨⟨fs', ret⟩, hcall, hvalue⟩ := Exec.toOption_map_eq_some.mp hvalue
  obtain ⟨rfl, hset⟩ := Prod.mk.inj hvalue
  refine ⟨rfl, fs', hcall, rfl, hset, fun hsame => ?_⟩
  rw [hsame.bitmap] at hset
  exact absurd hset (by decide)

end KrFs
