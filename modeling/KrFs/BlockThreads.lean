import KrFs.Consistency
import KrFs.FreeRun
import KrFs.Lib.Threads
import KrFs.TryInterleaved
import Mathlib.Data.ZMod.Basic
import Mathlib.Tactic.LinearCombination

/-!
# Block allocation by many files at once

`truncate_mutex` admits one caller to the blocks of a file, but any number of files
allocate and free at the same time. Each access to a bitmap is atomic, a count in a
descriptor is changed under the lock of its group, the per-CPU counter on its own; none
of the three is changed together with another. In every interleaving a block has one
owner, and once all calls have returned the counts are those of the bitmaps.
-/

namespace KrFs

open Interference Threads Bitmap

/-- Where the call for the blocks of a file stands: `kr_new_blocks` from `searching` to
`adjusted`, `kr_free_blocks` from `doMore` on. -/
inductive BlockPhase where
  | idle
  | searching (num : Nat)
  | claiming (group num : Nat) (myRsv : Option ReserveWindowNode) (claimed : List Nat)
      (prog : Prog Nat (Option Nat × Nat))
  | allocated (group first num : Nat)
  | adjusted (group first num : Nat)
  | doMore (block count freed : Nat)
  | clearing (block count overflow i groupFreed freed : Nat)
  | settling (freed : Nat)

/-- The blocks of a file, and the call that runs for it. What could not be freed is
`lost`. -/
structure BlockUser where
  blocks : Finset Nat
  lost : Finset Nat
  phase : BlockPhase

/-- One bit of a block bitmap is written. -/
def Fs.writeBit (fs : Fs) (group bit : Nat) (value : Bool) : Fs :=
  { fs with
    blockBitmap := Function.update fs.blockBitmap group
      (Function.update (fs.blockBitmap group) bit value) }

/-- The check at the head of `kr_free_blocks`. -/
def outsideDatazone (sbi : SbInfo) (block count : Nat) : Bool :=
  block < sbi.sEs.sFirstDataBlock.toNat || (block + count) % 2 ^ 64 < block ||
    sbi.sEs.sBlocksCount.toNat < block + count

/-- The part of the range that lies behind the group of its first block. -/
def overflowOf (sbi : SbInfo) (block count : Nat) : Nat :=
  if sbi.sBlocksPerGroup < sbi.bitOf block + count then
    sbi.bitOf block + count - sbi.sBlocksPerGroup
  else 0

/-- One atomic step of a call. The searches of the reservation tree are made under
`rsv_lock` and leave the bitmaps alone; they decide the group, the goal and the window
of a try, which may be any here. -/
inductive BlockMove (fs : Fs) (u : BlockUser) : Fs → BlockUser → Prop
  | newBlocks (num : Nat) (idle : u.phase = .idle) : BlockMove fs u fs { u with phase := .searching num }
  | giveUp {num : Nat} (here : u.phase = .searching num) : BlockMove fs u fs { u with phase := .idle }
  | tryGroup {num group : Nat} {grpGoal : Int} {myRsv : Option ReserveWindowNode}
      (here : u.phase = .searching num) (hgroup : group < fs.sbi.sGroupsCount)
      (goal : grpGoal < fs.sbi.sBlocksPerGroup)
      (meets : ∀ w, myRsv = some w → MeetsGroup fs.sbi w group) :
      BlockMove fs u fs { u with
        phase := .claiming group num myRsv []
          (Interleaved.krTryToAllocate fs.sbi fs.sbi.sBlocksPerGroup group grpGoal num myRsv) }
  | access {group num : Nat} {myRsv : Option ReserveWindowNode} {claimed claimed' : List Nat}
      {prog prog' : Prog Nat (Option Nat × Nat)} {bits : Nat → Bool}
      (here : u.phase = .claiming group num myRsv claimed prog)
      (made : Access ⟨fs.blockBitmap group, claimed, prog⟩ ⟨bits, claimed', prog'⟩) :
      BlockMove fs u { fs with blockBitmap := Function.update fs.blockBitmap group bits }
        { u with phase := .claiming group num myRsv claimed' prog' }
  | missed {group num n : Nat} {myRsv : Option ReserveWindowNode} {claimed : List Nat}
      (here : u.phase = .claiming group num myRsv claimed (.ret (none, n))) :
      -- with a window the failed try leaves `*count` alone
      BlockMove fs u fs { u with phase := .searching (if myRsv.isSome then num else n) }
  | found {group num first n : Nat} {myRsv : Option ReserveWindowNode} {claimed : List Nat}
      (here : u.phase = .claiming group num myRsv claimed (.ret (some first, n))) :
      BlockMove fs u fs { u with phase := .allocated group first n }
  | systemZone {group first num : Nat} (here : u.phase = .allocated group first num)
      (zone : inSystemZone fs.sbi (fs.desc group) (first + fs.sbi.groupFirstBlockNo group) num = true) :
      BlockMove fs u fs { u with phase := .searching num }
  | pastEnd {group first num : Nat} (here : u.phase = .allocated group first num)
      (past : fs.sbi.sEs.sBlocksCount.toNat ≤ first + fs.sbi.groupFirstBlockNo group + num - 1) :
      BlockMove fs u fs { u with phase := .idle }
  | adjust {group first num : Nat} (here : u.phase = .allocated group first num)
      (zone : inSystemZone fs.sbi (fs.desc group) (first + fs.sbi.groupFirstBlockNo group) num = false)
      (inside : first + fs.sbi.groupFirstBlockNo group + num - 1 < fs.sbi.sEs.sBlocksCount.toNat) :
      BlockMove fs u
        { fs with desc := Function.update fs.desc group (groupAdjustBlocks (fs.desc group) (-num)) }
        { u with phase := .adjusted group first num }
  | counted {group first num : Nat} (here : u.phase = .adjusted group first num) :
      BlockMove fs u { fs with sFreeblocksCounter := fs.sFreeblocksCounter - num }
        { u with
          blocks := u.blocks ∪ Finset.Ico (first + fs.sbi.groupFirstBlockNo group)
            (first + fs.sbi.groupFirstBlockNo group + num)
          phase := .idle }
  | freeBlocks {block count : Nat} (idle : u.phase = .idle)
      (owned : Finset.Ico block (block + count) ⊆ u.blocks)
      (datazone : outsideDatazone fs.sbi block count = false) :
      BlockMove fs u fs { u with
        blocks := u.blocks \ Finset.Ico block (block + count)
        phase := .doMore block count 0 }
  | declined {block count freed : Nat} (read : Bool) (here : u.phase = .doMore block count freed)
      (declines : !read ||
        match fs.groupDesc (fs.sbi.groupOf block) with
        | none => true
        | some desc => inSystemZone fs.sbi desc block (count - overflowOf fs.sbi block count)) :
      BlockMove fs u fs { u with
        lost := u.lost ∪ Finset.Ico block (block + count)
        phase := .settling freed }
  | accepted {block count freed : Nat} {desc : GroupDesc} (here : u.phase = .doMore block count freed)
      (found : fs.groupDesc (fs.sbi.groupOf block) = some desc)
      (zone : inSystemZone fs.sbi desc block (count - overflowOf fs.sbi block count) = false) :
      BlockMove fs u fs { u with
        phase := .clearing block (count - overflowOf fs.sbi block count)
          (overflowOf fs.sbi block count) 0 0 freed }
  | clearBit {block count overflow i groupFreed freed : Nat}
      (here : u.phase = .clearing block count overflow i groupFreed freed) (more : i < count) :
      BlockMove fs u (fs.writeBit (fs.sbi.groupOf block) (fs.sbi.bitOf block + i) false)
        { u with
          phase := .clearing block count overflow (i + 1)
            (if fs.blockBitmap (fs.sbi.groupOf block) (fs.sbi.bitOf block + i) then groupFreed + 1
              else groupFreed) freed }
  | adjustFreed {block count overflow groupFreed freed : Nat}
      (here : u.phase = .clearing block count overflow count groupFreed freed) :
      BlockMove fs u
        { fs with
          desc := Function.update fs.desc (fs.sbi.groupOf block)
            (groupAdjustBlocks (fs.desc (fs.sbi.groupOf block)) groupFreed) }
        { u with
          phase := if overflow ≠ 0 then .doMore (block + count) overflow (freed + groupFreed)
            else .settling (freed + groupFreed) }
  | settle {freed : Nat} (here : u.phase = .settling freed) :
      BlockMove fs u { fs with sFreeblocksCounter := fs.sFreeblocksCounter + freed }
        { u with phase := .idle }

/-! ## Blocks and their owners -/

/-- The blocks of the groups whose bit is set. -/
def Fs.used (fs : Fs) : Set Nat :=
  {b | fs.sbi.sEs.sFirstDataBlock.toNat ≤ b ∧ fs.sbi.groupOf b < fs.sbi.sGroupsCount ∧
    fs.blockBitmap (fs.sbi.groupOf b) (fs.sbi.bitOf b) = true}

/-- The blocks that a call has claimed and not yet passed on, or has still to free. -/
def BlockPhase.holds (sbi : SbInfo) : BlockPhase → Set Nat
  | .claiming group _ _ claimed _ => {b | ∃ i ∈ claimed, b = sbi.groupFirstBlockNo group + i}
  | .allocated group first num => Set.Ico (first + sbi.groupFirstBlockNo group)
      (first + sbi.groupFirstBlockNo group + num)
  | .adjusted group first num => Set.Ico (first + sbi.groupFirstBlockNo group)
      (first + sbi.groupFirstBlockNo group + num)
  | .doMore block count _ => Set.Ico block (block + count)
  | .clearing block count overflow i _ _ => Set.Ico (block + i) (block + count + overflow)
  | _ => ∅

def BlockUser.holds (sbi : SbInfo) (u : BlockUser) : Set Nat :=
  ↑u.blocks ∪ ↑u.lost ∪ u.phase.holds sbi

/-- What a call relies on at each point. -/
def BlockPhase.Ok (sbi : SbInfo) : BlockPhase → Prop
  | .claiming group num myRsv claimed prog => group < sbi.sGroupsCount ∧
      prog.Ensures (Interleaved.Claims sbi group (max num 1) myRsv) claimed
  | .allocated group first num => group < sbi.sGroupsCount ∧ 1 ≤ num ∧
      first + num ≤ sbi.sBlocksPerGroup
  | .doMore block _ _ => sbi.sEs.sFirstDataBlock.toNat ≤ block
  | .clearing block count _ i _ _ => sbi.sEs.sFirstDataBlock.toNat ≤ block ∧ i ≤ count ∧
      sbi.bitOf block + count ≤ sbi.sBlocksPerGroup
  | _ => True

/-- What holds of a file and its call between two steps. -/
structure BlockUser.Ok (sbi : SbInfo) (u : BlockUser) : Prop where
  phase : u.phase.Ok sbi
  lost : Disjoint u.blocks u.lost
  apart : ∀ b ∈ u.phase.holds sbi, b ∉ u.blocks ∧ b ∉ u.lost

/-- The metadata stays where it is. -/
structure Fs.SamePlaces (fs fs' : Fs) : Prop where
  sbi : fs'.sbi = fs.sbi
  desc : ∀ g, ∃ n, fs'.desc g = { fs.desc g with bgFreeBlocksCount := n }

/-- The reserved blocks that a bitmap covers. -/
def Fs.covered (fs : Fs) : Set Nat :=
  {b | fs.sbi.sEs.sFirstDataBlock.toNat ≤ b ∧ fs.sbi.groupOf b < fs.sbi.sGroupsCount ∧
    fs.Reserved b}

/-- Who may have which block, in the file system mounted as `fs`. -/
def blockOwnership (fs : Fs) : Ownership Fs BlockUser Nat where
  used := Fs.used
  holds := BlockUser.holds fs.sbi
  pool := fun _ => fs.covered
  sane := fs.SamePlaces
  good := BlockUser.Ok fs.sbi

section Places

variable {fs fs' : Fs}

theorem Fs.SamePlaces.refl (fs : Fs) : fs.SamePlaces fs :=
  ⟨rfl, fun g => ⟨(fs.desc g).bgFreeBlocksCount, rfl⟩⟩

theorem Fs.SamePlaces.adjust (h : fs.SamePlaces fs') (group : Nat) (n : Int) :
    fs.SamePlaces { fs' with
      desc := Function.update fs'.desc group (groupAdjustBlocks (fs'.desc group) n) } := by
  refine ⟨h.sbi, fun g => ?_⟩
  obtain ⟨m, hm⟩ := h.desc g
  by_cases hg : g = group
  · subst hg
    simp only [Function.update_self, groupAdjustBlocks]
    split
    · exact ⟨m, hm⟩
    · exact ⟨_, by rw [hm]⟩
  · simp only [ne_eq, hg, not_false_eq_true, Function.update_of_ne]
    exact ⟨m, hm⟩

/-- A block of the metadata is one of the file system as it was mounted. -/
theorem Fs.SamePlaces.system (h : fs.SamePlaces fs') {g b : Nat} (hg : g < fs.sbi.sGroupsCount)
    (hb : SystemBlock fs.sbi (fs'.desc g) b) : fs.Reserved b := by
  obtain ⟨n, hn⟩ := h.desc g
  rw [hn] at hb
  exact Or.inr (Or.inr (Or.inl ⟨g, hg, Or.inr hb⟩))

/-- A bit of a group and the block it stands for. -/
theorem Fs.mem_used {g i : Nat} (hg : g < fs.sbi.sGroupsCount) (hi : i < fs.sbi.sBlocksPerGroup) :
    fs.sbi.groupFirstBlockNo g + i ∈ fs.used ↔ fs.blockBitmap g i = true := by
  obtain ⟨hgroup, hbit⟩ := groupOf_add fs.sbi g hi
  have hlow : fs.sbi.sEs.sFirstDataBlock.toNat ≤ fs.sbi.groupFirstBlockNo g + i := by
    unfold SbInfo.groupFirstBlockNo
    omega
  simp only [Fs.used, Set.mem_ofPred_eq, hgroup, hbit, hlow, hg, true_and]

/-- Two states whose bitmaps differ in one bit. -/
theorem Fs.used_writeBit {g i b : Nat} (value : Bool)
    (hne : b ≠ fs.sbi.groupFirstBlockNo g + i) : b ∈ (fs.writeBit g i value).used ↔ b ∈ fs.used := by
  simp only [Fs.used, Fs.writeBit, Set.mem_ofPred_eq, and_congr_right_iff]
  intro hlow hgroup
  by_cases hg : fs.sbi.groupOf b = g
  · have hbit : fs.sbi.bitOf b ≠ i := by
      rintro rfl
      refine hne ?_
      rw [← hg, groupOf_addr hlow]
    rw [hg, Function.update_self, Function.update_of_ne hbit]
  · rw [Function.update_of_ne hg]

/-- Setting a bit puts the block to use. -/
theorem Fs.used_set {g i : Nat} (hg : g < fs.sbi.sGroupsCount) (hi : i < fs.sbi.sBlocksPerGroup) :
    (fs.writeBit g i true).used = insert (fs.sbi.groupFirstBlockNo g + i) fs.used := by
  ext b
  rw [Set.mem_insert_iff]
  by_cases hb : b = fs.sbi.groupFirstBlockNo g + i
  · subst hb
    have hmem : fs.sbi.groupFirstBlockNo g + i ∈ (fs.writeBit g i true).used :=
      (@Fs.mem_used (fs.writeBit g i true) g i hg hi).mpr (by simp [Fs.writeBit])
    simp only [hmem, true_or]
  · rw [Fs.used_writeBit true hb, or_iff_right hb]

/-- Clearing a bit makes the block free. -/
theorem Fs.used_clear {g i : Nat} (hg : g < fs.sbi.sGroupsCount) (hi : i < fs.sbi.sBlocksPerGroup) :
    (fs.writeBit g i false).used = fs.used \ {fs.sbi.groupFirstBlockNo g + i} := by
  ext b
  rw [Set.mem_sdiff, Set.mem_singleton_iff]
  by_cases hb : b = fs.sbi.groupFirstBlockNo g + i
  · subst hb
    have hmem : fs.sbi.groupFirstBlockNo g + i ∉ (fs.writeBit g i false).used := by
      intro hmem
      have hbit := (@Fs.mem_used (fs.writeBit g i false) g i hg hi).mp hmem
      simp [Fs.writeBit] at hbit
    simp only [hmem, not_true_eq_false, and_false]
  · rw [Fs.used_writeBit false hb]
    simp only [hb, not_false_eq_true, and_true]

end Places

/-! ## Every step leaves each block with one owner -/

section Owners

variable {sbi : SbInfo} {group : Nat} {grpGoal : Int} {myRsv : Option ReserveWindowNode}

/-- A failed try without a window sets the number of blocks asked for to zero; the next
one then claims one block all the same. -/
theorem krTryToAllocate_none_asked (fuel : Nat) :
    Interleaved.krTryToAllocate sbi fuel group grpGoal 0 myRsv =
      Interleaved.krTryToAllocate sbi fuel group grpGoal 1 myRsv := by
  have hrun : ∀ stop grpGoal, Interleaved.claimRun 0 stop fuel grpGoal 1 =
      Interleaved.claimRun 1 stop fuel grpGoal 1 := by
    intro stop grpGoal
    cases fuel with
    | zero => rfl
    | succ fuel => simp [Interleaved.claimRun]
  simp only [Interleaved.krTryToAllocate, hrun]

theorem krTryToAllocate_claims (hbpg : 0 < sbi.sBlocksPerGroup)
    (hgoal : grpGoal < sbi.sBlocksPerGroup)
    (hmeets : ∀ w, myRsv = some w → MeetsGroup sbi w group) (num : Nat) :
    (Interleaved.krTryToAllocate sbi sbi.sBlocksPerGroup group grpGoal num myRsv).Ensures
      (Interleaved.Claims sbi group (max num 1) myRsv) [] := by
  cases num with
  | zero =>
    rw [krTryToAllocate_none_asked]
    exact Interleaved.krTryToAllocate_ensures hbpg hgoal (le_refl 1) hmeets (le_refl _)
  | succ num =>
    rw [max_eq_left (Nat.succ_pos num)]
    exact Interleaved.krTryToAllocate_ensures hbpg hgoal (Nat.succ_pos num) hmeets (le_refl _)

/-- The bits a try has claimed so far are bits of the group. -/
theorem claimed_lt {count : Nat} {claimed : List Nat} {prog : Prog Nat (Option Nat × Nat)}
    (h : prog.Ensures (Interleaved.Claims sbi group count myRsv) claimed) :
    ∀ i ∈ claimed, i < sbi.sBlocksPerGroup := by
  refine h.own fun result own hclaims i hi => ?_
  obtain ⟨found, n⟩ := result
  cases found with
  | none =>
    rw [hclaims.2] at hi
    cases hi
  | some first =>
    obtain ⟨-, -, rfl, hend, -⟩ := hclaims
    have hlt := List.mem_range'_1.mp hi
    omega

variable {fs0 fs fs' : Fs} {u u' : BlockUser}

/-- A step that leaves the bitmaps alone, and the blocks of the file and its call as a whole. -/
theorem BlockUser.obeys_of_same (h : (blockOwnership fs0).Agrees fs u)
    (places : fs0.SamePlaces fs') (hbitmap : fs'.blockBitmap = fs.blockBitmap)
    (ok : u'.Ok fs0.sbi) (hholds : ∀ b, b ∈ u'.holds fs0.sbi ↔ b ∈ u.holds fs0.sbi) :
    (blockOwnership fs0).Obeys fs u fs' u' := by
  have hsbi : fs'.sbi = fs.sbi := places.sbi.trans h.sane.sbi.symm
  have hsame : (blockOwnership fs0).holds u' = (blockOwnership fs0).holds u := Set.ext hholds
  refine h.moved places ok ?_ (fun b => or_congr_left (hholds b)) ?_
  · simp only [blockOwnership, Fs.used, hbitmap, hsbi]
  · rw [hsame]
    exact h.apart

/-- The same when the blocks of the call stay with it. -/
theorem BlockUser.obeys_of_phase (h : (blockOwnership fs0).Agrees fs u)
    (places : fs0.SamePlaces fs') (hbitmap : fs'.blockBitmap = fs.blockBitmap) {phase : BlockPhase}
    (ok : phase.Ok fs0.sbi) (hholds : ∀ b, b ∈ phase.holds fs0.sbi ↔ b ∈ u.phase.holds fs0.sbi) :
    (blockOwnership fs0).Obeys fs u fs' { u with phase := phase } := by
  have good : u.Ok fs0.sbi := h.good
  refine BlockUser.obeys_of_same h places hbitmap ⟨ok, good.lost, fun b hb => ?_⟩ fun b => ?_
  · exact good.apart b ((hholds b).mp hb)
  · simp only [BlockUser.holds, Set.mem_union, hholds b]

/-- A block that a call has claimed is none of the metadata. -/
theorem BlockUser.not_reserved (h : (blockOwnership fs0).Agrees fs u) {b : Nat}
    (hb : b ∈ u.phase.holds fs0.sbi) : ¬ fs0.Reserved b := by
  intro hres
  have hheld : b ∈ u.holds fs0.sbi := Or.inr hb
  obtain ⟨hlow, hgroup, -⟩ : b ∈ fs.used := h.used hheld
  rw [h.sane.sbi] at hlow hgroup
  exact h.apart b hheld ⟨hlow, hgroup, hres⟩

/-- Nobody has cleared a bit that the call has claimed. -/
theorem BlockUser.kept (h : (blockOwnership fs0).Agrees fs u) {num : Nat} {claimed : List Nat}
    {prog : Prog Nat (Option Nat × Nat)} (here : u.phase = .claiming group num myRsv claimed prog) :
    Config.Kept (⟨fs.blockBitmap group, claimed, prog⟩ :
      Interference.Config Nat (Option Nat × Nat)) := by
  have hsbi : fs.sbi = fs0.sbi := h.sane.sbi
  have good : u.Ok fs0.sbi := h.good
  have hok := good.phase
  rw [here] at hok
  obtain ⟨hgroup, hprog⟩ := hok
  intro i hi
  have hheld : fs0.sbi.groupFirstBlockNo group + i ∈ u.holds fs0.sbi := by
    refine Or.inr ?_
    rw [here]
    exact ⟨i, hi, rfl⟩
  have hmem := h.used hheld
  rw [← hsbi] at hmem hgroup
  exact (Fs.mem_used hgroup (hsbi ▸ claimed_lt hprog i hi)).mp hmem

/-- A bit that is claimed next. -/
theorem BlockUser.claims (h : (blockOwnership fs0).Agrees fs u) {num i : Nat} {claimed : List Nat}
    {next : Bool → Prog Nat (Option Nat × Nat)}
    (here : u.phase = .claiming group num myRsv claimed (.testAndSet i next))
    (hclear : fs.blockBitmap group i = false) :
    group < fs.sbi.sGroupsCount ∧ i < fs.sbi.sBlocksPerGroup := by
  have good : u.Ok fs0.sbi := h.good
  have hok := good.phase
  rw [here] at hok
  obtain ⟨hgroup, hprog⟩ := hok
  rw [show fs.sbi = fs0.sbi from h.sane.sbi]
  refine ⟨hgroup, claimed_lt (hprog.2 fun hi => ?_) i (by simp)⟩
  have hset : fs.blockBitmap group i = true := BlockUser.kept h here i hi
  rw [hset] at hclear
  cases hclear

/-- The bits that a try claims belong to the file that makes it. -/
theorem BlockMove.access_obeys (h : (blockOwnership fs0).Agrees fs u) {num : Nat}
    {claimed claimed' : List Nat} {prog prog' : Prog Nat (Option Nat × Nat)} {bits : Nat → Bool}
    (here : u.phase = .claiming group num myRsv claimed prog)
    (made : Access ⟨fs.blockBitmap group, claimed, prog⟩ ⟨bits, claimed', prog'⟩) :
    (blockOwnership fs0).Obeys fs u
      { fs with blockBitmap := Function.update fs.blockBitmap group bits }
      { u with phase := .claiming group num myRsv claimed' prog' } := by
  have hsbi : fs.sbi = fs0.sbi := h.sane.sbi
  have good : u.Ok fs0.sbi := h.good
  have hok := good.phase
  rw [here] at hok
  obtain ⟨hgroup, hprog⟩ := hok
  have hnext := made.ensures (BlockUser.kept h here) hprog
  have hsame : Function.update fs.blockBitmap group (fs.blockBitmap group) = fs.blockBitmap :=
    Function.update_eq_self group fs.blockBitmap
  cases made with
  | look _ _ f next =>
    rw [hsame]
    refine BlockUser.obeys_of_phase h h.sane rfl ⟨hgroup, hnext⟩ fun b => ?_
    simp only [here, BlockPhase.holds]
  | taken _ _ i next hset =>
    rw [hsame]
    refine BlockUser.obeys_of_phase h h.sane rfl ⟨hgroup, hnext⟩ fun b => ?_
    simp only [here, BlockPhase.holds]
  | set _ _ i next hclear =>
    have hi : i < fs0.sbi.sBlocksPerGroup := claimed_lt hnext i (by simp)
    have hfree : fs0.sbi.groupFirstBlockNo group + i ∉ fs.used := by
      intro hmem
      rw [← hsbi] at hmem hgroup hi
      rw [(Fs.mem_used hgroup hi).mp hmem] at hclear
      cases hclear
    have hmem : ∀ b, (∃ j ∈ claimed ++ [i], b = fs0.sbi.groupFirstBlockNo group + j) ↔
        (∃ j ∈ claimed, b = fs0.sbi.groupFirstBlockNo group + j) ∨
          b = fs0.sbi.groupFirstBlockNo group + i := by
      intro b
      simp only [List.mem_append, List.mem_singleton, or_and_right, exists_or, exists_eq_left]
    refine h.take hfree ⟨h.sane.sbi, h.sane.desc⟩ ⟨⟨hgroup, hnext⟩, good.lost, fun b hb => ?_⟩ ?_
      rfl ?_
    · rcases (hmem b).mp hb with hold | rfl
      · exact good.apart b (by rw [here]; exact hold)
      · exact ⟨fun hb => hfree (h.used (Or.inl (Or.inl hb))),
          fun hb => hfree (h.used (Or.inl (Or.inr hb)))⟩
    · rw [← hsbi] at hgroup hi ⊢
      exact Fs.used_set hgroup hi
    · ext b
      simp only [blockOwnership, BlockUser.holds, here, BlockPhase.holds, Set.mem_union,
        Set.mem_insert_iff, Set.mem_ofPred_eq, hmem]
      rw [← or_assoc, or_comm]

/-- The overflow is a part of the range, and the rest lies in one group. -/
theorem overflowOf_le (geo : BlockGeometry sbi) (block count : Nat) :
    overflowOf sbi block count ≤ count ∧
      sbi.bitOf block + (count - overflowOf sbi block count) ≤ sbi.sBlocksPerGroup := by
  have hbit : sbi.bitOf block < sbi.sBlocksPerGroup := Nat.mod_lt _ geo.bpg_pos
  unfold overflowOf
  split
  · omega
  · omega

/-- The block whose bit the loop of `kr_free_blocks` clears next. -/
theorem BlockUser.clears (h : (blockOwnership fs0).Agrees fs u)
    {block count overflow i groupFreed freed : Nat}
    (here : u.phase = .clearing block count overflow i groupFreed freed) (more : i < count) :
    block + i ∈ u.phase.holds fs0.sbi ∧ fs0.sbi.groupOf block < fs0.sbi.sGroupsCount ∧
      fs0.sbi.bitOf block + i < fs0.sbi.sBlocksPerGroup ∧
      block + i = fs0.sbi.groupFirstBlockNo (fs0.sbi.groupOf block) + (fs0.sbi.bitOf block + i) := by
  have good : u.Ok fs0.sbi := h.good
  have hok := good.phase
  rw [here] at hok
  obtain ⟨hlow, hi, hend⟩ := hok
  have haddr := groupOf_addr hlow
  have hheld : block + i ∈ u.phase.holds fs0.sbi := by
    rw [here]
    simp only [BlockPhase.holds, Set.mem_Ico]
    omega
  have hblock : block + i = fs0.sbi.groupFirstBlockNo (fs0.sbi.groupOf block) +
      (fs0.sbi.bitOf block + i) := by omega
  have hlt : fs0.sbi.bitOf block + i < fs0.sbi.sBlocksPerGroup := by omega
  refine ⟨hheld, ?_, hlt, hblock⟩
  obtain ⟨-, hgroup, -⟩ : block + i ∈ fs.used := h.used (Or.inr hheld)
  rw [h.sane.sbi, hblock, (groupOf_add fs0.sbi _ hlt).1] at hgroup
  exact hgroup

/-- The blocks that a call has claimed are no metadata and lie inside the file system, so
that neither check behind `allocated` fails. -/
theorem BlockUser.not_in_zone (h : (blockOwnership fs0).Agrees fs u) {first num : Nat}
    (here : u.phase = .allocated group first num) : ¬ inSystemZone fs.sbi (fs.desc group)
      (first + fs.sbi.groupFirstBlockNo group) num = true := by
  have good : u.Ok fs0.sbi := h.good
  have hok := good.phase
  rw [here] at hok
  obtain ⟨hgroup, hpos, hend⟩ := hok
  rw [Bool.not_eq_true, show fs.sbi = fs0.sbi from h.sane.sbi]
  refine inSystemZone_eq_false hpos fun b h1 h2 hsystem => ?_
  refine BlockUser.not_reserved h (b := b) ?_ (h.sane.system hgroup hsystem)
  rw [here]
  exact ⟨h1, h2⟩

theorem BlockUser.not_past_end (h : (blockOwnership fs0).Agrees fs u) {first num : Nat}
    (here : u.phase = .allocated group first num) : ¬ fs.sbi.sEs.sBlocksCount.toNat ≤
      first + fs.sbi.groupFirstBlockNo group + num - 1 := by
  have good : u.Ok fs0.sbi := h.good
  have hok := good.phase
  rw [here] at hok
  obtain ⟨hgroup, hpos, hend⟩ := hok
  rw [show fs.sbi = fs0.sbi from h.sane.sbi]
  intro past
  refine BlockUser.not_reserved h ?_ (Or.inr (Or.inl past))
  rw [here]
  simp only [BlockPhase.holds, Set.mem_Ico]
  omega

theorem BlockMove.obeys (geo : BlockGeometry fs0.sbi) (h : (blockOwnership fs0).Agrees fs u)
    (move : BlockMove fs u fs' u') : (blockOwnership fs0).Obeys fs u fs' u' := by
  have hsbi : fs.sbi = fs0.sbi := h.sane.sbi
  have good : u.Ok fs0.sbi := h.good
  have hok := good.phase
  cases move with
  | newBlocks num idle =>
    refine BlockUser.obeys_of_phase h h.sane rfl trivial fun b => ?_
    simp only [idle, BlockPhase.holds]
  | giveUp here =>
    refine BlockUser.obeys_of_phase h h.sane rfl trivial fun b => ?_
    simp only [here, BlockPhase.holds]
  | tryGroup here hgroup goal meets =>
    rw [hsbi] at hgroup goal meets
    refine BlockUser.obeys_of_phase h h.sane rfl ⟨hgroup, ?_⟩ fun b => ?_
    · rw [hsbi]
      exact krTryToAllocate_claims geo.bpg_pos goal meets _
    · simp [here, BlockPhase.holds]
  | access here made => exact BlockMove.access_obeys h here made
  | missed here =>
    rw [here] at hok
    obtain ⟨-, -, hnone⟩ := hok
    refine BlockUser.obeys_of_phase h h.sane rfl trivial fun b => ?_
    simp [here, BlockPhase.holds, hnone]
  | @found group num first n myRsv claimed here =>
    rw [here] at hok
    obtain ⟨hgroup, hpos, -, hrun, hend, -⟩ := hok
    refine BlockUser.obeys_of_phase h h.sane rfl ⟨hgroup, hpos, hend⟩ fun b => ?_
    simp only [here, BlockPhase.holds, hrun, List.mem_range'_1, Set.mem_Ico, Set.mem_ofPred_eq]
    constructor
    · intro hb
      exact ⟨b - fs0.sbi.groupFirstBlockNo group, by omega, by omega⟩
    · rintro ⟨i, hi, rfl⟩
      omega
  | systemZone here zone => exact absurd zone (BlockUser.not_in_zone h here)
  | pastEnd here past => exact absurd past (BlockUser.not_past_end h here)
  | adjust here zone inside =>
    refine BlockUser.obeys_of_phase h (h.sane.adjust _ _) rfl trivial fun b => ?_
    simp only [here, BlockPhase.holds]
  | @counted group first num here =>
    refine BlockUser.obeys_of_same h ⟨h.sane.sbi, h.sane.desc⟩ rfl ⟨trivial, ?_, fun b hb => ?_⟩
      fun b => ?_
    · rw [Finset.disjoint_union_left, hsbi]
      refine ⟨good.lost, Finset.disjoint_left.mpr fun b hb => (good.apart b ?_).2⟩
      rw [here]
      exact Finset.mem_Ico.mp hb
    · cases hb
    · rw [hsbi]
      simp only [BlockUser.holds, here, BlockPhase.holds, Finset.coe_union, Finset.coe_Ico,
        Set.union_empty, Set.union_right_comm]
  | @freeBlocks block count idle owned datazone =>
    have hlow : fs0.sbi.sEs.sFirstDataBlock.toNat ≤ block := by
      simp only [outsideDatazone, Bool.or_eq_false_iff, decide_eq_false_iff_not, hsbi] at datazone
      omega
    refine BlockUser.obeys_of_same h h.sane rfl ⟨hlow, ?_, fun b hb => ?_⟩ fun b => ?_
    · exact Finset.disjoint_of_subset_left Finset.sdiff_subset good.lost
    · have hmem : b ∈ Finset.Ico block (block + count) := Finset.mem_Ico.mpr hb
      exact ⟨fun hb' => (Finset.mem_sdiff.mp hb').2 hmem,
        Finset.disjoint_left.mp good.lost (owned hmem)⟩
    · have hsub : b ∈ Finset.Ico block (block + count) → b ∈ u.blocks := fun hb => owned hb
      simp only [BlockUser.holds, idle, BlockPhase.holds, Set.mem_union, Finset.coe_sdiff,
        Set.mem_sdiff, Finset.mem_coe, Finset.coe_Ico, Set.mem_Ico, Set.mem_empty_iff_false,
        Finset.mem_Ico] at hsub ⊢
      tauto
  | @declined block count freed read here declines =>
    refine BlockUser.obeys_of_same h h.sane rfl ⟨trivial, ?_, fun b hb => ?_⟩ fun b => ?_
    · rw [Finset.disjoint_union_right]
      refine ⟨good.lost, Finset.disjoint_right.mpr fun b hb => (good.apart b ?_).1⟩
      rw [here]
      exact Finset.mem_Ico.mp hb
    · cases hb
    · simp only [BlockUser.holds, here, BlockPhase.holds, Finset.coe_union, Finset.coe_Ico,
        Set.union_empty, Set.union_assoc]
  | @accepted block count freed desc here found zone =>
    rw [here] at hok
    obtain ⟨hle, hend⟩ := overflowOf_le geo block count
    rw [hsbi]
    refine BlockUser.obeys_of_phase h h.sane rfl ⟨hok, Nat.zero_le _, hend⟩ fun b => ?_
    simp only [here, BlockPhase.holds, Set.mem_Ico]
    omega
  | @clearBit block count overflow i groupFreed freed here more =>
    obtain ⟨hheld, hgroup, hlt, hblock⟩ := BlockUser.clears h here more
    have hapart := good.apart _ hheld
    rw [here] at hok
    have hnext : ∀ b, b ∈ Set.Ico (block + (i + 1)) (block + count + overflow) ↔
        b ∈ u.phase.holds fs0.sbi ∧ b ≠ block + i := by
      intro b
      simp only [here, BlockPhase.holds, Set.mem_Ico]
      omega
    rw [hsbi]
    refine h.give (Or.inr hheld) ⟨h.sane.sbi, h.sane.desc⟩
      ⟨⟨hok.1, more, hok.2.2⟩, good.lost, fun b hb => good.apart b ((hnext b).mp hb).1⟩ ?_
      rfl ?_
    · rw [hblock]
      rw [← hsbi] at hgroup hlt ⊢
      exact Fs.used_clear hgroup hlt
    · ext b
      have hphase := hnext b
      simp only [blockOwnership, BlockUser.holds, Set.mem_union, Set.mem_sdiff,
        Set.mem_singleton_iff, Finset.mem_coe, BlockPhase.holds, hphase]
      by_cases hb : b = block + i
      · subst hb
        simp only [hapart, ne_eq, not_true_eq_false, and_false, or_self]
      · simp only [hb, ne_eq, not_false_eq_true, and_true]
  | @adjustFreed block count overflow groupFreed freed here =>
    rw [here] at hok
    have hend : ∀ b, b ∈ (if overflow ≠ 0 then
        BlockPhase.doMore (block + count) overflow (freed + groupFreed)
        else .settling (freed + groupFreed)).holds fs0.sbi ↔ b ∈ u.phase.holds fs0.sbi := by
      intro b
      by_cases hz : overflow = 0
      · simp only [hz, ne_eq, not_true_eq_false, if_false, here, BlockPhase.holds,
          Set.mem_empty_iff_false, Set.mem_Ico, false_iff]
        omega
      · simp only [ne_eq, hz, not_false_eq_true, if_true, here, BlockPhase.holds]
    refine BlockUser.obeys_of_phase h (h.sane.adjust _ _) rfl ?_ hend
    split
    · exact Nat.le_add_right_of_le hok.1
    · trivial
  | @settle freed here =>
    have places : fs0.SamePlaces { fs with sFreeblocksCounter := fs.sFreeblocksCounter + freed } :=
      ⟨h.sane.sbi, h.sane.desc⟩
    refine BlockUser.obeys_of_phase h places rfl trivial fun b => ?_
    simp only [here, BlockPhase.holds]

end Owners

/-! ## The counts -/

/-- What a call has claimed or cleared in a group and not yet told its descriptor. -/
def BlockPhase.groupDue (sbi : SbInfo) (g : Nat) : BlockPhase → ZMod (2 ^ 16)
  | .claiming group _ _ claimed _ => if group = g then -(claimed.length : ZMod (2 ^ 16)) else 0
  | .allocated group _ num => if group = g then -(num : ZMod (2 ^ 16)) else 0
  | .clearing block _ _ _ groupFreed _ => if sbi.groupOf block = g then groupFreed else 0
  | _ => 0

/-- What a call has claimed or cleared and not yet told the counter. -/
def BlockPhase.totalDue : BlockPhase → Int
  | .claiming _ _ _ claimed _ => -claimed.length
  | .allocated _ _ num => -num
  | .adjusted _ _ num => -num
  | .doMore _ _ freed => freed
  | .clearing _ _ _ _ groupFreed freed => groupFreed + freed
  | .settling freed => freed
  | _ => 0

/-- By how much the bitmap of a group is ahead of its descriptor, modulo the width of
the count. -/
def Fs.groupBook (fs : Fs) (g : Nat) : ZMod (2 ^ 16) :=
  clearCount (fs.blockBitmap g) fs.sbi.sBlocksPerGroup - (fs.desc g).bgFreeBlocksCount.toNat

/-- By how much the bitmaps are ahead of the counter. -/
def Fs.totalBook (fs : Fs) : Int :=
  ∑ g ∈ Finset.range fs.sbi.sGroupsCount, (clearCount (fs.blockBitmap g) fs.sbi.sBlocksPerGroup : Int) -
    fs.sFreeblocksCounter

section Books

variable {fs0 fs fs' : Fs} {u u' : BlockUser}

theorem groupAdjustBlocks_cast (desc : GroupDesc) (n : Int) :
    (((groupAdjustBlocks desc n).bgFreeBlocksCount.toNat : Nat) : ZMod (2 ^ 16)) =
      (desc.bgFreeBlocksCount.toNat : ZMod (2 ^ 16)) + n := by
  unfold groupAdjustBlocks
  split
  · rename_i hz
    rw [hz, Int.cast_zero, add_zero]
  · have hcast : ((cpuToLe16 (desc.bgFreeBlocksCount.toNat + n)).toNat : Int) =
        (desc.bgFreeBlocksCount.toNat + n) % 2 ^ 16 := by
      rw [cpuToLe16, UInt16.toNat_ofNat_of_lt' (show _ < 2 ^ 16 by omega)]
      omega
    have hmod := congrArg (Int.cast : Int → ZMod (2 ^ 16)) hcast
    have hwrap := ZMod.intCast_mod (desc.bgFreeBlocksCount.toNat + n) (2 ^ 16)
    push_cast at hmod hwrap ⊢
    rw [hmod]
    exact hwrap

/-- The books when a descriptor is adjusted. -/
theorem Fs.groupBook_adjust (fs : Fs) (group : Nat) (n : Int) (g : Nat) :
    ({ fs with desc := Function.update fs.desc group (groupAdjustBlocks (fs.desc group) n) } :
      Fs).groupBook g - fs.groupBook g = if group = g then -(n : ZMod (2 ^ 16)) else 0 := by
  unfold Fs.groupBook
  by_cases hg : group = g
  · subst hg
    simp only [Function.update_self, groupAdjustBlocks_cast, if_true]
    ring
  · simp only [Function.update_of_ne (Ne.symm hg), if_neg hg, sub_self]

/-- The books when a bit is written. -/
theorem Fs.groupBook_writeBit {i : Nat} (group : Nat) (hi : i < fs.sbi.sBlocksPerGroup)
    (value : Bool) (g : Nat) : (fs.writeBit group i value).groupBook g - fs.groupBook g =
      if group = g then (((fs.blockBitmap group i).toNat : ZMod (2 ^ 16)) - value.toNat) else 0 := by
  unfold Fs.groupBook Fs.writeBit
  by_cases hg : group = g
  · subst hg
    have hcount := congrArg (Nat.cast : Nat → ZMod (2 ^ 16))
      (clearCount_update (fs.blockBitmap group) hi value)
    push_cast at hcount
    simp only [Function.update_self, if_true]
    linear_combination hcount
  · simp only [Function.update_of_ne (Ne.symm hg), if_neg hg, sub_self]

theorem Fs.totalBook_writeBit {group i : Nat} (hgroup : group < fs.sbi.sGroupsCount)
    (hi : i < fs.sbi.sBlocksPerGroup) (value : Bool) :
    (fs.writeBit group i value).totalBook - fs.totalBook =
      (fs.blockBitmap group i).toNat - value.toNat := by
  have hsum := sum_changed (fun g => clearCount (fs.blockBitmap g) fs.sbi.sBlocksPerGroup)
    (fun g => clearCount ((fs.writeBit group i value).blockBitmap g) fs.sbi.sBlocksPerGroup) hgroup
    fun g hg => by simp only [Fs.writeBit, Function.update_of_ne hg]
  have hcount := clearCount_update (fs.blockBitmap group) hi value
  have hself : (fs.writeBit group i value).blockBitmap group =
      Function.update (fs.blockBitmap group) i value := by
    simp only [Fs.writeBit, Function.update_self]
  rw [hself] at hsum
  have hsbi : (fs.writeBit group i value).sbi = fs.sbi := rfl
  have hcounter : (fs.writeBit group i value).sFreeblocksCounter = fs.sFreeblocksCounter := rfl
  unfold Fs.totalBook
  rw [hsbi, hcounter]
  omega

end Books

section Ledgers

variable {fs0 fs fs' : Fs} {u u' : BlockUser}

/-- A try that has returned has claimed the number of bits it reports. -/
theorem claimed_length {sbi : SbInfo} {group count : Nat} {myRsv : Option ReserveWindowNode}
    {result : Option Nat × Nat} {claimed : List Nat}
    (h : Interleaved.Claims sbi group count myRsv result claimed) : claimed.length = result.2 := by
  obtain ⟨found, n⟩ := result
  cases found with
  | none =>
    obtain ⟨rfl, rfl⟩ := h
    rfl
  | some first =>
    obtain ⟨-, -, rfl, -⟩ := h
    exact List.length_range'

/-- Each step changes the book of a group and what the call owes it alike. -/
theorem BlockMove.groupBook (h : (blockOwnership fs0).Agrees fs u) (move : BlockMove fs u fs' u')
    (g : Nat) : fs'.groupBook g - fs.groupBook g =
      u'.phase.groupDue fs0.sbi g - u.phase.groupDue fs0.sbi g := by
  have hsbi : fs.sbi = fs0.sbi := h.sane.sbi
  have good : u.Ok fs0.sbi := h.good
  have hok := good.phase
  cases move with
  | newBlocks num idle => simp only [idle, BlockPhase.groupDue, sub_self]
  | giveUp here => simp only [here, BlockPhase.groupDue, sub_self]
  | tryGroup here hgroup goal meets => simp [here, BlockPhase.groupDue]
  | @access group num myRsv claimed claimed' prog prog' bits here made =>
    have hsame : Function.update fs.blockBitmap group (fs.blockBitmap group) = fs.blockBitmap :=
      Function.update_eq_self group fs.blockBitmap
    cases made with
    | look _ _ f next => simp only [here, BlockPhase.groupDue, hsame, sub_self]
    | taken _ _ i next hset => simp only [here, BlockPhase.groupDue, hsame, sub_self]
    | set _ _ i next hclear =>
      obtain ⟨-, hi⟩ := BlockUser.claims h here hclear
      have hbook := Fs.groupBook_writeBit group hi true g
      rw [hclear] at hbook
      simp only [here, BlockPhase.groupDue, List.length_append, List.length_singleton]
      refine hbook.trans ?_
      split
      · rw [Bool.toNat_false, Bool.toNat_true]
        push_cast
        ring
      · ring
  | missed here =>
    rw [here] at hok
    obtain ⟨-, -, hnone⟩ := hok
    simp [here, BlockPhase.groupDue, hnone]
  | found here =>
    rw [here] at hok
    have hlen := claimed_length hok.2
    simp only [here, BlockPhase.groupDue, hlen, sub_self]
  | systemZone here zone =>
    exact absurd zone (BlockUser.not_in_zone h here)
  | pastEnd here past => exact absurd past (BlockUser.not_past_end h here)
  | @adjust group first num here zone inside =>
    have hbook := fs.groupBook_adjust group (-num) g
    simp only [here, BlockPhase.groupDue]
    refine hbook.trans ?_
    split
    · push_cast
      ring
    · ring
  | counted here =>
    simp only [here, BlockPhase.groupDue, Fs.groupBook, sub_self]
  | freeBlocks idle owned datazone => simp only [idle, BlockPhase.groupDue, sub_self]
  | declined read here declines => simp only [here, BlockPhase.groupDue, sub_self]
  | accepted here found zone => simp [here, BlockPhase.groupDue]
  | @clearBit block count overflow i groupFreed freed here more =>
    obtain ⟨-, -, hlt, -⟩ := BlockUser.clears h here more
    rw [← hsbi] at hlt
    have hbook := Fs.groupBook_writeBit (fs.sbi.groupOf block) hlt false g
    simp only [here, BlockPhase.groupDue, ← hsbi]
    refine hbook.trans ?_
    cases fs.blockBitmap (fs.sbi.groupOf block) (fs.sbi.bitOf block + i) with
    | false => simp
    | true =>
      simp only [if_true]
      split
      · rw [Bool.toNat_false, Bool.toNat_true]
        push_cast
        ring
      · ring
  | @adjustFreed block count overflow groupFreed freed here =>
    have hbook := fs.groupBook_adjust (fs.sbi.groupOf block) groupFreed g
    have hdue : (if overflow ≠ 0 then
        BlockPhase.doMore (block + count) overflow (freed + groupFreed)
        else .settling (freed + groupFreed)).groupDue fs0.sbi g = 0 := by
      by_cases hz : overflow = 0
      · simp only [hz, ne_eq, not_true_eq_false, if_false, BlockPhase.groupDue]
      · simp only [ne_eq, hz, not_false_eq_true, if_true, BlockPhase.groupDue]
    rw [hdue, here]
    refine hbook.trans ?_
    simp only [BlockPhase.groupDue, hsbi]
    split
    · push_cast
      ring
    · ring
  | settle here =>
    simp only [here, BlockPhase.groupDue, Fs.groupBook, sub_self]

/-- The same for the book of the counter. -/
theorem BlockMove.totalBook (h : (blockOwnership fs0).Agrees fs u) (move : BlockMove fs u fs' u') :
    fs'.totalBook - fs.totalBook = u'.phase.totalDue - u.phase.totalDue := by
  have hsbi : fs.sbi = fs0.sbi := h.sane.sbi
  have good : u.Ok fs0.sbi := h.good
  have hok := good.phase
  cases move with
  | newBlocks num idle => simp only [idle, BlockPhase.totalDue, sub_self]
  | giveUp here => simp only [here, BlockPhase.totalDue, sub_self]
  | tryGroup here hgroup goal meets => simp [here, BlockPhase.totalDue]
  | @access group num myRsv claimed claimed' prog prog' bits here made =>
    have hsame : Function.update fs.blockBitmap group (fs.blockBitmap group) = fs.blockBitmap :=
      Function.update_eq_self group fs.blockBitmap
    cases made with
    | look _ _ f next => simp only [here, BlockPhase.totalDue, hsame, sub_self]
    | taken _ _ i next hset => simp only [here, BlockPhase.totalDue, hsame, sub_self]
    | set _ _ i next hclear =>
      obtain ⟨hgroup, hi⟩ := BlockUser.claims h here hclear
      have hbook := Fs.totalBook_writeBit hgroup hi true
      rw [hclear] at hbook
      simp only [here, BlockPhase.totalDue, List.length_append, List.length_singleton]
      refine hbook.trans ?_
      rw [Bool.toNat_false, Bool.toNat_true]
      push_cast
      ring
  | missed here =>
    rw [here] at hok
    obtain ⟨-, -, hnone⟩ := hok
    simp [here, BlockPhase.totalDue, hnone]
  | found here =>
    rw [here] at hok
    have hlen := claimed_length hok.2
    simp only [here, BlockPhase.totalDue, hlen, sub_self]
  | systemZone here zone => exact absurd zone (BlockUser.not_in_zone h here)
  | pastEnd here past => exact absurd past (BlockUser.not_past_end h here)
  | adjust here zone inside => simp only [here, BlockPhase.totalDue, Fs.totalBook, sub_self]
  | counted here =>
    simp only [here, BlockPhase.totalDue, Fs.totalBook]
    ring
  | freeBlocks idle owned datazone => simp [idle, BlockPhase.totalDue]
  | declined read here declines => simp only [here, BlockPhase.totalDue, sub_self]
  | accepted here found zone => simp [here, BlockPhase.totalDue]
  | @clearBit block count overflow i groupFreed freed here more =>
    obtain ⟨-, hgroup, hlt, -⟩ := BlockUser.clears h here more
    rw [← hsbi] at hlt hgroup
    have hbook := Fs.totalBook_writeBit hgroup hlt false
    simp only [here, BlockPhase.totalDue]
    refine hbook.trans ?_
    cases fs.blockBitmap (fs.sbi.groupOf block) (fs.sbi.bitOf block + i) with
    | false => simp
    | true =>
      simp only [if_true]
      rw [Bool.toNat_false, Bool.toNat_true]
      push_cast
      ring
  | @adjustFreed block count overflow groupFreed freed here =>
    by_cases hz : overflow = 0
    · simp only [hz, ne_eq, not_true_eq_false, if_false, here, BlockPhase.totalDue, Fs.totalBook]
      push_cast
      ring
    · simp only [ne_eq, hz, not_false_eq_true, if_true, here, BlockPhase.totalDue, Fs.totalBook]
      push_cast
      ring
  | settle here =>
    simp only [here, BlockPhase.totalDue, Fs.totalBook]
    ring

end Ledgers

/-! ## Runs -/

/-- The files at rest, each with the blocks of its tree. -/
def Fs.atRest (fs : Fs) (files : Finset Nat) : Threads.Config files Fs BlockUser where
  shared := fs
  thread ino := ⟨(fs.fileTree ino).toFinset, ∅, .idle⟩

/-- What holds between any two steps: two files, each with what its call has claimed,
have no block in common; what is in use is metadata or belongs to a file; no call is
stuck, and once all have returned the counts are those of the bitmaps. -/
structure BlocksShared (fs : Fs) {files : Finset Nat} (c : Threads.Config files Fs BlockUser) :
    Prop where
  disjoint : ∀ i j, i ≠ j → ∀ b ∈ (c.thread i).holds fs.sbi, b ∉ (c.thread j).holds fs.sbi
  unreserved : ∀ i, ∀ b ∈ (c.thread i).holds fs.sbi, ¬ fs.Reserved b
  used_iff : ∀ b, b ∈ c.shared.used ↔ b ∈ fs.covered ∨ ∃ i, b ∈ (c.thread i).holds fs.sbi
  moves : ∀ i, ∃ fs' u', BlockMove c.shared (c.thread i) fs' u'
  settled : (∀ i, (c.thread i).phase = .idle) →
    (∀ g < fs.sbi.sGroupsCount, (c.shared.desc g).bgFreeBlocksCount.toNat =
      clearCount (c.shared.blockBitmap g) fs.sbi.sBlocksPerGroup) ∧
    c.shared.sFreeblocksCounter =
      ∑ g ∈ Finset.range fs.sbi.sGroupsCount, ((c.shared.desc g).bgFreeBlocksCount.toNat : Int)

section Runs

variable {fs : Fs} {files : Finset Nat} {c c' : Threads.Config files Fs BlockUser}

/-- The invariant of the runs. -/
structure BlocksKept (fs : Fs) (c : Threads.Config files Fs BlockUser) : Prop where
  exclusive : (blockOwnership fs).Exclusive c
  groups : ∀ g < fs.sbi.sGroupsCount,
    Ledger (fun fs => fs.groupBook g) (fun u => u.phase.groupDue fs.sbi g) c
  total : Ledger Fs.totalBook (fun u => u.phase.totalDue) c

theorem BlocksKept.step (geo : BlockGeometry fs.sbi) (h : BlocksKept fs c)
    (step : Step BlockMove c c') : BlocksKept fs c' := by
  constructor
  · exact h.exclusive.step (fun agrees move => BlockMove.obeys geo agrees move) step
  · intro g hg
    exact (h.groups g hg).step (fun {t _} move => move.groupBook (h.exclusive.agrees t) g) step
  · exact h.total.step (fun {t _} move => move.totalBook (h.exclusive.agrees t)) step

/-- The blocks of a consistent file system have one owner each. -/
theorem Fs.Consistent.atRest (geo : BlockGeometry fs.sbi) (h : fs.Consistent ↑files) :
    BlocksKept fs (fs.atRest files) := by
  have hheld : ∀ (ino : files) b, b ∈ ((fs.atRest files).thread ino).holds fs.sbi ↔
      b ∈ fs.fileTree ino := by
    intro ino b
    simp [BlockUser.holds, Fs.atRest, BlockPhase.holds]
  have hbit : ∀ b, fs.sbi.sEs.sFirstDataBlock.toNat ≤ b → fs.sbi.groupOf b < fs.sbi.sGroupsCount →
      (fs.blockBitmap (fs.sbi.groupOf b) (fs.sbi.bitOf b) = true ↔
        fs.Reserved b ∨ ∃ ino ∈ files, b ∈ fs.fileTree ino) := by
    intro b hlow hgroup
    have hiff := h.bit_iff _ hgroup (fs.sbi.bitOf b) (Nat.mod_lt _ geo.bpg_pos)
    rw [groupOf_addr hlow] at hiff
    exact hiff
  have hzone : ∀ (ino : files) b, b ∈ fs.fileTree ino →
      fs.sbi.sEs.sFirstDataBlock.toNat ≤ b ∧ fs.sbi.groupOf b < fs.sbi.sGroupsCount := by
    intro ino b hb
    have hres := h.unreserved ino ino.2 b hb
    have hlow : fs.sbi.sEs.sFirstDataBlock.toNat ≤ b := by
      by_contra hlt
      exact hres (Or.inl (by omega))
    have hhigh : b < fs.sbi.sEs.sBlocksCount.toNat := by
      by_contra hge
      exact hres (Or.inr (Or.inl (by omega)))
    obtain ⟨g, i, hg, -, hlt, -⟩ := geo.exists_bit hlow hhigh
    exact ⟨hlow, by rwa [SbInfo.groupOf, ← hg]⟩
  have hsound : (blockOwnership fs).Sound fs := by
    constructor
    · exact Fs.SamePlaces.refl fs
    · rintro b ⟨hlow, hgroup, hres⟩
      exact ⟨hlow, hgroup, (hbit b hlow hgroup).mpr (Or.inl hres)⟩
  constructor
  · constructor
    · exact hsound
    · intro ino
      constructor
      · exact hsound
      · exact ⟨trivial, Finset.disjoint_empty_right _, fun b hb => hb.elim⟩
      · intro b hb
        have htree := (hheld ino b).mp hb
        obtain ⟨hlow, hgroup⟩ := hzone ino b htree
        exact ⟨hlow, hgroup, (hbit b hlow hgroup).mpr (Or.inr ⟨ino, ino.2, htree⟩)⟩
      · intro b hb hres
        exact h.unreserved ino ino.2 b ((hheld ino b).mp hb) hres.2.2
    · intro i j hij b hi hj
      exact Multiset.disjoint_left.mp (h.disjoint i i.2 j j.2 fun heq => hij (Subtype.ext heq))
        ((hheld i b).mp hi) ((hheld j b).mp hj)
    · rintro b ⟨hlow, hgroup, hset⟩
      rcases (hbit b hlow hgroup).mp hset with hres | ⟨ino, hino, hb⟩
      · exact Or.inl ⟨hlow, hgroup, hres⟩
      · exact Or.inr ⟨⟨ino, hino⟩, (hheld ⟨ino, hino⟩ b).mpr hb⟩
  · intro g hg
    simp [Ledger, Fs.atRest, BlockPhase.groupDue, Fs.groupBook, h.groupFree g hg]
  · have hsum : fs.sFreeblocksCounter = ∑ g ∈ Finset.range fs.sbi.sGroupsCount,
        (clearCount (fs.blockBitmap g) fs.sbi.sBlocksPerGroup : Int) := by
      rw [h.counter]
      refine Finset.sum_congr rfl fun g hg => ?_
      rw [h.groupFree g (Finset.mem_range.mp hg)]
    simp [Ledger, Fs.atRest, BlockPhase.totalDue, Fs.totalBook, hsum]

/-- A call can always go on. -/
theorem BlockUser.moves {u : BlockUser} {fs0 : Fs} (h : (blockOwnership fs0).Agrees fs u) :
    ∃ fs' u', BlockMove fs u fs' u' := by
  have good : u.Ok fs0.sbi := h.good
  have hok := good.phase
  cases hphase : u.phase with
  | idle => exact ⟨_, _, .newBlocks 1 hphase⟩
  | searching num => exact ⟨_, _, .giveUp hphase⟩
  | claiming group num myRsv claimed prog =>
    rw [hphase] at hok
    have hnext : (∃ after, Access ⟨fs.blockBitmap group, claimed, prog⟩ after) ∨ _ := hok.2.progress
    rcases hnext with ⟨⟨bits, own, next⟩, hmade⟩ | ⟨result, hret, -⟩
    · exact ⟨_, _, .access hphase hmade⟩
    · obtain ⟨found, n⟩ := result
      subst hret
      cases found with
      | none => exact ⟨_, _, .missed hphase⟩
      | some first => exact ⟨_, _, .found hphase⟩
  | allocated group first num =>
    by_cases hzone : inSystemZone fs.sbi (fs.desc group)
        (first + fs.sbi.groupFirstBlockNo group) num = true
    · exact ⟨_, _, .systemZone hphase hzone⟩
    · by_cases hpast : fs.sbi.sEs.sBlocksCount.toNat ≤
          first + fs.sbi.groupFirstBlockNo group + num - 1
      · exact ⟨_, _, .pastEnd hphase hpast⟩
      · exact ⟨_, _, .adjust hphase (Bool.not_eq_true _ ▸ hzone) (Nat.not_le.mp hpast)⟩
  | adjusted group first num => exact ⟨_, _, .counted hphase⟩
  | doMore block count freed => exact ⟨_, _, .declined false hphase (by simp)⟩
  | clearing block count overflow i groupFreed freed =>
    rw [hphase] at hok
    rcases Nat.eq_or_lt_of_le hok.2.1 with rfl | hlt
    · exact ⟨_, _, .adjustFreed hphase⟩
    · exact ⟨_, _, .clearBit hphase hlt⟩
  | settling freed => exact ⟨_, _, .settle hphase⟩

theorem BlocksKept.shared (geo : BlockGeometry fs.sbi) (h : BlocksKept fs c) :
    BlocksShared fs c := by
  constructor
  · exact h.exclusive.disjoint
  · intro i b hb hres
    have agrees := h.exclusive.agrees i
    obtain ⟨hlow, hgroup, -⟩ : b ∈ c.shared.used := agrees.used hb
    rw [agrees.sane.sbi] at hlow hgroup
    exact agrees.apart b hb ⟨hlow, hgroup, hres⟩
  · intro b
    constructor
    · exact h.exclusive.covered b
    · rintro (hres | ⟨i, hi⟩)
      · exact h.exclusive.sound.pool hres
      · exact (h.exclusive.agrees i).used hi
  · exact fun i => BlockUser.moves (h.exclusive.agrees i)
  · intro hidle
    have hsbi : c.shared.sbi = fs.sbi := h.exclusive.sound.sane.sbi
    have hgroup : ∀ g < fs.sbi.sGroupsCount, (c.shared.desc g).bgFreeBlocksCount.toNat =
        clearCount (c.shared.blockBitmap g) fs.sbi.sBlocksPerGroup := by
      intro g hg
      have hbook := (h.groups g hg).settled fun i => by simp only [hidle i, BlockPhase.groupDue]
      simp only [Fs.groupBook, hsbi, sub_eq_zero] at hbook
      -- both numbers are below the width of the count
      have hclear := clearCount_le (c.shared.blockBitmap g) fs.sbi.sBlocksPerGroup
      have hwidth := geo.bpg_lt
      have hcount := (c.shared.desc g).bgFreeBlocksCount.toNat_lt
      rw [ZMod.natCast_eq_natCast_iff', Nat.mod_eq_of_lt (by omega),
        Nat.mod_eq_of_lt (by omega)] at hbook
      exact hbook.symm
    have htotal := h.total.settled fun i => by simp only [hidle i, BlockPhase.totalDue]
    simp only [Fs.totalBook, hsbi, sub_eq_zero] at htotal
    refine ⟨hgroup, ?_⟩
    rw [← htotal]
    refine Finset.sum_congr rfl fun g hg => ?_
    rw [hgroup g (Finset.mem_range.mp hg)]

/-- In every interleaving of calls for any files, on a mounted file system with blocks of
at most 4 KiB that was consistent at the start, each block has one owner, no call is
stuck, and the counts are right whenever no call is under way. -/
theorem blockThreads_shared {k : MountEnv} {es : SuperBlock} (accepted : krFillSuper k es = .ok fs.sbi)
    (hsize : fs.sbi.sBlocksize ≤ 4096) (h : fs.Consistent ↑files)
    (run : Run BlockMove (fs.atRest files) c) : BlocksShared fs c := by
  have geo := blockGeometry_of_krFillSuper accepted hsize
  have hkept : BlocksKept fs c := by
    induction run with
    | refl => exact h.atRest geo
    | tail _ step ih => exact ih.step geo step
  exact hkept.shared geo

/-- Files without blocks, however many. -/
theorem tinyFs_consistent_any (files : Set Nat) : tinyFs.Consistent files := by
  have h := tinyFs_consistent
  constructor
  · exact h.groupFree
  · exact h.counter
  · exact h.reserved_set
  · intro g hg i hi
    have hiff := h.bit_iff g hg i hi
    simp only [fileTree_tinyFs, Multiset.notMem_zero, and_false, exists_false, or_false] at hiff ⊢
    exact hiff
  · simp [fileTree_tinyFs]
  · simp [fileTree_tinyFs]
  · simp [fileTree_tinyFs]
  · simp only [fileTree_tinyFs]
    exact fun _ _ => rfl

/-- Two files want the same free block. The second one finds its bit set and takes the
next block. -/
theorem blockThreads_shared_two : ∃ c, Run BlockMove (tinyFs.atRest {12, 13}) c ∧
    (c.thread ⟨12, by decide⟩).phase = .allocated 0 6 1 ∧
    (c.thread ⟨13, by decide⟩).phase = .allocated 0 7 1 ∧ BlocksShared tinyFs c := by
  let a : ({12, 13} : Finset Nat) := ⟨12, by decide⟩
  let b : ({12, 13} : Finset Nat) := ⟨13, by decide⟩
  have asked : Run BlockMove (tinyFs.atRest {12, 13}) _ :=
    (Relation.ReflTransGen.single (Step.of_move a (.newBlocks 1 rfl))).tail
      (Step.of_move b (.newBlocks 1 rfl))
  have tried := (asked.tail (Step.of_move a (@BlockMove.tryGroup _ _ 1 0 6 none rfl (by decide)
    (by decide) fun w hw => by cases hw))).tail (Step.of_move b
      (@BlockMove.tryGroup _ _ 1 0 6 none rfl (by decide) (by decide) fun w hw => by cases hw))
  have first := tried.tail (Step.of_move a (.access rfl (.set _ [] 6 _ rfl)))
  have missed := first.tail (Step.of_move b (.access rfl (.taken _ [] 6 _ rfl)))
  have second := missed.tail (Step.of_move b (.access rfl (.set _ [] 7 _ rfl)))
  have run := (second.tail (Step.of_move a (.found rfl))).tail (Step.of_move b (.found rfl))
  exact ⟨_, run, rfl, rfl, blockThreads_shared krFillSuper_tinyImage (by decide)
    (tinyFs_consistent_any _) run⟩

end Runs

/-! ## What is freed where the bitmaps can be read -/

/-- A step in which `kr_free_blocks` gives up its range for what the bitmaps and descriptors say, if
at all: the bitmap could be read. -/
def BitmapRead (fs : Fs) (u u' : BlockUser) : Prop :=
  ∀ block count freed, u.phase = .doMore block count freed → u'.phase = .settling freed →
    ∀ desc, fs.groupDesc (fs.sbi.groupOf block) = some desc →
      inSystemZone fs.sbi desc block (count - overflowOf fs.sbi block count) = true

/-- Such a step frees what a file gives up. -/
theorem BlockMove.lost_eq {fs0 : Fs} {fs' : Fs} {u u' : BlockUser} (geo : BlockGeometry fs0.sbi)
    (h : (blockOwnership fs0).Agrees fs u) (move : BlockMove fs u fs' u')
    (read : BitmapRead fs u u') : u'.lost = u.lost := by
  cases move with
  | @declined block count freed _ here declines =>
    have hsbi : fs.sbi = fs0.sbi := h.sane.sbi
    rcases Nat.eq_zero_or_pos count with rfl | hpos
    · simp
    -- the blocks are held by the call, so they lie in a group and are no metadata
    have hheld : ∀ b, block ≤ b → b < block + count → b ∈ u.phase.holds fs0.sbi := by
      intro b h1 h2
      rw [here]
      exact ⟨h1, h2⟩
    obtain ⟨-, hgroup, -⟩ : block ∈ fs.used :=
      h.used (Or.inr (hheld block le_rfl (Nat.lt_add_of_pos_right hpos)))
    have hdesc : fs.groupDesc (fs.sbi.groupOf block) = some (fs.desc (fs.sbi.groupOf block)) :=
      groupDesc_of_lt hgroup
    have hzone := read block count freed here rfl _ hdesc
    rw [hsbi] at hzone hgroup
    obtain ⟨hle, hend⟩ := overflowOf_le geo block count
    have hbit : fs0.sbi.bitOf block < fs0.sbi.sBlocksPerGroup := Nat.mod_lt _ geo.bpg_pos
    have hnone : inSystemZone fs0.sbi (fs.desc (fs0.sbi.groupOf block)) block
        (count - overflowOf fs0.sbi block count) = false := by
      refine inSystemZone_eq_false ?_ fun b h1 h2 hsystem => ?_
      · unfold overflowOf
        split
        · omega
        · omega
      · exact BlockUser.not_reserved h (hheld b h1 (by omega)) (h.sane.system hgroup hsystem)
    rw [hnone] at hzone
    cases hzone
  | newBlocks => rfl
  | giveUp => rfl
  | tryGroup => rfl
  | access => rfl
  | missed => rfl
  | found => rfl
  | systemZone => rfl
  | pastEnd => rfl
  | adjust => rfl
  | counted => rfl
  | freeBlocks => rfl
  | accepted => rfl
  | clearBit => rfl
  | adjustFreed => rfl
  | settle => rfl

/-- In every interleaving in which the bitmaps can be read no block is lost. -/
theorem blockThreads_nothing_lost {fs : Fs} {files : Finset Nat}
    {c : Threads.Config files Fs BlockUser} {k : MountEnv} {es : SuperBlock}
    (accepted : krFillSuper k es = .ok fs.sbi) (hsize : fs.sbi.sBlocksize ≤ 4096)
    (h : fs.Consistent ↑files)
    (run : Run (fun fs u fs' u' => BlockMove fs u fs' u' ∧ BitmapRead fs u u')
      (fs.atRest files) c) : ∀ i, (c.thread i).lost = ∅ := by
  have geo := blockGeometry_of_krFillSuper accepted hsize
  have hkept : BlocksKept fs c ∧ ∀ i, (c.thread i).lost = ∅ := by
    induction run with
    | refl => exact ⟨h.atRest geo, fun i => rfl⟩
    | tail _ step ih =>
      obtain ⟨t, u', ⟨hmove, hread⟩, hthread⟩ := step
      refine ⟨ih.1.step geo ⟨t, u', hmove, hthread⟩, fun i => ?_⟩
      rw [hthread]
      by_cases hi : i = t
      · subst hi
        rw [Function.update_self, hmove.lost_eq geo (ih.1.exclusive.agrees i) hread]
        exact ih.2 i
      · rw [Function.update_of_ne hi]
        exact ih.2 i
  exact hkept.2

/-! ## A call without others is the sequential one -/

section Alone

variable {fs : Fs} {u : BlockUser}

theorem BlockMove.once {fs' : Fs} {u' : BlockUser} (h : BlockMove fs u fs' u') :
    Alone BlockMove (fs, u) (fs', u') :=
  .single h

/-- The accesses of a try with nobody else around. -/
theorem claiming_moves {group num : Nat} {myRsv : Option ReserveWindowNode}
    {prog : Prog Nat (Option Nat × Nat)} {claimed : List Nat} {result : Option Nat × Nat}
    {bits : Nat → Bool} (hphase : u.phase = .claiming group num myRsv claimed prog)
    (halone : prog.alone (fs.blockBitmap group) = some (result, bits)) :
    ∃ claimed', Alone BlockMove (fs, u)
      ({ fs with blockBitmap := Function.update fs.blockBitmap group bits },
        { u with phase := .claiming group num myRsv claimed' (.ret result) }) := by
  let reached (c : Interference.Config Nat (Option Nat × Nat)) : Prop := Alone BlockMove (fs, u)
    ({ fs with blockBitmap := Function.update fs.blockBitmap group c.bits },
      { u with phase := .claiming group num myRsv c.own c.prog })
  have hstart : reached ⟨fs.blockBitmap group, claimed, prog⟩ := by
    simp only [reached, Function.update_eq_self, ← hphase]
    exact .refl
  have hstep : ∀ {c c'}, reached c → Access c c' → reached c' := by
    intro c c' here made
    have hmove := @BlockMove.access
      { fs with blockBitmap := Function.update fs.blockBitmap group c.bits }
      { u with phase := .claiming group num myRsv c.own c.prog } group num myRsv c.own c'.own c.prog
      c'.prog c'.bits rfl (by simpa only [Function.update_self] using made)
    simp only [Function.update_idem] at hmove
    exact here.trans hmove.once
  exact Prog.alone_keeps hstep halone hstart

/-- A try of `kr_new_blocks` in a group, as the sequential model has it. -/
theorem krTryToAllocate_moves {num group : Nat} {grpGoal : Int} {myRsv : Option ReserveWindowNode}
    (hphase : u.phase = .searching num) (hgroup : group < fs.sbi.sGroupsCount)
    (hbpg : 0 < fs.sbi.sBlocksPerGroup) (hgoal : grpGoal < fs.sbi.sBlocksPerGroup)
    (hmeets : ∀ w, myRsv = some w → MeetsGroup fs.sbi w group) {bits : Nat → Bool}
    {result : Option Nat × Nat}
    (h : krTryToAllocate fs.sbi group (fs.blockBitmap group) grpGoal num myRsv =
      .done (bits, result)) :
    ∃ claimed, Alone BlockMove (fs, u)
      ({ fs with blockBitmap := Function.update fs.blockBitmap group bits },
        { u with phase := .claiming group num myRsv claimed (.ret result) }) := by
  have halone := Interleaved.krTryToAllocate_alone (fs.blockBitmap group) hbpg hgoal hmeets
    (le_refl _) h
  have hmove := BlockMove.tryGroup hphase hgroup hgoal hmeets
  obtain ⟨claimed, hrest⟩ := @claiming_moves fs
    { u with
      phase := .claiming group num myRsv []
        (Interleaved.krTryToAllocate fs.sbi fs.sbi.sBlocksPerGroup group grpGoal num myRsv) }
    group num myRsv _ [] result bits rfl halone
  exact ⟨claimed, hmove.once.trans hrest⟩

/-- The loop over the bits of one group. -/
theorem clearing_moves {block count overflow freed : Nat}
    (hphase : u.phase = .clearing block count overflow 0 0 freed) : ∀ n, n ≤ count →
    Alone BlockMove (fs, u)
      ({ fs with
        blockBitmap := Function.update fs.blockBitmap (fs.sbi.groupOf block)
          (clearBits (fs.blockBitmap (fs.sbi.groupOf block)) (fs.sbi.bitOf block) n).1 },
        { u with
          phase := .clearing block count overflow n
            (clearBits (fs.blockBitmap (fs.sbi.groupOf block)) (fs.sbi.bitOf block) n).2 freed }) := by
  intro n
  induction n with
  | zero =>
    intro _
    simp only [clearBits, Function.update_eq_self, ← hphase]
    exact .refl
  | succ n ih =>
    intro hn
    refine (ih (by omega)).tail ?_
    obtain ⟨bm, k, hclear⟩ : ∃ bm k, clearBits (fs.blockBitmap (fs.sbi.groupOf block))
        (fs.sbi.bitOf block) n = (bm, k) := ⟨_, _, rfl⟩
    have hmove := @BlockMove.clearBit
      { fs with blockBitmap := Function.update fs.blockBitmap (fs.sbi.groupOf block) bm }
      { u with phase := .clearing block count overflow n k freed } block count overflow n k freed
      rfl (by omega)
    rw [clearBits_succ, hclear]
    simp only [Fs.writeBit, Function.update_self, Function.update_idem] at hmove ⊢
    by_cases hset : bm (fs.sbi.bitOf block + n) = true
    · simpa only [hset, if_true] using hmove
    · have hsame : Function.update bm (fs.sbi.bitOf block + n) false = bm := by
        rw [Function.update_eq_self_iff]
        simpa using hset
      rw [if_neg hset]
      rw [if_neg hset, hsame] at hmove
      exact hmove

/-- The rounds of `do_more`. -/
theorem doMore_moves (readBitmap : Nat → Bool) (fuel : Nat) : ∀ {fs : Fs} {u : BlockUser}
      {block count freed : Nat}, 0 < fs.sbi.sBlocksPerGroup → count < fuel →
    u.phase = .doMore block count freed →
    ∃ lost, Alone BlockMove (fs, u) ((freeBlocksLoop readBitmap fuel fs block count freed).1,
      { u with
        lost := lost
        phase := .settling (freeBlocksLoop readBitmap fuel fs block count freed).2 }) := by
  induction fuel with
  | zero =>
    intro fs u block count freed _ hfuel
    omega
  | succ fuel ih =>
    intro fs u block count freed hbpg hfuel hphase
    have hloop : freeBlocksLoop readBitmap (fuel + 1) fs block count freed =
        if !readBitmap (fs.sbi.groupOf block) then (fs, freed)
        else match fs.groupDesc (fs.sbi.groupOf block) with
          | none => (fs, freed)
          | some desc =>
            if inSystemZone fs.sbi desc block (count - overflowOf fs.sbi block count) then (fs, freed)
            else
              let freedHere := freeInGroup fs (fs.sbi.groupOf block) (fs.sbi.bitOf block)
                (count - overflowOf fs.sbi block count)
              if overflowOf fs.sbi block count ≠ 0 then
                freeBlocksLoop readBitmap fuel freedHere.1
                  (block + (count - overflowOf fs.sbi block count)) (overflowOf fs.sbi block count)
                  (freed + freedHere.2)
              else (freedHere.1, freed + freedHere.2) := rfl
    rw [hloop]
    by_cases hread : readBitmap (fs.sbi.groupOf block) = true
    · simp only [hread, Bool.not_true, Bool.false_eq_true, if_false]
      cases hdesc : fs.groupDesc (fs.sbi.groupOf block) with
      | none => exact ⟨_, (BlockMove.declined true hphase (by simp [hdesc])).once⟩
      | some desc =>
        by_cases hzone : inSystemZone fs.sbi desc block
            (count - overflowOf fs.sbi block count) = true
        · simp only [hzone, if_true]
          exact ⟨_, (BlockMove.declined true hphase (by simp [hdesc, hzone])).once⟩
        · simp only [hzone, Bool.false_eq_true, if_false]
          obtain ⟨part, hpart⟩ : ∃ part, part = count - overflowOf fs.sbi block count := ⟨_, rfl⟩
          have haccept := BlockMove.accepted hphase hdesc (Bool.not_eq_true _ ▸ hzone)
          rw [← hpart] at haccept ⊢
          have hclear := @clearing_moves fs
            { u with phase := .clearing block part (overflowOf fs.sbi block count) 0 0 freed }
            block part (overflowOf fs.sbi block count) freed rfl part (le_refl part)
          obtain ⟨bm, n, hbits⟩ : ∃ bm n, clearBits (fs.blockBitmap (fs.sbi.groupOf block))
              (fs.sbi.bitOf block) part = (bm, n) := ⟨_, _, rfl⟩
          have hfree : freeInGroup fs (fs.sbi.groupOf block) (fs.sbi.bitOf block) part =
              ({ fs with
                blockBitmap := Function.update fs.blockBitmap (fs.sbi.groupOf block) bm
                desc := Function.update fs.desc (fs.sbi.groupOf block)
                  (groupAdjustBlocks (fs.desc (fs.sbi.groupOf block)) n) }, n) := by
            rw [freeInGroup, hbits]
          have hadjust := @BlockMove.adjustFreed
            { fs with blockBitmap := Function.update fs.blockBitmap (fs.sbi.groupOf block) bm }
            { u with phase := .clearing block part (overflowOf fs.sbi block count) part n freed }
            block part (overflowOf fs.sbi block count) n freed rfl
          rw [hbits] at hclear
          dsimp only at hclear hadjust
          have hgroup := (haccept.once.trans hclear).trans hadjust.once
          rw [hfree]
          by_cases hover : overflowOf fs.sbi block count = 0
          · simp only [hover, ne_eq, not_true_eq_false, if_false] at hgroup ⊢
            exact ⟨_, hgroup⟩
          · have hless : overflowOf fs.sbi block count < fuel := by
              have hbit : fs.sbi.bitOf block < fs.sbi.sBlocksPerGroup := Nat.mod_lt _ hbpg
              unfold overflowOf at hover ⊢
              split at hover
              · rw [if_pos ‹_›]
                omega
              · exact absurd rfl hover
            simp only [ne_eq, hover, not_false_eq_true, if_true] at hgroup ⊢
            obtain ⟨lost, hrest⟩ := @ih
              { fs with
                blockBitmap := Function.update fs.blockBitmap (fs.sbi.groupOf block) bm
                desc := Function.update fs.desc (fs.sbi.groupOf block)
                  (groupAdjustBlocks (fs.desc (fs.sbi.groupOf block)) n) }
              { u with phase := .doMore (block + part) (overflowOf fs.sbi block count) (freed + n) }
              (block + part) (overflowOf fs.sbi block count) (freed + n) hbpg hless rfl
            exact ⟨lost, hgroup.trans hrest⟩
    · simp only [hread, Bool.not_false, if_true]
      exact ⟨_, (BlockMove.declined false hphase (by simp)).once⟩

/-- `kr_free_blocks` without others. The sequential model also takes the sectors off the
inode. -/
theorem krFreeBlocks_moves (readBitmap : Nat → Bool) (ino : Nat) {block count : Nat}
    (hbpg : 0 < fs.sbi.sBlocksPerGroup) (hphase : u.phase = .idle)
    (howned : Finset.Ico block (block + count) ⊆ u.blocks)
    (hzone : outsideDatazone fs.sbi block count = false) :
    ∃ lost, Alone BlockMove (fs, u)
      ({ krFreeBlocks readBitmap fs ino block count with inode := fs.inode },
        ⟨u.blocks \ Finset.Ico block (block + count), lost, .idle⟩) := by
  have hstart := BlockMove.freeBlocks hphase howned hzone
  obtain ⟨lost, hloop⟩ := @doMore_moves readBitmap (count + 1) fs
    ⟨u.blocks \ Finset.Ico block (block + count), u.lost, .doMore block count 0⟩ block count 0 hbpg
    (Nat.lt_succ_self count) rfl
  obtain ⟨fs1, freed, hres⟩ : ∃ fs1 freed,
      freeBlocksLoop readBitmap (count + 1) fs block count 0 = (fs1, freed) := ⟨_, _, rfl⟩
  have hinode : fs1.inode = fs.inode := by
    have hframe := freeBlocksLoop_frame readBitmap (count + 1) fs block count 0
    rw [hres] at hframe
    exact hframe.2
  have hend := @BlockMove.settle fs1
    ⟨u.blocks \ Finset.Ico block (block + count), lost, .settling freed⟩ freed rfl
  rw [hres] at hloop
  refine ⟨lost, (hstart.once.trans hloop).trans (BlockMove.once ?_)⟩
  unfold outsideDatazone at hzone
  simp only [krFreeBlocks, hzone, Bool.false_eq_true, if_false, hres]
  by_cases hfreed : freed = 0
  · simpa [hfreed, ← hinode] using hend
  · simpa [hfreed, ← hinode, Fs.settleFreed, Fs.chargeBlocks] using hend

end Alone

end KrFs
