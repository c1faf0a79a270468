import KrFs.NoSpace

/-!
# Every allocation ends

The fuel of the model stands for the rounds of the loops `retry_alloc`, `while (1)`
and `retry`. A run that ends with some fuel ends in the same way with more, so a
call has one outcome, and the measure of `retry_alloc` (the clear bits left, and
whether reservations are still on) gives a bound for all of them.
-/

namespace KrFs

open SearchTree Bitmap

/-- Whatever the first run ends with, the second ends with it too. -/
def Exec.Continues {α : Type} (x y : Exec α) : Prop := ∀ a, x = .done a → y = .done a

namespace Exec.Continues

variable {α β : Type} {x y : Exec α}

theorem refl (x : Exec α) : x.Continues x := fun _ h => h

theorem running (y : Exec α) : Exec.running.Continues y := fun _ h => nomatch h

theorem bind {f g : α → Exec β} (h : x.Continues y) (hf : ∀ a, (f a).Continues (g a)) :
    (x.bind f).Continues (y.bind g) := by
  intro b hb
  cases x with
  | done a =>
    rw [h a rfl]
    exact hf a b hb
  | bug => cases hb
  | running => cases hb

end Exec.Continues

section Fuel

variable (ops : Rebalance Window) (env : AllocEnv) (ino : Nat)

theorem withRsvRun_continues (sbi : SbInfo) (me : Window) (bm : Nat → Bool) (fuel : Nat) :
    ∀ {fuel' : Nat} (r : Rsv) (phase : RsvPhase), fuel ≤ fuel' →
    (withRsvRun ops sbi me bm fuel r phase).Continues
      (withRsvRun ops sbi me bm fuel' r phase) := by
  induction fuel with
  | zero =>
    intro fuel' r phase _
    simp only [withRsvRun]
    exact Exec.Continues.running _
  | succ fuel ih =>
    intro fuel' r phase hle
    obtain ⟨fuel', rfl⟩ : ∃ n, fuel' = n + 1 := ⟨fuel' - 1, by omega⟩
    have hle' : fuel ≤ fuel' := by omega
    cases phase with
    | idle => exact Exec.Continues.refl _
    | bug => exact Exec.Continues.refl _
    | loop req failed => exact ih _ _ hle'
    | reserve req startBlock again => exact ih _ _ hle'
    | inspect req => exact ih _ _ hle'
    | giveUp => exact ih _ _ hle'
    | extend req size => exact ih _ _ hle'
    | allocate req =>
      simp only [withRsvRun]
      split
      · exact Exec.Continues.refl _
      · refine (Exec.Continues.refl _).bind ?_
        rintro ⟨bm', found, num⟩
        cases found with
        | some first => exact Exec.Continues.refl _
        | none => exact ih _ _ hle'

variable {fuel fuel' : Nat} (hle : fuel ≤ fuel')

include hle

theorem tryGroup_continues (fs : Fs) (useRsv : Bool) (group : Nat) (grpGoal : Int) (num : Nat) :
    (tryGroup ops ino fuel fs useRsv group grpGoal num).Continues
      (tryGroup ops ino fuel' fs useRsv group grpGoal num) := by
  unfold tryGroup
  cases useRsv with
  | true => exact (withRsvRun_continues ops _ _ _ _ _ _ hle).bind fun _ => Exec.Continues.refl _
  | false => exact Exec.Continues.refl _

theorem searchGroups_continues (useRsv : Bool) (windowsz n : Nat) : ∀ (fs : Fs) (groupNo num : Nat),
    (searchGroups ops env ino fuel useRsv windowsz n fs groupNo num).Continues
      (searchGroups ops env ino fuel' useRsv windowsz n fs groupNo num) := by
  induction n with
  | zero => exact fun _ _ _ => Exec.Continues.refl _
  | succ n ih =>
    intro fs groupNo num
    unfold searchGroups
    dsimp only
    generalize (if fs.sbi.sGroupsCount ≤ groupNo + 1 then 0 else groupNo + 1) = group
    split
    · exact Exec.Continues.refl _
    split
    · exact ih _ _ _
    split
    · exact ih _ _ _
    split
    · exact Exec.Continues.refl _
    · refine (tryGroup_continues ops ino hle _ _ _ _ _).bind ?_
      rintro ⟨fs1, found, num1⟩
      cases found with
      | some first => exact Exec.Continues.refl _
      | none => exact ih _ _ _

theorem searchFrom_continues (fs : Fs) (goal groupNo : Nat) (useRsv : Bool) (windowsz num : Nat) :
    (searchFrom ops env ino fuel fs goal groupNo useRsv windowsz num).Continues
      (searchFrom ops env ino fuel' fs goal groupNo useRsv windowsz num) := by
  unfold searchFrom
  split
  · exact Exec.Continues.refl _
  split
  · exact searchGroups_continues ops env ino hle _ _ _ _ _ _
  split
  · exact Exec.Continues.refl _
  · refine (tryGroup_continues ops ino hle _ _ _ _ _).bind ?_
    rintro ⟨fs1, found, num1⟩
    cases found with
    | some first => exact Exec.Continues.refl _
    | none => exact searchGroups_continues ops env ino hle _ _ _ _ _ _

theorem retryAlloc_continues (goal goalGroup rounds : Nat) :
    ∀ {rounds' : Nat} (fs : Fs) (groupNo : Nat) (useRsv : Bool) (windowsz num : Nat),
    rounds ≤ rounds' →
    (retryAlloc ops env ino fuel goal goalGroup rounds fs groupNo useRsv windowsz num).Continues
      (retryAlloc ops env ino fuel' goal goalGroup rounds' fs groupNo useRsv windowsz num) := by
  induction rounds with
  | zero => exact fun _ _ _ _ _ _ => Exec.Continues.running _
  | succ rounds ih =>
    intro rounds' fs groupNo useRsv windowsz num hrounds
    obtain ⟨rounds', rfl⟩ : ∃ n, rounds' = n + 1 := ⟨rounds' - 1, by omega⟩
    have hrounds' : rounds ≤ rounds' := by omega
    unfold retryAlloc
    refine (searchFrom_continues ops env ino hle _ _ _ _ _ _).bind ?_
    rintro ⟨fs1, result⟩
    cases result with
    | ioError => exact Exec.Continues.refl _
    | missed num' =>
      dsimp only
      split
      · exact ih _ _ _ _ _ hrounds'
      · exact Exec.Continues.refl _
    | found group first num' =>
      dsimp only
      split
      · exact ih _ _ _ _ _ hrounds'
      · exact Exec.Continues.refl _

theorem krNewBlocks_continues (fs : Fs) (goal count : Nat) :
    (krNewBlocks ops env ino fuel fs goal count).Continues
      (krNewBlocks ops env ino fuel' fs goal count) := by
  unfold krNewBlocks
  split
  · exact Exec.Continues.refl _
  dsimp only
  split
  · exact Exec.Continues.refl _
  · exact (retryAlloc_continues ops env ino hle _ _ _ _ _ _ _ _ hle).bind
      fun _ => Exec.Continues.refl _

end Fuel

/-- In a mounted file system, whatever the bitmaps and the descriptors hold, a
call of `kr_new_blocks` has an outcome, and every run with the fuel for one image
comes to it. -/
theorem krNewBlocks_ends (ops : Rebalance Window) (env : AllocEnv) (ino : Nat) {fs : Fs}
    {k : MountEnv} {es : SuperBlock} (accepted : krFillSuper k es = .ok fs.sbi)
    (hwf : fs.rsv.Wf) (goal count : Nat) :
    ∃ fs' result, ∀ fuel, fs.sbi.allocFuel ≤ fuel →
      krNewBlocks ops env ino fuel fs goal count = .done (fs', result) := by
  have hbpg : 0 < fs.sbi.sBlocksPerGroup := blocksPerGroup_pos_of_krFillSuper accepted
  obtain ⟨fs', result, hrun, -⟩ := krNewBlocks_returns ops env ino hbpg hwf (le_refl _) goal count
  exact ⟨fs', result, fun fuel hle => krNewBlocks_continues ops env ino hle fs goal count _ hrun⟩

/-- A request with a goal past the end of the image. -/
theorem krNewBlocks_ends_past_end : ∃ fs' result, ∀ fuel, 56 ≤ fuel →
    krNewBlocks Rebalance.plain reserveEnv 12 fuel reserveFs 1000 4 = .done (fs', result) := by
  have hfuel : reserveFs.sbi.allocFuel = 56 := by decide
  rw [← hfuel]
  exact krNewBlocks_ends Rebalance.plain reserveEnv 12 krFillSuper_reserveImage
    reserveFs_counted.windows 1000 4

end KrFs
