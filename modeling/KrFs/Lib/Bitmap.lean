import Mathlib.Data.Finset.Card
import Mathlib.Order.Interval.Finset.Nat

/-!
# Bitmaps

A bitmap is a function from bit numbers to bits. The searches return the limit
when they find nothing, as the bit operations of a kernel do.
-/

namespace Bitmap

/-- The first clear bit from `i` on among the next `n` bits, or `i + n`. -/
def firstClear (bm : Nat → Bool) : Nat → Nat → Nat
  | 0, i => i
  | n + 1, i => if bm i then firstClear bm n (i + 1) else i

/-- The first clear bit of `[off, size)`, or `size`. -/
def nextZero (bm : Nat → Bool) (size off : Nat) : Nat :=
  if off < size then firstClear bm (size - off) off else size

theorem firstClear_spec (bm : Nat → Bool) (n : Nat) : ∀ i,
    i ≤ firstClear bm n i ∧ firstClear bm n i ≤ i + n ∧
      (firstClear bm n i < i + n → bm (firstClear bm n i) = false) ∧
      ∀ j, i ≤ j → j < firstClear bm n i → bm j = true := by
  induction n with
  | zero =>
    intro i
    simp only [firstClear]
    exact ⟨le_refl _, le_refl _, by omega, by omega⟩
  | succ n ih =>
    intro i
    by_cases hi : bm i = true
    · obtain ⟨hge, hle, hclear, hset⟩ := ih (i + 1)
      simp only [firstClear, hi, if_true]
      refine ⟨by omega, by omega, fun hlt => hclear (by omega), ?_⟩
      intro j hj hlt
      by_cases hji : j = i
      · rwa [hji]
      · exact hset j (by omega) hlt
    · simp only [firstClear, hi]
      exact ⟨le_refl _, by simp, fun _ => by simpa using hi, by simp; omega⟩

theorem nextZero_spec (bm : Nat → Bool) (size off : Nat) :
    nextZero bm size off ≤ size ∧
      (nextZero bm size off < size → off ≤ nextZero bm size off ∧
        bm (nextZero bm size off) = false) ∧
      ∀ j, off ≤ j → j < nextZero bm size off → bm j = true := by
  unfold nextZero
  by_cases h : off < size
  · obtain ⟨hge, hle, hclear, hset⟩ := firstClear_spec bm (size - off) off
    simp only [h, if_true]
    exact ⟨by omega, fun hlt => ⟨hge, hclear (by omega)⟩, hset⟩
  · simp only [h, if_false]
    exact ⟨le_refl _, by omega, by omega⟩

/-! ## Counting clear bits -/

/-- The number of clear bits below `n`. -/
def clearCount (bm : Nat → Bool) (n : Nat) : Nat :=
  ((Finset.range n).filter fun i => bm i = false).card

theorem clearCount_le (bm : Nat → Bool) (n : Nat) : clearCount bm n ≤ n := by
  simpa [clearCount] using Finset.card_filter_le (Finset.range n) fun i => bm i = false

/-- Two bitmaps that differ in a run of `k` bits, clear in the first and set in
the second. -/
theorem clearCount_run {bm bm' : Nat → Bool} {n p k : Nat} (hrange : p + k ≤ n)
    (hclear : ∀ i, p ≤ i → i < p + k → bm i = false)
    (hset : ∀ i, p ≤ i → i < p + k → bm' i = true)
    (hsame : ∀ i, ¬ (p ≤ i ∧ i < p + k) → bm' i = bm i) :
    clearCount bm' n + k = clearCount bm n := by
  have hsplit : (Finset.range n).filter (fun i => bm i = false) =
      (Finset.range n).filter (fun i => bm' i = false) ∪ Finset.Ico p (p + k) := by
    ext i
    simp only [Finset.mem_filter, Finset.mem_range, Finset.mem_union, Finset.mem_Ico]
    by_cases hi : p ≤ i ∧ i < p + k
    · have h1 := hclear i hi.1 hi.2
      have h2 := hset i hi.1 hi.2
      simp [h1, h2, hi]
      omega
    · rw [hsame i hi]
      simp [hi]
  have hdisj : Disjoint ((Finset.range n).filter fun i => bm' i = false) (Finset.Ico p (p + k)) := by
    rw [Finset.disjoint_left]
    intro i hi hmem
    have hi' := (Finset.mem_filter.mp hi).2
    obtain ⟨h1, h2⟩ := Finset.mem_Ico.mp hmem
    rw [hset i h1 h2] at hi'
    cases hi'
  rw [clearCount, clearCount, hsplit, Finset.card_union_of_disjoint hdisj, Nat.card_Ico]
  omega

/-- Clearing some of the set bits adds them to the clear ones. -/
theorem clearCount_cleared {bm bm' : Nat → Bool} {n : Nat} {p : Nat → Prop} [DecidablePred p]
    (hset : ∀ i < n, p i → bm i = true) (h : ∀ i < n, (bm' i = true ↔ bm i = true ∧ ¬ p i)) :
    clearCount bm' n = clearCount bm n + ((Finset.range n).filter p).card := by
  have hsplit : (Finset.range n).filter (fun i => bm' i = false) =
      (Finset.range n).filter (fun i => bm i = false) ∪ (Finset.range n).filter p := by
    ext i
    simp only [Finset.mem_filter, Finset.mem_range, Finset.mem_union, ← and_or_left,
      and_congr_right_iff]
    intro hi
    rw [← Bool.not_eq_true, h i hi, ← Bool.not_eq_true, not_and_or, not_not]
  have hdisj : Disjoint ((Finset.range n).filter fun i => bm i = false)
      ((Finset.range n).filter p) := by
    rw [Finset.disjoint_left]
    intro i hclear hp
    obtain ⟨hi, hp⟩ := Finset.mem_filter.mp hp
    have hbit := hset i (Finset.mem_range.mp hi) hp
    rw [(Finset.mem_filter.mp hclear).2] at hbit
    cases hbit
  rw [clearCount, clearCount, hsplit, Finset.card_union_of_disjoint hdisj]

/-- Set bits leave that much less room for clear ones. -/
theorem clearCount_add_le {bm : Nat → Bool} {n p k : Nat} (hrange : p + k ≤ n)
    (hset : ∀ i, p ≤ i → i < p + k → bm i = true) : clearCount bm n + k ≤ n := by
  let cleared : Nat → Bool := fun i => if p ≤ i ∧ i < p + k then false else bm i
  have hrun : clearCount bm n + k = clearCount cleared n :=
    clearCount_run hrange (fun i h1 h2 => if_pos ⟨h1, h2⟩) hset (fun i hi => (if_neg hi).symm)
  rw [hrun]
  exact clearCount_le _ _

/-! ## Counting set bits -/

/-- The number of set bits below `n`. -/
def setCount (bm : Nat → Bool) (n : Nat) : Nat := ((Finset.range n).filter fun i => bm i = true).card

theorem clearCount_eq_setCount (bm : Nat → Bool) (n : Nat) :
    clearCount bm n = setCount (fun i => !bm i) n := by
  simp [clearCount, setCount]

theorem setCount_pos {bm : Nat → Bool} {n i : Nat} (hi : i < n) (hset : bm i = true) :
    0 < setCount bm n :=
  Finset.card_pos.mpr ⟨i, Finset.mem_filter.mpr ⟨Finset.mem_range.mpr hi, hset⟩⟩

theorem setCount_lt {bm : Nat → Bool} {n i : Nat} (hi : i < n) (hclear : bm i = false) :
    setCount bm n < n := by
  have hless : (Finset.range n).filter (fun j => bm j = true) ⊂ Finset.range n := by
    rw [Finset.filter_ssubset]
    exact ⟨i, Finset.mem_range.mpr hi, by simp [hclear]⟩
  simpa [setCount] using Finset.card_lt_card hless

theorem setCount_congr {bm bm' : Nat → Bool} {n : Nat} (h : ∀ i < n, bm' i = bm i) :
    setCount bm' n = setCount bm n := by
  refine congrArg Finset.card (Finset.filter_congr fun i hi => ?_)
  rw [h i (Finset.mem_range.mp hi)]

/-- Two bitmaps that differ in one bit at most. -/
theorem setCount_changed (bm bm' : Nat → Bool) {n i : Nat} (hi : i < n)
    (hsame : ∀ j, j < n → j ≠ i → bm' j = bm j) :
    setCount bm' n + (bm i).toNat = setCount bm n + (bm' i).toNat := by
  have hmem : i ∈ Finset.range n := Finset.mem_range.mpr hi
  have hcard : ∀ b : Nat → Bool, setCount b n =
      (b i).toNat + ((Finset.range n).erase i |>.filter fun j => b j = true).card := by
    intro b
    rw [setCount, ← Finset.insert_erase hmem, Finset.filter_insert, Finset.insert_erase hmem]
    cases hb : b i with
    | false => simp
    | true => simp [Nat.add_comm]
  have hrest : ((Finset.range n).erase i |>.filter fun j => bm' j = true) =
      ((Finset.range n).erase i |>.filter fun j => bm j = true) := by
    refine Finset.filter_congr fun j hj => ?_
    rw [hsame j (Finset.mem_range.mp (Finset.mem_of_mem_erase hj)) (Finset.ne_of_mem_erase hj)]
  rw [hcard bm', hcard bm, hrest]
  omega

/-- One bit is written. -/
theorem clearCount_update (bm : Nat → Bool) {n i : Nat} (hi : i < n) (value : Bool) :
    clearCount (Function.update bm i value) n + value.toNat = clearCount bm n + (bm i).toNat := by
  have hcount := setCount_changed (fun j => !bm j) (fun j => !Function.update bm i value j) hi
    fun j _ hj => by rw [Function.update_of_ne hj]
  simp only [Function.update_self] at hcount
  have hnot : ∀ b : Bool, (!b).toNat + b.toNat = 1 := by decide
  have hold := hnot (bm i)
  have hnew := hnot value
  rw [clearCount_eq_setCount, clearCount_eq_setCount bm]
  omega

end Bitmap
