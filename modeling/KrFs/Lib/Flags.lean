import Mathlib.Logic.Function.Basic

/-!
# Words of flags

A word in which each flag of an enumeration has one bit. Flags are set with an
or, cleared with an and-not and tested with an and; what a word says about a flag
after a run of such steps follows from the steps alone, and a word with no other
bits is determined by its flags.
-/

namespace Flags

/-- One bit of a word for each flag. -/
structure Layout (F : Type*) (w : Nat) where
  mask : F → BitVec w
  bit : F → Nat
  bit_lt : ∀ f, bit f < w
  bit_inj : Function.Injective bit
  mask_eq : ∀ f, mask f = BitVec.twoPow w (bit f)

namespace Layout

variable {F : Type*} {w : Nat} (L : Layout F w) (o : BitVec w) (f g : F)

def set : BitVec w := o ||| L.mask f

def clear : BitVec w := o &&& ~~~L.mask f

def test : Bool := o &&& L.mask f != 0

theorem test_eq : L.test o f = o.getLsbD (L.bit f) := by
  have hlt := L.bit_lt f
  have hzero : o &&& L.mask f = 0 ↔ o.getLsbD (L.bit f) = false := by
    constructor
    · intro h
      have hbit := congrArg (fun word => word.getLsbD (L.bit f)) h
      simpa [L.mask_eq, BitVec.getLsbD_twoPow, hlt] using hbit
    · intro h
      apply BitVec.eq_of_getLsbD_eq
      intro i hi
      by_cases hif : L.bit f = i
      · subst hif
        simp [h]
      · simp [L.mask_eq, BitVec.getLsbD_twoPow, hif]
  cases hbit : o.getLsbD (L.bit f) with
  | true =>
    have hne : o &&& L.mask f ≠ 0 := fun h => by simp [hzero.mp h] at hbit
    simpa [test] using hne
  | false => simpa [test] using hzero.mpr hbit

theorem getLsbD_mask (i : Nat) : (L.mask f).getLsbD i = decide (L.bit f = i) := by
  have hlt := L.bit_lt f
  simp [L.mask_eq, BitVec.getLsbD_twoPow, hlt]

@[simp] theorem test_zero : L.test 0 f = false := by
  rw [test_eq]
  simp

section Decidable

variable [DecidableEq F]

@[simp] theorem test_set : L.test (L.set o f) g = (L.test o g || decide (f = g)) := by
  rw [test_eq, test_eq, set, BitVec.getLsbD_or, getLsbD_mask]
  simp [L.bit_inj.eq_iff]

@[simp] theorem test_clear : L.test (L.clear o f) g = (L.test o g && !decide (f = g)) := by
  have hlt := L.bit_lt g
  rw [test_eq, test_eq, clear, BitVec.getLsbD_and, BitVec.getLsbD_not, getLsbD_mask]
  simp [L.bit_inj.eq_iff, hlt]

/-- Flags that are cleared one after the other. -/
theorem test_foldl_clear (flags : List F) : ∀ o : BitVec w,
    L.test (flags.foldl L.clear o) g = (L.test o g && !decide (g ∈ flags)) := by
  induction flags with
  | nil => simp
  | cons f flags ih =>
    intro o
    rw [List.foldl_cons, ih, test_clear, Bool.and_assoc]
    simp [eq_comm]

theorem test_foldl_set (flags : List F) : ∀ o : BitVec w,
    L.test (flags.foldl L.set o) g = (L.test o g || decide (g ∈ flags)) := by
  induction flags with
  | nil => simp
  | cons f flags ih =>
    intro o
    rw [List.foldl_cons, ih, test_set, Bool.or_assoc]
    simp [eq_comm]

end Decidable

/-- Only bits of flags are set. -/
def Within : Prop := ∀ i, o.getLsbD i = true → ∃ f, L.bit f = i

variable {L} {o} {o' : BitVec w}

theorem within_zero : L.Within 0 := by
  intro i h
  simp at h

theorem Within.set (h : L.Within o) (f : F) : L.Within (L.set o f) := by
  intro i hi
  rw [Layout.set, BitVec.getLsbD_or, Bool.or_eq_true, getLsbD_mask, decide_eq_true_eq] at hi
  rcases hi with hi | hi
  · exact h i hi
  · exact ⟨f, hi⟩

theorem Within.clear (h : L.Within o) (f : F) : L.Within (L.clear o f) := by
  intro i hi
  rw [Layout.clear, BitVec.getLsbD_and, Bool.and_eq_true] at hi
  exact h i hi.1

/-- Words of flags with the same flags are equal. -/
theorem Within.ext (h : L.Within o) (h' : L.Within o') (heq : ∀ f, L.test o f = L.test o' f) :
    o = o' := by
  apply BitVec.eq_of_getLsbD_eq
  intro i _
  by_cases hflag : ∃ f, L.bit f = i
  · obtain ⟨f, rfl⟩ := hflag
    rw [← L.test_eq, ← L.test_eq, heq]
  · have hclear : ∀ {word : BitVec w}, L.Within word → word.getLsbD i = false := by
      intro word hword
      by_contra hset
      exact hflag (hword i (by simpa using hset))
    rw [hclear h, hclear h']

end Layout

end Flags
