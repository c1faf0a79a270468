import Mathlib.Order.Bounds.Basic
import Mathlib.Order.Nat

/-!
# Gaps between intervals

Where a run of numbers fits that meets none of a set of closed intervals.
-/

/-- The `size` numbers from `c` on meet no interval of `taken`. -/
def Gap (taken : Set (Nat × Nat)) (size c : Nat) : Prop :=
  ∀ i ∈ taken, c + size ≤ i.1 ∨ i.2 < c

/-- The first gap from `a` on. -/
def NextGap (taken : Set (Nat × Nat)) (size a c : Nat) : Prop :=
  IsLeast {c | a ≤ c ∧ Gap taken size c} c

namespace NextGap

variable {taken : Set (Nat × Nat)} {size a b c d : Nat}

theorem le (h : NextGap taken size a c) : a ≤ c := h.1.1

theorem gap (h : NextGap taken size a c) : Gap taken size c := h.1.2

theorem le_of_gap (h : NextGap taken size a c) (hle : a ≤ d) (hd : Gap taken size d) : c ≤ d :=
  h.2 ⟨hle, hd⟩

theorem mono (h : NextGap taken size a c) (h' : NextGap taken size b d) (hle : a ≤ b) : c ≤ d :=
  h.le_of_gap (hle.trans h'.le) h'.gap

/-- On the way to the first gap nothing else is found. -/
theorem between (h : NextGap taken size a c) (hle : a ≤ b) (hbc : b ≤ c) :
    NextGap taken size b c := by
  constructor
  · exact ⟨hbc, h.gap⟩
  · rintro d ⟨hd, hgap⟩
    exact h.le_of_gap (hle.trans hd) hgap

/-- Where there is a gap, there is a first one. -/
theorem exists_of_gap (hle : a ≤ d) (hd : Gap taken size d) : ∃ c, NextGap taken size a c := by
  classical
  have hex : ∃ c, a ≤ c ∧ Gap taken size c := ⟨d, hle, hd⟩
  exact ⟨Nat.find hex, Nat.find_spec hex, fun _ hc => Nat.find_min' hex hc⟩

theorem unique (h : NextGap taken size a c) (h' : NextGap taken size a d) : c = d :=
  IsLeast.unique h h'

end NextGap
