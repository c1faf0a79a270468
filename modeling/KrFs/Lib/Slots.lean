import Mathlib.Data.Option.Basic
import Mathlib.Logic.Function.Basic

/-!
# A map kept in slots

A finite map is often kept as keyed items at places. What an item is found by is its
key; the place says where it was put. As long as no key is at two places, putting,
replacing and removing an item changes the map at its key only.
-/

namespace Slots

variable {α K V : Type} {r : α → Option (K × V)} {i j : α} {k k' : K} {v w : V}

/-- No key is at two places. -/
def Distinct (r : α → Option (K × V)) : Prop :=
  ∀ i j k v w, r i = some (k, v) → r j = some (k, w) → i = j

open Classical in
/-- The value that is kept for a key. -/
noncomputable def lookup (r : α → Option (K × V)) (k : K) : Option V :=
  if h : ∃ v i, r i = some (k, v) then some h.choose else none

theorem lookup_eq_none : lookup r k = none ↔ ∀ i v, r i ≠ some (k, v) := by
  unfold lookup
  split
  · rename_i h
    obtain ⟨v, i, hi⟩ := h
    exact ⟨fun h => (nomatch h), fun h => absurd hi (h i v)⟩
  · rename_i h
    exact ⟨fun _ i v hi => h ⟨v, i, hi⟩, fun _ => rfl⟩

theorem lookup_eq_some (h : Distinct r) : lookup r k = some v ↔ ∃ i, r i = some (k, v) := by
  unfold lookup
  split
  · rename_i hex
    obtain ⟨i, hi⟩ := hex.choose_spec
    constructor
    · intro heq
      cases heq
      exact ⟨i, hi⟩
    · rintro ⟨j, hj⟩
      obtain rfl := h i j k _ _ hi hj
      rw [hi] at hj
      cases hj
      rfl
  · rename_i hno
    exact ⟨fun h => (nomatch h), fun ⟨i, hi⟩ => absurd ⟨v, i, hi⟩ hno⟩

section Put

variable [DecidableEq α]

/-- Every item after a change at `i` is the new one or an old one at another place. -/
theorem update_eq_some {new : Option (K × V)} :
    Function.update r i new j = some (k, v) ↔
      (j = i ∧ new = some (k, v)) ∨ (j ≠ i ∧ r j = some (k, v)) := by
  by_cases hj : j = i
  · subst hj
    simp
  · simp [hj]

/-- An item is put at a place that is free or has the key already. -/
theorem Distinct.put (h : Distinct r) (hkey : ∀ j w, r j = some (k, w) → j = i) :
    Distinct (Function.update r i (some (k, v))) := by
  intro j j' k' w w' hj hj'
  rcases update_eq_some.mp hj with ⟨rfl, hnew⟩ | ⟨hne, hold⟩
  · cases hnew
    rcases update_eq_some.mp hj' with ⟨rfl, -⟩ | ⟨-, hold'⟩
    · rfl
    · exact (hkey j' _ hold').symm
  · rcases update_eq_some.mp hj' with ⟨rfl, hnew'⟩ | ⟨-, hold'⟩
    · cases hnew'
      exact absurd (hkey j _ hold) hne
    · exact h j j' k' w w' hold hold'

theorem lookup_put [DecidableEq K] (h : Distinct r) (hplace : ∀ k' w, r i = some (k', w) → k' = k)
    (hkey : ∀ j w, r j = some (k, w) → j = i) :
    lookup (Function.update r i (some (k, v))) = Function.update (lookup r) k (some v) := by
  funext k'
  apply Option.ext
  intro w
  rw [lookup_eq_some (h.put hkey)]
  by_cases hk : k' = k
  · subst hk
    rw [Function.update_self]
    constructor
    · rintro ⟨j, hj⟩
      rcases update_eq_some.mp hj with ⟨-, hnew⟩ | ⟨hne, hold⟩
      · cases hnew
        rfl
      · exact absurd (hkey j w hold) hne
    · intro heq
      cases heq
      exact ⟨i, by simp⟩
  · rw [Function.update_of_ne hk, lookup_eq_some h]
    constructor
    · rintro ⟨j, hj⟩
      rcases update_eq_some.mp hj with ⟨-, hnew⟩ | ⟨-, hold⟩
      · cases hnew
        exact absurd rfl hk
      · exact ⟨j, hold⟩
    · rintro ⟨j, hj⟩
      have hne : j ≠ i := by
        rintro rfl
        exact hk (hplace k' w hj)
      exact ⟨j, update_eq_some.mpr (Or.inr ⟨hne, hj⟩)⟩

theorem Distinct.remove (h : Distinct r) : Distinct (Function.update r i none) := by
  intro j j' k' w w' hj hj'
  rcases update_eq_some.mp hj with ⟨-, hnew⟩ | ⟨-, hold⟩
  · cases hnew
  · rcases update_eq_some.mp hj' with ⟨-, hnew⟩ | ⟨-, hold'⟩
    · cases hnew
    · exact h j j' k' w w' hold hold'

theorem lookup_remove [DecidableEq K] (h : Distinct r) (hi : r i = some (k, w)) :
    lookup (Function.update r i none) = Function.update (lookup r) k none := by
  funext k'
  apply Option.ext
  intro v
  rw [lookup_eq_some h.remove]
  by_cases hk : k' = k
  · subst hk
    rw [Function.update_self]
    constructor
    · rintro ⟨j, hj⟩
      rcases update_eq_some.mp hj with ⟨-, hnew⟩ | ⟨hne, hold⟩
      · cases hnew
      · exact absurd (h j i k' v w hold hi) hne
    · intro heq
      cases heq
  · rw [Function.update_of_ne hk, lookup_eq_some h]
    constructor
    · rintro ⟨j, hj⟩
      rcases update_eq_some.mp hj with ⟨-, hnew⟩ | ⟨-, hold⟩
      · cases hnew
      · exact ⟨j, hold⟩
    · rintro ⟨j, hj⟩
      have hne : j ≠ i := by
        rintro rfl
        rw [hi] at hj
        cases hj
        exact hk rfl
      exact ⟨j, update_eq_some.mpr (Or.inr ⟨hne, hj⟩)⟩

end Put

end Slots
