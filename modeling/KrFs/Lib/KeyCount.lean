import Mathlib.Data.Set.Card
import Mathlib.Logic.Function.Basic

/-!
# Counting the keys of a partial function

How many keys of a partial function have a value with some property, and how a binding that
is made or removed changes that number.
-/

namespace KeyCount

variable {K V : Type} {f : K → Option V} {P Q : K → V → Prop} {k : K} {v : V} {m n : Nat}

/-- The keys with a value that has the property. -/
def keys (f : K → Option V) (P : K → V → Prop) : Set K := {k | ∃ v, f k = some v ∧ P k v}

theorem mem_keys : k ∈ keys f P ↔ ∃ v, f k = some v ∧ P k v := Iff.rfl

/-- There are `n` such keys. -/
def Counts (f : K → Option V) (P : K → V → Prop) (n : Nat) : Prop := (keys f P).encard = n

theorem keys_congr (h : ∀ k v, f k = some v → (P k v ↔ Q k v)) : keys f P = keys f Q := by
  ext k
  constructor
  · rintro ⟨v, hv, hp⟩
    exact ⟨v, hv, (h k v hv).mp hp⟩
  · rintro ⟨v, hv, hq⟩
    exact ⟨v, hv, (h k v hv).mpr hq⟩

namespace Counts

theorem congr (h : Counts f P n) (hiff : ∀ k v, f k = some v → (P k v ↔ Q k v)) :
    Counts f Q n := by
  unfold Counts
  rw [← keys_congr hiff]
  exact h

theorem zero (h : ∀ k v, f k = some v → ¬ P k v) : Counts f P 0 := by
  apply Set.encard_eq_zero.mpr
  ext k
  constructor
  · rintro ⟨v, hv, hp⟩
    exact h k v hv hp
  · exact False.elim

theorem unique (h : Counts f P n) (h' : Counts f P m) : n = m :=
  Nat.cast_inj.mp (h.symm.trans h')

theorem none_of_zero (h : Counts f P 0) (hk : f k = some v) : ¬ P k v := by
  intro hp
  have hempty : keys f P = ∅ := Set.encard_eq_zero.mp h
  have hmem : k ∈ keys f P := ⟨v, hk, hp⟩
  rw [hempty] at hmem
  exact hmem

theorem pos (h : Counts f P n) (hk : f k = some v) (hp : P k v) : 0 < n := by
  apply Nat.pos_of_ne_zero
  rintro rfl
  exact h.none_of_zero hk hp

section Update

variable [DecidableEq K]

/-- A key is bound to a value with the property. -/
theorem bind (h : Counts f P n) (hk : f k = none) (hp : P k v) :
    Counts (Function.update f k (some v)) P (n + 1) := by
  have hkeys : keys (Function.update f k (some v)) P = insert k (keys f P) := by
    ext j
    by_cases hj : j = k
    · subst hj
      simp [mem_keys, hp]
    · simp [mem_keys, hj]
  have hnot : k ∉ keys f P := by
    rintro ⟨w, hw, -⟩
    rw [hk] at hw
    cases hw
  unfold Counts at h ⊢
  rw [hkeys, Set.encard_insert_of_notMem hnot, h]
  rfl

/-- A key is bound to a value without the property. -/
theorem bind_other (h : Counts f P n) (hk : f k = none) (hp : ¬ P k v) :
    Counts (Function.update f k (some v)) P n := by
  have hkeys : keys (Function.update f k (some v)) P = keys f P := by
    ext j
    by_cases hj : j = k
    · subst hj
      simp [mem_keys, hp, hk]
    · simp [mem_keys, hj]
  unfold Counts
  rw [hkeys]
  exact h

/-- A key loses a value with the property. -/
theorem unbind (h : Counts f P n) (hk : f k = some v) (hp : P k v) :
    Counts (Function.update f k none) P (n - 1) := by
  have hkeys : keys f P = insert k (keys (Function.update f k none) P) := by
    ext j
    by_cases hj : j = k
    · subst hj
      simp [mem_keys, hp, hk]
    · simp [mem_keys, hj]
  have hnot : k ∉ keys (Function.update f k none) P := by
    simp [mem_keys]
  have hfinite : (keys (Function.update f k none) P).Finite := by
    refine Set.Finite.subset (Set.finite_of_encard_eq_coe h) ?_
    rw [hkeys]
    exact Set.subset_insert _ _
  obtain ⟨m, hm⟩ := ENat.ne_top_iff_exists.mp hfinite.encard_lt_top.ne
  unfold Counts at h ⊢
  rw [hkeys, Set.encard_insert_of_notMem hnot, ← hm] at h
  have hsucc : m + 1 = n := Nat.cast_inj.mp h
  rw [← hm, ← hsucc, Nat.add_sub_cancel]

/-- A key loses a value without the property. -/
theorem unbind_other (h : Counts f P n) (hk : f k = some v) (hp : ¬ P k v) :
    Counts (Function.update f k none) P n := by
  have hkeys : keys (Function.update f k none) P = keys f P := by
    ext j
    by_cases hj : j = k
    · subst hj
      simp [mem_keys, hp, hk]
    · simp [mem_keys, hj]
  unfold Counts
  rw [hkeys]
  exact h

end Update

end Counts

end KeyCount
