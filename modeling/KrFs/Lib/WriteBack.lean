import Mathlib.Logic.Function.Basic

/-!
# Write-back caches

A cache holds values of a table that stores them in encoded form. A value that is held and
not dirty can be read from the table again. Loading, writing back and dropping leave what
the cache and the table say together as it is.
-/

/-- The values held for some keys, which of them are newer than the table, and the table. -/
structure WriteBack (K V S : Type) where
  held : K → Option V
  dirty : K → Bool
  table : K → S

namespace WriteBack

variable {K V S W : Type} (read : K → S → Option V) (view : V → W)

/-- What a reader of a key gets. -/
def look (c : WriteBack K V S) (k : K) : Option V := (c.held k).or (read k (c.table k))

/-- As much of it as the table can store. -/
def contents (c : WriteBack K V S) (k : K) : Option W := (c.look read k).map view

/-- Held values that are not dirty are those of the table. -/
def Coherent (c : WriteBack K V S) : Prop :=
  ∀ k v, c.held k = some v → c.dirty k = false → (read k (c.table k)).map view = some (view v)

section Held

variable {read} {c c' : WriteBack K V S} {k : K} {v : V}

theorem look_held (h : c.held k = some v) : c.look read k = some v := by
  rw [look, h]
  rfl

theorem look_table (h : c.held k = none) : c.look read k = read k (c.table k) := by
  rw [look, h]
  rfl

end Held

/-- One key changes. -/
structure Touches (c c' : WriteBack K V S) (k : K) : Prop where
  held : ∀ j, j ≠ k → c'.held j = c.held j
  dirty : ∀ j, j ≠ k → c'.dirty j = c.dirty j
  table : ∀ j, j ≠ k → c'.table j = c.table j

section Steps

variable {read} {view} {c c' : WriteBack K V S} {k : K} {v : V}

theorem Touches.look (h : c.Touches c' k) {j : K} (hj : j ≠ k) :
    c'.look read j = c.look read j := by
  rw [WriteBack.look, WriteBack.look, h.held j hj, h.table j hj]

theorem Touches.contents_of_ne (h : c.Touches c' k) {j : K} (hj : j ≠ k) :
    c'.contents read view j = c.contents read view j :=
  congrArg (Option.map view) (h.look hj)

theorem Touches.contents_same (h : c.Touches c' k)
    (hk : c'.contents read view k = c.contents read view k) :
    c'.contents read view = c.contents read view := by
  funext j
  by_cases hj : j = k
  · rw [hj]
    exact hk
  · exact h.contents_of_ne hj

theorem Touches.contents_update [DecidableEq K] (h : c.Touches c' k) {w : Option W}
    (hk : c'.contents read view k = w) :
    c'.contents read view = Function.update (c.contents read view) k w := by
  funext j
  by_cases hj : j = k
  · subst hj
    rw [Function.update_self]
    exact hk
  · rw [Function.update_of_ne hj]
    exact h.contents_of_ne hj

/-- Coherence is settled at the key. -/
theorem Touches.coherent (h : c.Touches c' k) (hc : c.Coherent read view)
    (hk : ∀ v, c'.held k = some v → c'.dirty k = false →
      (read k (c'.table k)).map view = some (view v)) : c'.Coherent read view := by
  intro j v hheld hclean
  by_cases hj : j = k
  · subst hj
    exact hk v hheld hclean
  · rw [h.held j hj] at hheld
    rw [h.dirty j hj] at hclean
    rw [h.table j hj]
    exact hc j v hheld hclean

/-- A value that was read from the table is held from now on. -/
theorem load (h : c.Touches c' k) (hc : c.Coherent read view) (habsent : c.held k = none)
    (hread : read k (c.table k) = some v) (hheld : c'.held k = some v)
    (htable : c'.table k = c.table k) :
    c'.Coherent read view ∧ c'.contents read view = c.contents read view := by
  constructor
  · apply h.coherent hc
    intro v' hv' _
    obtain rfl : v = v' := Option.some.inj (hheld.symm.trans hv')
    rw [htable, hread]
    rfl
  · apply h.contents_same
    have hlook : c.look read k = some v := (look_table habsent).trans hread
    rw [contents, contents, look_held hheld, hlook]

/-- A held value changes in a way that does not show. -/
theorem touch {v' : V} (h : c.Touches c' k) (hc : c.Coherent read view)
    (hheld : c.held k = some v) (hheld' : c'.held k = some v') (hsame : view v' = view v)
    (hdirty : c'.dirty k = c.dirty k) (htable : c'.table k = c.table k) :
    c'.Coherent read view ∧ c'.contents read view = c.contents read view := by
  constructor
  · apply h.coherent hc
    intro w hw hclean
    obtain rfl : v' = w := Option.some.inj (hheld'.symm.trans hw)
    rw [hdirty] at hclean
    rw [htable, hsame]
    exact hc k v hheld hclean
  · apply h.contents_same
    rw [contents, contents, look_held hheld', look_held hheld, Option.map_some, Option.map_some,
      hsame]

/-- A held value is stored so that reading gives it again. -/
theorem flush {v' : V} (h : c.Touches c' k) (hc : c.Coherent read view)
    (hheld : c.held k = some v) (hheld' : c'.held k = some v') (hsame : view v' = view v)
    (hread : (read k (c'.table k)).map view = some (view v)) :
    c'.Coherent read view ∧ c'.contents read view = c.contents read view := by
  constructor
  · apply h.coherent hc
    intro w hw _
    obtain rfl : v' = w := Option.some.inj (hheld'.symm.trans hw)
    rw [hread, hsame]
  · apply h.contents_same
    rw [contents, contents, look_held hheld', look_held hheld, Option.map_some, Option.map_some,
      hsame]

/-- A value that is not dirty is held no longer. -/
theorem drop (h : c.Touches c' k) (hc : c.Coherent read view) (hheld : c.held k = some v)
    (hclean : c.dirty k = false) (hnone : c'.held k = none) (htable : c'.table k = c.table k) :
    c'.Coherent read view ∧ c'.contents read view = c.contents read view := by
  constructor
  · apply h.coherent hc
    intro w hw _
    rw [hnone] at hw
    cases hw
  · apply h.contents_same
    rw [contents, contents, look_held hheld, look_table hnone, htable, hc k v hheld hclean]
    rfl

/-- A new value for a key makes it dirty. -/
theorem put [DecidableEq K] (h : c.Touches c' k) (hc : c.Coherent read view) (hheld : c'.held k = some v)
    (hdirty : c'.dirty k = true) :
    c'.Coherent read view ∧
      c'.contents read view = Function.update (c.contents read view) k (some (view v)) := by
  constructor
  · apply h.coherent hc
    intro w _ hclean
    rw [hdirty] at hclean
    cases hclean
  · apply h.contents_update
    rw [contents, look_held hheld]
    rfl

/-- A key that is neither held nor readable has no value. -/
theorem erase [DecidableEq K] (h : c.Touches c' k) (hc : c.Coherent read view) (hnone : c'.held k = none)
    (hread : read k (c'.table k) = none) :
    c'.Coherent read view ∧
      c'.contents read view = Function.update (c.contents read view) k none := by
  constructor
  · apply h.coherent hc
    intro w hw _
    rw [hnone] at hw
    cases hw
  · apply h.contents_update
    rw [contents, look_table hnone, hread]
    rfl

end Steps

end WriteBack
