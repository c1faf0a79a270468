import Mathlib.Data.List.Count
import Mathlib.Order.Lattice

/-!
# Sweeps

A sweep goes over things that lie at positions: it takes all that is there from one
position up to another, in order of position, and nothing else.
-/

/-- `es` is what is there from `a` up to `b`, in order. -/
structure Sweep {α P : Type} [LinearOrder P] (pos : α → P) (there : α → Prop) (a b : P)
    (es : List α) : Prop where
  le : a ≤ b
  sorted : es.Pairwise fun e e' => pos e < pos e'
  sound : ∀ e ∈ es, there e ∧ a ≤ pos e ∧ pos e < b
  complete : ∀ e, there e → a ≤ pos e → pos e < b → e ∈ es

namespace Sweep

variable {α P : Type} [LinearOrder P] {pos : α → P} {there : α → Prop} {a b c : P}
  {es es' : List α}

/-- Nothing is there. -/
theorem gap (hle : a ≤ b) (hnone : ∀ e, there e → a ≤ pos e → ¬ pos e < b) :
    Sweep pos there a b [] where
  le := hle
  sorted := List.Pairwise.nil
  sound := fun _ he => nomatch he
  complete := fun e he ha hb => absurd hb (hnone e he ha)

theorem nil (a : P) : Sweep pos there a a [] :=
  gap le_rfl fun _ _ ha => not_lt_of_ge ha

/-- A sweep goes on where another one ends. -/
theorem append (h : Sweep pos there a b es) (h' : Sweep pos there b c es') :
    Sweep pos there a c (es ++ es') where
  le := le_trans h.le h'.le
  sorted := by
    refine List.pairwise_append.mpr ⟨h.sorted, h'.sorted, ?_⟩
    intro e he e' he'
    exact lt_of_lt_of_le (h.sound e he).2.2 (h'.sound e' he').2.1
  sound := by
    intro e he
    rcases List.mem_append.mp he with he | he
    · obtain ⟨hthere, hleft, hright⟩ := h.sound e he
      exact ⟨hthere, hleft, lt_of_lt_of_le hright h'.le⟩
    · obtain ⟨hthere, hleft, hright⟩ := h'.sound e he
      exact ⟨hthere, le_trans h.le hleft, hright⟩
  complete := by
    intro e he hleft hright
    apply List.mem_append.mpr
    rcases lt_or_ge (pos e) b with hlt | hge
    · exact Or.inl (h.complete e he hleft hlt)
    · exact Or.inr (h'.complete e he hge hright)

theorem nodup (h : Sweep pos there a b es) : es.Nodup := by
  refine List.Pairwise.imp ?_ h.sorted
  rintro e _ hlt rfl
  exact lt_irrefl _ hlt

/-- The one thing with a property is taken once, when its position is passed. -/
theorem countP_eq (h : Sweep pos there a b es) {p : α → Bool} {e : α} (he : there e)
    (hp : p e = true) (hunique : ∀ e', there e' → p e' = true → e' = e) :
    es.countP p = if a ≤ pos e ∧ pos e < b then 1 else 0 := by
  classical
  have hcount : es.countP p = es.count e := by
    refine List.countP_congr fun x hx => ?_
    rw [beq_iff_eq]
    exact ⟨hunique x (h.sound x hx).1, fun heq => heq ▸ hp⟩
  rw [hcount]
  split
  · rename_i hpos
    exact h.nodup.count.trans (if_pos (h.complete e he hpos.1 hpos.2))
  · rename_i hpos
    exact List.count_eq_zero_of_not_mem fun hmem => hpos (h.sound e hmem).2

end Sweep
