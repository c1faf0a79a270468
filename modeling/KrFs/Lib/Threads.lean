import Mathlib.Algebra.BigOperators.Group.Finset.Basic
import Mathlib.Data.Set.Lattice
import Mathlib.Logic.Relation
import Mathlib.Tactic.Abel

/-!
# Threads that share a memory

Threads take turns, one atomic step of one of them at a time. Two arguments carry over
from the steps of a single thread to every interleaving. What is in use has one holder,
when a thread takes only what is not in use and gives up only what it holds. And a
quantity of the memory is the sum of what the threads still owe it, when each step
changes both by the same amount.
-/

namespace Threads

/-- The memory and the local states. -/
structure Config (ι σ τ : Type) where
  shared : σ
  thread : ι → τ

section Steps

variable {ι σ τ : Type} [DecidableEq ι]

/-- One of the threads moves; the local states of the others are as they were. -/
def Step (move : σ → τ → σ → τ → Prop) (c c' : Config ι σ τ) : Prop :=
  ∃ t l', move c.shared (c.thread t) c'.shared l' ∧ c'.thread = Function.update c.thread t l'

abbrev Run (move : σ → τ → σ → τ → Prop) : Config ι σ τ → Config ι σ τ → Prop :=
  Relation.ReflTransGen (Step move)

theorem Step.of_move {move : σ → τ → σ → τ → Prop} {c : Config ι σ τ} (t : ι) {s' : σ} {l' : τ}
    (h : move c.shared (c.thread t) s' l') : Step move c ⟨s', Function.update c.thread t l'⟩ :=
  ⟨t, l', h, rfl⟩

/-- The steps of one thread with no other. -/
abbrev Alone (move : σ → τ → σ → τ → Prop) : σ × τ → σ × τ → Prop :=
  Relation.ReflTransGen fun p q => move p.1 p.2 q.1 q.2

/-- What one thread does alone is a run of all. -/
theorem Alone.run {move : σ → τ → σ → τ → Prop} {c : Config ι σ τ} (t : ι) {q : σ × τ}
    (h : Alone move (c.shared, c.thread t) q) :
    Run move c ⟨q.1, Function.update c.thread t q.2⟩ := by
  induction h with
  | refl =>
    rw [Function.update_eq_self]
  | @tail p q _ hmove ih =>
    refine ih.tail ⟨t, q.2, ?_, ?_⟩
    · simpa only [Function.update_self] using hmove
    · rw [Function.update_idem]

end Steps

/-! ## One holder for each resource -/

/-- What is in use, what a thread holds of it, what lies in the common pool, and the
invariants of the memory and of a local state. -/
structure Ownership (σ τ ρ : Type) where
  used : σ → Set ρ
  holds : τ → Set ρ
  pool : σ → Set ρ
  sane : σ → Prop
  good : τ → Prop

section Ownership

variable {ι σ τ ρ : Type}

/-- The memory by itself. -/
structure Ownership.Sound (own : Ownership σ τ ρ) (s : σ) : Prop where
  sane : own.sane s
  pool : own.pool s ⊆ own.used s

/-- A thread and the memory agree on what the thread holds. -/
structure Ownership.Agrees (own : Ownership σ τ ρ) (s : σ) (l : τ) : Prop where
  sound : own.Sound s
  good : own.good l
  used : own.holds l ⊆ own.used s
  apart : ∀ r ∈ own.holds l, r ∉ own.pool s

/-- What a step of a thread may do. -/
structure Ownership.Obeys (own : Ownership σ τ ρ) (s : σ) (l : τ) (s' : σ) (l' : τ) : Prop where
  agrees : own.Agrees s' l'
  taken : ∀ r, r ∈ own.holds l' ∨ r ∈ own.pool s' →
    (r ∈ own.holds l ∨ r ∈ own.pool s) ∨ r ∉ own.used s
  kept : ∀ r ∈ own.used s, ¬ (r ∈ own.holds l ∨ r ∈ own.pool s) → r ∈ own.used s'
  covered : ∀ r ∈ own.used s', (r ∈ own.holds l' ∨ r ∈ own.pool s') ∨
    r ∈ own.used s ∧ ¬ (r ∈ own.holds l ∨ r ∈ own.pool s)

/-- Everything in use lies in the pool or has exactly one holder. -/
structure Ownership.Exclusive (own : Ownership σ τ ρ) (c : Config ι σ τ) : Prop where
  sound : own.Sound c.shared
  agrees : ∀ t, own.Agrees c.shared (c.thread t)
  disjoint : ∀ t t', t ≠ t' → ∀ r ∈ own.holds (c.thread t), r ∉ own.holds (c.thread t')
  covered : ∀ r ∈ own.used c.shared, r ∈ own.pool c.shared ∨ ∃ t, r ∈ own.holds (c.thread t)

section Kinds

variable {own : Ownership σ τ ρ} {s s' : σ} {l l' : τ}

theorem Ownership.Agrees.sane (h : own.Agrees s l) : own.sane s :=
  h.sound.sane

/-- A step after which the same is in use, and the thread and the pool have what they
had, perhaps divided otherwise. -/
theorem Ownership.Agrees.moved (h : own.Agrees s l) (sane : own.sane s')
    (good : own.good l') (used : own.used s' = own.used s)
    (moved : ∀ r, (r ∈ own.holds l' ∨ r ∈ own.pool s') ↔ r ∈ own.holds l ∨ r ∈ own.pool s)
    (apart : ∀ r ∈ own.holds l', r ∉ own.pool s') : own.Obeys s l s' l' := by
  have hall : ∀ r, r ∈ own.holds l' ∨ r ∈ own.pool s' → r ∈ own.used s' := by
    intro r hr
    rw [used]
    rcases (moved r).mp hr with hheld | hpool
    · exact h.used hheld
    · exact h.sound.pool hpool
  constructor
  · exact ⟨⟨sane, fun r hr => hall r (Or.inr hr)⟩, good, fun r hr => hall r (Or.inl hr), apart⟩
  · exact fun r hr => Or.inl ((moved r).mp hr)
  · intro r hr _
    rwa [used]
  · intro r hr
    rw [used] at hr
    rw [moved]
    by_cases hheld : r ∈ own.holds l ∨ r ∈ own.pool s
    · exact Or.inl hheld
    · exact Or.inr ⟨hr, hheld⟩

/-- A step that takes one resource. -/
theorem Ownership.Agrees.take (h : own.Agrees s l) {r : ρ}
    (hfree : r ∉ own.used s) (sane : own.sane s') (good : own.good l')
    (used : own.used s' = insert r (own.used s)) (pool : own.pool s' = own.pool s)
    (holds : own.holds l' = insert r (own.holds l)) : own.Obeys s l s' l' := by
  constructor
  · refine ⟨⟨sane, ?_⟩, good, ?_, ?_⟩
    · rw [used, pool]
      exact h.sound.pool.trans (Set.subset_insert r _)
    · rw [used, holds]
      exact Set.insert_subset_insert h.used
    · intro x hx hpool
      rw [holds, Set.mem_insert_iff] at hx
      rw [pool] at hpool
      rcases hx with rfl | hx
      · exact hfree (h.sound.pool hpool)
      · exact h.apart x hx hpool
  · intro x hx
    rw [holds, pool, Set.mem_insert_iff, or_assoc] at hx
    rcases hx with rfl | hx
    · exact Or.inr hfree
    · exact Or.inl hx
  · intro x hx _
    rw [used]
    exact Set.mem_insert_of_mem r hx
  · intro x hx
    rw [used, Set.mem_insert_iff] at hx
    rw [holds, pool]
    rcases hx with rfl | hx
    · exact Or.inl (Or.inl (Set.mem_insert x _))
    · by_cases hheld : x ∈ own.holds l ∨ x ∈ own.pool s
      · exact Or.inl (hheld.imp_left (Set.mem_insert_of_mem r))
      · exact Or.inr ⟨hx, hheld⟩

/-- A step that gives one resource back. -/
theorem Ownership.Agrees.give (h : own.Agrees s l) {r : ρ}
    (hheld : r ∈ own.holds l) (sane : own.sane s') (good : own.good l')
    (used : own.used s' = own.used s \ {r}) (pool : own.pool s' = own.pool s)
    (holds : own.holds l' = own.holds l \ {r}) : own.Obeys s l s' l' := by
  have hpool : ∀ x ∈ own.pool s, x ≠ r := by
    rintro x hx rfl
    exact h.apart x hheld hx
  constructor
  · refine ⟨⟨sane, fun x hx => ?_⟩, good, ?_, ?_⟩
    · rw [pool] at hx
      rw [used]
      exact ⟨h.sound.pool hx, hpool x hx⟩
    · rw [used, holds]
      exact Set.sdiff_subset_sdiff_left h.used
    · rw [holds, pool]
      exact fun x hx => h.apart x hx.1
  · intro x hx
    rw [holds, pool] at hx
    exact Or.inl (hx.imp_left And.left)
  · intro x hx hnot
    rw [used]
    refine ⟨hx, ?_⟩
    rintro rfl
    exact hnot (Or.inl hheld)
  · intro x hx
    rw [used] at hx
    rw [holds, pool]
    by_cases hmem : x ∈ own.holds l ∨ x ∈ own.pool s
    · exact Or.inl (hmem.imp_left fun h => ⟨h, hx.2⟩)
    · exact Or.inr ⟨hx.1, hmem⟩

end Kinds

variable {own : Ownership σ τ ρ} [DecidableEq ι] {move : σ → τ → σ → τ → Prop}
  {c c' : Config ι σ τ}

/-- Steps that obey keep the holders apart. -/
theorem Ownership.Exclusive.step (h : own.Exclusive c)
    (hmove : ∀ {s l s' l'}, own.Agrees s l → move s l s' l' → own.Obeys s l s' l')
    (step : Step move c c') : own.Exclusive c' := by
  obtain ⟨t, l', hstep, hthread⟩ := step
  have obeys := hmove (h.agrees t) hstep
  have hself : c'.thread t = l' := by simp only [hthread, Function.update_self]
  have hother : ∀ t', t' ≠ t → c'.thread t' = c.thread t' := by
    intro t' ht
    simp only [hthread, ne_eq, ht, not_false_eq_true, Function.update_of_ne]
  -- what another thread holds is neither with this one nor in the pool
  have hnot : ∀ t', t' ≠ t → ∀ r ∈ own.holds (c.thread t'),
      ¬ (r ∈ own.holds (c.thread t) ∨ r ∈ own.pool c.shared) := by
    rintro t' ht r hr (hheld | hpool)
    · exact h.disjoint t t' ht.symm r hheld hr
    · exact (h.agrees t').apart r hr hpool
  have hapart : ∀ t', t' ≠ t → ∀ r ∈ own.holds (c.thread t'),
      ¬ (r ∈ own.holds l' ∨ r ∈ own.pool c'.shared) := by
    intro t' ht r hr hmem
    rcases obeys.taken r hmem with hold | hnew
    · exact hnot t' ht r hr hold
    · exact hnew ((h.agrees t').used hr)
  constructor
  · exact obeys.agrees.sound
  · intro t'
    by_cases ht : t' = t
    · subst ht
      rw [hself]
      exact obeys.agrees
    · rw [hother t' ht]
      constructor
      · exact obeys.agrees.sound
      · exact (h.agrees t').good
      · intro r hr
        exact obeys.kept r ((h.agrees t').used hr) (hnot t' ht r hr)
      · intro r hr hpool
        exact hapart t' ht r hr (Or.inr hpool)
  · intro t1 t2 hne
    by_cases h1 : t1 = t
    · subst h1
      rw [hself, hother t2 (Ne.symm hne)]
      intro r hr hr'
      exact hapart t2 (Ne.symm hne) r hr' (Or.inl hr)
    · rw [hother t1 h1]
      by_cases h2 : t2 = t
      · subst h2
        rw [hself]
        intro r hr hr'
        exact hapart t1 h1 r hr (Or.inl hr')
      · rw [hother t2 h2]
        exact h.disjoint t1 t2 hne
  · intro r hr
    rcases obeys.covered r hr with (hheld | hpool) | ⟨hused, hout⟩
    · exact Or.inr ⟨t, by rwa [hself]⟩
    · exact Or.inl hpool
    · rcases h.covered r hused with hpool | ⟨t', ht'⟩
      · exact absurd (Or.inr hpool) hout
      · have hne : t' ≠ t := by
          rintro rfl
          exact hout (Or.inl ht')
        exact Or.inr ⟨t', by rwa [hother t' hne]⟩

end Ownership

/-! ## A ledger -/

section Ledger

variable {ι σ τ M : Type} [Fintype ι] [AddCommGroup M] {c c' : Config ι σ τ}

/-- A quantity of the memory is what the threads together owe. -/
def Ledger (value : σ → M) (due : τ → M) (c : Config ι σ τ) : Prop :=
  value c.shared = ∑ t, due (c.thread t)

/-- When nobody owes anything the books are right. -/
theorem Ledger.settled {value : σ → M} {due : τ → M} (h : Ledger value due c)
    (hdue : ∀ t, due (c.thread t) = 0) : value c.shared = 0 := by
  unfold Ledger at h
  rw [h]
  exact Finset.sum_eq_zero fun t _ => hdue t

variable [DecidableEq ι] {move : σ → τ → σ → τ → Prop}

theorem Ledger.step {value : σ → M} {due : τ → M} (h : Ledger value due c)
    (hmove : ∀ {t l'}, move c.shared (c.thread t) c'.shared l' →
      value c'.shared - value c.shared = due l' - due (c.thread t))
    (step : Step move c c') : Ledger value due c' := by
  obtain ⟨t, l', hstep, hthread⟩ := step
  have hchange := hmove hstep
  have hsum : ∀ thread : ι → τ, ∑ t', due (thread t') =
      due (thread t) + ∑ t' ∈ Finset.univ.erase t, due (thread t') := fun thread =>
    (Finset.add_sum_erase _ (fun t' => due (thread t')) (Finset.mem_univ t)).symm
  have hrest : ∑ t' ∈ Finset.univ.erase t, due (c'.thread t') =
      ∑ t' ∈ Finset.univ.erase t, due (c.thread t') := by
    refine Finset.sum_congr rfl fun t' ht => ?_
    rw [hthread, Function.update_of_ne (Finset.ne_of_mem_erase ht)]
  have hself : due (c'.thread t) = due l' := by simp only [hthread, Function.update_self]
  unfold Ledger at h ⊢
  rw [hsum c.thread] at h
  rw [hsum c'.thread, hrest, hself, ← sub_add_cancel (value c'.shared) (value c.shared), hchange, h]
  abel

end Ledger

end Threads
