import Mathlib.Data.List.Basic

/-!
# Things tried in turn

A list of things is tried one after another, with a state that each failed try hands on,
until one of them gives a result or puts an end to it.
-/

/-- How a try ends. -/
inductive Try (ρ σ : Type) where
  | took (result : ρ) (state : σ)
  | failed (state : σ)
  | stopped

/-- The same end with another state. -/
def Try.map {ρ σ τ : Type} (f : σ → τ) : Try ρ σ → Try ρ τ
  | .took result state => .took result (f state)
  | .failed state => .failed (f state)
  | .stopped => .stopped

/-- The tries of a list, from a state on. -/
inductive Tries {ι ρ σ : Type} (attempt : ι → σ → Try ρ σ → Prop) : List ι → σ → Try ρ σ → Prop
  | nil (s : σ) : Tries attempt [] s (.failed s)
  | took {i : ι} {l : List ι} {s s' : σ} {r : ρ} (here : attempt i s (.took r s')) :
      Tries attempt (i :: l) s (.took r s')
  | stopped {i : ι} {l : List ι} {s : σ} (here : attempt i s .stopped) :
      Tries attempt (i :: l) s .stopped
  | failed {i : ι} {l : List ι} {s s' : σ} {e : Try ρ σ} (here : attempt i s (.failed s'))
      (rest : Tries attempt l s' e) : Tries attempt (i :: l) s e

namespace Tries

variable {ι ρ σ : Type} {attempt : ι → σ → Try ρ σ → Prop} {l : List ι} {s : σ} {e e' : Try ρ σ}

/-- Where each try has one end, so have the tries of a list. -/
theorem unique (hone : ∀ i s e e', attempt i s e → attempt i s e' → e = e')
    (h : Tries attempt l s e) (h' : Tries attempt l s e') : e = e' := by
  induction h with
  | nil s =>
    cases h'
    rfl
  | took here =>
    cases h' with
    | took here' => exact hone _ _ _ _ here here'
    | stopped here' => exact hone _ _ _ _ here here'
    | failed here' _ => cases hone _ _ _ _ here here'
  | stopped here =>
    cases h' with
    | took here' => exact hone _ _ _ _ here here'
    | stopped here' => rfl
    | failed here' _ => cases hone _ _ _ _ here here'
  | failed here _ ih =>
    cases h' with
    | took here' => cases hone _ _ _ _ here here'
    | stopped here' => cases hone _ _ _ _ here here'
    | failed here' rest' =>
      cases hone _ _ _ _ here here'
      exact ih rest'

end Tries
