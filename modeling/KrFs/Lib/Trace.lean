import Mathlib.Data.List.Basic

/-!
# Runs of labelled transitions

A run is a list of labels with the states in between. A simulation is shown step by
step, together with the invariant it needs.
-/

/-- The runs of a labelled transition relation. -/
inductive Trace {σ ε : Type} (step : σ → ε → σ → Prop) : σ → List ε → σ → Prop
  | done (s : σ) : Trace step s [] s
  | cons {s s' s'' : σ} {e : ε} {es : List ε} (first : step s e s') (rest : Trace step s' es s'') :
      Trace step s (e :: es) s''

section Trace

variable {σ τ ε : Type} {step : σ → ε → σ → Prop} {s s' : σ} {es : List ε}

/-- A view that turns each step from a state with an invariant into a step of another
system turns runs into runs. -/
theorem Trace.simulated {step' : τ → ε → τ → Prop} {inv : σ → Prop} (view : σ → τ)
    (hstep : ∀ {s s' e}, inv s → step s e s' → inv s' ∧ step' (view s) e (view s'))
    (h : inv s) (run : Trace step s es s') : inv s' ∧ Trace step' (view s) es (view s') := by
  induction run with
  | done s => exact ⟨h, .done _⟩
  | cons first _ ih =>
    obtain ⟨hinv, hfirst⟩ := hstep h first
    obtain ⟨hend, hrest⟩ := ih hinv
    exact ⟨hend, .cons hfirst hrest⟩

end Trace

/-! ## Runs of a function

Where the label decides the next state a run is the list of its labels.
-/

/-- A property of each label and the state it meets, along a run. -/
def Along {σ ε : Type} (next : σ → ε → σ) (P : σ → ε → Prop) : σ → List ε → Prop
  | _, [] => True
  | s, e :: es => P s e ∧ Along next P (next s e) es

section Along

variable {σ ε : Type} {next : σ → ε → σ} {P Q : σ → ε → Prop}

theorem along_iff_split {es : List ε} : ∀ {s : σ}, Along next P s es ↔
    ∀ before e after, es = before ++ e :: after → P (before.foldl next s) e := by
  induction es with
  | nil =>
    intro s
    simp [Along]
  | cons a es ih =>
    intro s
    constructor
    · rintro ⟨hfirst, hrest⟩ before e after h
      cases before with
      | nil =>
        obtain ⟨rfl, -⟩ : a = e ∧ es = after := by simpa using h
        exact hfirst
      | cons b before =>
        obtain ⟨rfl, hes⟩ : a = b ∧ es = before ++ e :: after := by simpa using h
        exact ih.mp hrest before e after hes
    · intro h
      refine ⟨h [] a es rfl, ih.mpr fun before e after hes => ?_⟩
      exact h (a :: before) e after (by simp [hes])

/-- Two properties that a step from a state with an invariant cannot tell apart
agree along runs, where the first of them keeps the invariant. -/
theorem Along.congr {I : σ → Prop} {E : σ → ε → Prop}
    (hstep : ∀ {s e}, I s → E s e → (P s e ↔ Q s e) ∧ (P s e → I (next s e)))
    {es : List ε} : ∀ {s : σ}, I s → Along next E s es →
    (Along next P s es ↔ Along next Q s es) := by
  induction es with
  | nil => exact fun _ _ => Iff.rfl
  | cons e es ih =>
    intro s hinv hE
    obtain ⟨hiff, hnext⟩ := hstep hinv hE.1
    constructor
    · rintro ⟨hfirst, hrest⟩
      exact ⟨hiff.mp hfirst, (ih (hnext hfirst) hE.2).mp hrest⟩
    · rintro ⟨hfirst, hrest⟩
      have hP := hiff.mpr hfirst
      exact ⟨hP, (ih (hnext hP) hE.2).mpr hrest⟩

end Along
