import Mathlib.Data.List.Basic
import Mathlib.Data.List.Chain

/-!
# Pieces laid end to end

A stretch of offsets is cut into pieces; the length of a piece is read at its
start. `Tiled` lists the starts of the pieces between two offsets. `walk` is a loop
that goes from piece to piece by these lengths, with a state and a way out in the
middle; over a stretch that is tiled it visits exactly the starts, in order.
-/

namespace Tiling

variable {len len' : Nat → Nat} {Ok Ok' : Nat → Prop} {a b c stop : Nat} {offs offs' : List Nat}

/-- The pieces from `a` to `b`, each of them in order. -/
inductive Tiled (len : Nat → Nat) (Ok : Nat → Prop) : Nat → Nat → List Nat → Prop
  | nil (a : Nat) : Tiled len Ok a a []
  | cons {a b : Nat} {offs : List Nat} (ok : Ok a) (rest : Tiled len Ok (a + len a) b offs) :
      Tiled len Ok a b (a :: offs)

namespace Tiled

theorem le (h : Tiled len Ok a b offs) : a ≤ b := by
  induction h with
  | nil => exact Nat.le_refl _
  | cons _ _ ih => omega

theorem append (h : Tiled len Ok a b offs) (h' : Tiled len Ok b c offs') :
    Tiled len Ok a c (offs ++ offs') := by
  induction h with
  | nil => exact h'
  | cons ok _ ih => exact cons ok (ih h')

/-- A list of pieces is cut at any of them. -/
theorem split {de : Nat} (h : Tiled len Ok a b (offs ++ de :: offs')) :
    Tiled len Ok a de offs ∧ Ok de ∧ Tiled len Ok (de + len de) b offs' := by
  induction offs generalizing a with
  | nil =>
    cases h with
    | cons ok rest => exact ⟨nil _, ok, rest⟩
  | cons x offs ih =>
    cases h with
    | cons ok rest =>
      obtain ⟨hleft, hok, hright⟩ := ih rest
      exact ⟨cons ok hleft, hok, hright⟩

/-- A list of pieces is cut between any two of them. -/
theorem cut (h : Tiled len Ok a b (offs ++ offs')) :
    Tiled len Ok a (offs'.headD b) offs ∧ Tiled len Ok (offs'.headD b) b offs' := by
  cases offs' with
  | nil =>
    rw [List.append_nil] at h
    exact ⟨h, nil b⟩
  | cons de offs' =>
    obtain ⟨hleft, hok, hright⟩ := h.split
    exact ⟨hleft, cons hok hright⟩

theorem headD_eq (h : Tiled len Ok a b offs) : offs.headD b = a := by
  cases h with
  | nil => rfl
  | cons _ _ => rfl

/-- Only what lies inside the stretch matters. -/
theorem congr (h : Tiled len Ok a b offs)
    (heq : ∀ x ∈ offs, len' x = len x ∧ (Ok x → Ok' x)) : Tiled len' Ok' a b offs := by
  induction h with
  | nil => exact nil _
  | @cons a b offs ok rest ih =>
    rw [List.forall_mem_cons] at heq
    obtain ⟨⟨hlen, hok⟩, hrest⟩ := heq
    have hnext := ih hrest
    rw [← hlen] at hnext
    exact cons (hok ok) hnext

theorem ok_of_mem (h : Tiled len Ok a b offs) {x : Nat} (hx : x ∈ offs) : Ok x := by
  induction h with
  | nil => simp at hx
  | cons ok _ ih =>
    rcases List.mem_cons.mp hx with rfl | hx
    · exact ok
    · exact ih hx

/-- A piece lies inside the stretch. -/
theorem bounds (h : Tiled len Ok a b offs) {x : Nat} (hx : x ∈ offs) : a ≤ x ∧ x + len x ≤ b := by
  induction h with
  | nil => simp at hx
  | cons ok rest ih =>
    rcases List.mem_cons.mp hx with rfl | hx
    · exact ⟨Nat.le_refl _, rest.le⟩
    · have := ih hx
      omega

/-- There is one way to cut a stretch. -/
theorem unique (hpos : ∀ x, Ok x → 0 < len x) (h : Tiled len Ok a b offs)
    (h' : Tiled len Ok a b offs') : offs = offs' := by
  induction h generalizing offs' with
  | nil a =>
    cases h' with
    | nil => rfl
    | cons ok rest =>
      have := rest.le
      have := hpos _ ok
      omega
  | cons ok rest ih =>
    cases h' with
    | nil =>
      have := rest.le
      have := hpos _ ok
      omega
    | cons _ rest' => rw [ih rest']

theorem sorted (h : Tiled len Ok a b offs) :
    offs.Pairwise fun x y => x + len x ≤ y := by
  induction h with
  | nil => exact List.Pairwise.nil
  | cons ok rest ih => exact List.pairwise_cons.mpr ⟨fun y hy => (rest.bounds hy).1, ih⟩

end Tiled

/-- `de` is reached from `a` by going on by the lengths. -/
inductive Reached (len : Nat → Nat) : Nat → Nat → Prop
  | start (a : Nat) : Reached len a a
  | step {a de : Nat} (hlen : len a ≠ 0) (rest : Reached len (a + len a) de) : Reached len a de

theorem Reached.le {de : Nat} (h : Reached len a de) : a ≤ de := by
  induction h with
  | start => exact Nat.le_refl _
  | step _ _ ih => omega

/-- The lengths lead to each of the starts. -/
theorem Tiled.reached (h : Tiled len Ok a b offs) (hpos : ∀ x, Ok x → 0 < len x) {x : Nat}
    (hx : x ∈ offs) : Reached len a x := by
  induction h with
  | nil => cases hx
  | cons ok _ ih =>
    rcases List.mem_cons.mp hx with rfl | hx
    · exact .start _
    · exact .step (hpos _ ok).ne' (ih hx)

/-- How a walk ends: past `stop`, by a way out, or at a piece without a length. -/
inductive WalkEnd (σ β : Type) where
  | past (s : σ) (de : Nat)
  | left (result : β)
  | stuck (s : σ) (de : Nat)

variable {σ β : Type} {body : σ → Nat → β ⊕ σ} {s : σ}

/-- A loop from piece to piece while it is before `stop`, with the starts of the
pieces that it visits. -/
def walk (len : Nat → Nat) (body : σ → Nat → β ⊕ σ) (stop : Nat) (s : σ) (de : Nat) :
    List Nat × WalkEnd σ β :=
  if de < stop then
    if len de = 0 then ([de], .stuck s de)
    else match body s de with
      | .inl result => ([de], .left result)
      | .inr s' =>
        let rest := walk len body stop s' (de + len de)
        (de :: rest.1, rest.2)
  else ([], .past s de)
termination_by stop - de

/-- The same loop over a list of starts that ends at `b`. -/
def walkList (body : σ → Nat → β ⊕ σ) (stop b : Nat) (s : σ) : List Nat → List Nat × WalkEnd σ β
  | [] => ([], .past s b)
  | de :: offs =>
    if de < stop then
      match body s de with
      | .inl result => ([de], .left result)
      | .inr s' =>
        let rest := walkList body stop b s' offs
        (de :: rest.1, rest.2)
    else ([], .past s de)

/-- A walk over a tiled stretch goes through its list. -/
theorem walk_tiled (hpos : ∀ x, Ok x → 0 < len x) (h : Tiled len Ok a b offs) (hstop : stop ≤ b) :
    walk len body stop s a = walkList body stop b s offs := by
  induction h generalizing s with
  | nil a =>
    have hnot : ¬ a < stop := by omega
    rw [walk, if_neg hnot, walkList]
  | @cons a b offs ok rest ih =>
    have hlen := hpos _ ok
    have hne : len a ≠ 0 := by omega
    rw [walk, walkList, if_neg hne]
    split
    · cases body s a with
      | inl result => rfl
      | inr s' =>
        dsimp only
        rw [ih hstop]
    · rfl

/-- The list loop visits a first part of the list, all of it before `stop`. -/
theorem walkList_visited (body : σ → Nat → β ⊕ σ) (stop b : Nat) (s : σ) (offs : List Nat) :
    (walkList body stop b s offs).1 <+: offs ∧
      ∀ x ∈ (walkList body stop b s offs).1, x < stop := by
  induction offs generalizing s with
  | nil => simp [walkList]
  | cons de offs ih =>
    rw [walkList]
    split
    · rename_i hlt
      cases body s de with
      | inl result => simp [hlt]
      | inr s' =>
        obtain ⟨hfront, hstop⟩ := ih s'
        exact ⟨(List.prefix_cons_inj de).mpr hfront, List.forall_mem_cons.mpr ⟨hlt, hstop⟩⟩
    · simp

theorem walkList_not_stuck (body : σ → Nat → β ⊕ σ) (stop b : Nat) (s : σ) (offs : List Nat) :
    ∀ s' de, (walkList body stop b s offs).2 ≠ .stuck s' de := by
  intro s' de
  induction offs generalizing s with
  | nil => simp [walkList]
  | cons x offs ih =>
    rw [walkList]
    split
    · cases body s x with
      | inl result => simp
      | inr s'' => exact ih s''
    · simp

section Search

variable {f : Nat → Bool} {de : Nat} {result : β}

/-- A loop that leaves at the first piece with a property. -/
def search (f : Nat → Bool) (result : Nat → β) : Unit → Nat → β ⊕ Unit :=
  fun _ de => if f de then .inl (result de) else .inr ()

theorem walkList_search_left {found : Nat → β} (offs : List Nat)
    (h : (walkList (search f found) stop b () offs).2 = .left result) :
    ∃ de ∈ offs, de < stop ∧ f de = true ∧ result = found de := by
  induction offs with
  | nil => simp [walkList] at h
  | cons x offs ih =>
    rw [walkList] at h
    split at h
    · rename_i hlt
      cases hf : f x with
      | true =>
        simp only [search, hf, if_true] at h
        cases h
        exact ⟨x, List.mem_cons_self, hlt, hf, rfl⟩
      | false =>
        simp only [search, hf, Bool.false_eq_true, if_false] at h
        obtain ⟨de, hmem, hde⟩ := ih h
        exact ⟨de, List.mem_cons_of_mem x hmem, hde⟩
    · cases h

theorem walkList_search_past {found : Nat → β} (hsorted : offs.Pairwise fun x y => x ≤ y) {e : Nat}
    (h : (walkList (search f found) stop b () offs).2 = .past () e) :
    ∀ x ∈ offs, x < stop → f x = false := by
  induction offs with
  | nil => simp
  | cons x offs ih =>
    obtain ⟨hfirst, hrest⟩ := List.pairwise_cons.mp hsorted
    rw [walkList] at h
    split at h
    · cases hf : f x with
      | true =>
        simp only [search, hf, if_true] at h
        cases h
      | false =>
        simp only [search, hf, Bool.false_eq_true, if_false] at h
        exact List.forall_mem_cons.mpr ⟨fun _ => hf, ih hrest h⟩
    · intro y hy hlt
      rcases List.mem_cons.mp hy with rfl | hy
      · omega
      · have := hfirst y hy
        omega

/-- A search goes past `stop` just when nothing that it reaches has the property, and
no length is zero. -/
theorem walk_search_past_iff {found : Nat → β} :
    (∃ e, (walk len (search f found) stop () a).2 = .past () e) ↔
      ∀ de, Reached len a de → de < stop → len de ≠ 0 ∧ f de = false := by
  generalize hs : () = s
  fun_induction walk len (search f found) stop s a with
  | case1 s a hlt hzero =>
    constructor
    · rintro ⟨e, he⟩
      cases he
    · intro h
      exact absurd hzero (h a (.start a) hlt).1
  | case2 s a hlt hne result heq =>
    have hf : f a = true := by
      by_contra hf
      simp [search, hf] at heq
    constructor
    · rintro ⟨e, he⟩
      cases he
    · intro h
      rw [(h a (.start a) hlt).2] at hf
      cases hf
  | case3 s a hlt hne s' heq rest ih =>
    have hf : f a = false := by
      by_contra hf
      simp [search, hf] at heq
    rw [ih rfl]
    constructor
    · intro h de hreach hde
      cases hreach with
      | start => exact ⟨hne, hf⟩
      | step _ hrest => exact h de hrest hde
    · intro h de hreach hde
      exact h de (.step hne hreach) hde
  | case4 s a hlt =>
    constructor
    · intro _ de hreach hde
      have := hreach.le
      omega
    · intro _
      exact ⟨a, rfl⟩

end Search

/-- A loop without a way out goes on until it is at or past `stop`. -/
theorem walkList_past (β : Type) (f : σ → Nat → σ) (stop b : Nat) (s : σ) (offs : List Nat) (hb : stop ≤ b) :
    ∃ xs ys, offs = xs ++ ys ∧ (∀ x ∈ xs, x < stop) ∧ stop ≤ ys.headD b ∧
      walkList (fun s de => (.inr (f s de) : β ⊕ σ)) stop b s offs =
        (xs, .past (xs.foldl f s) (ys.headD b)) := by
  induction offs generalizing s with
  | nil => exact ⟨[], [], rfl, by simp, hb, rfl⟩
  | cons de offs ih =>
    by_cases hlt : de < stop
    · obtain ⟨xs, ys, rfl, hxs, hys, heq⟩ := ih (f s de)
      refine ⟨de :: xs, ys, rfl, List.forall_mem_cons.mpr ⟨hlt, hxs⟩, hys, ?_⟩
      rw [walkList, if_pos hlt]
      dsimp only
      rw [heq]
      rfl
    · refine ⟨[], de :: offs, rfl, by simp, by simpa using hlt, ?_⟩
      rw [walkList, if_neg hlt]
      rfl

end Tiling
