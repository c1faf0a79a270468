import Mathlib.Logic.Function.Basic
import Mathlib.Data.List.Basic

/-!
# Programs over shared bits

A thread reads bits of a shared memory and sets bits with an atomic test-and-set,
while other threads change the memory between any two of its accesses. The only
promise is that nobody clears a bit the thread has set. A program is a tree of
accesses; its rule of postconditions quantifies over what each access can see, and
a run of the program under interference meets what the rule gives.
-/

namespace Interference

/-- A program of one thread, one constructor for each access. A `bug` is a failed
assertion; `running` is the end of the fuel of a loop. -/
inductive Prog (ι α : Type) where
  | ret (value : α)
  | bug
  | running
  | look (f : (ι → Bool) → Bool) (next : Bool → Prog ι α)
  | testAndSet (i : ι) (next : Bool → Prog ι α)

/-- The memory, the bits the thread has turned from 0 to 1, in order, and the rest
of its program. -/
structure Config (ι α : Type) where
  bits : ι → Bool
  own : List ι
  prog : Prog ι α

section Semantics

variable {ι α β : Type}

namespace Prog

def bind : Prog ι α → (α → Prog ι β) → Prog ι β
  | ret a, f => f a
  | bug, _ => bug
  | running, _ => running
  | look g next, f => look g fun b => (next b).bind f
  | testAndSet i next, f => testAndSet i fun b => (next b).bind f

/-- The most accesses the program makes. -/
def depth : Prog ι α → Nat
  | ret _ => 0
  | bug => 0
  | running => 0
  | look _ next => max (next true).depth (next false).depth + 1
  | testAndSet _ next => max (next true).depth (next false).depth + 1

/-- The program returns, and the value and the bits it has set meet `post`,
whatever its reads see. -/
def Ensures (post : α → List ι → Prop) : Prog ι α → List ι → Prop
  | ret a, own => post a own
  | bug, _ => False
  | running, _ => False
  | look _ next, own => ∀ b, (next b).Ensures post own
  | testAndSet i next, own =>
      (next true).Ensures post own ∧ (i ∉ own → (next false).Ensures post (own ++ [i]))

@[simp] theorem bind_ret (a : α) (f : α → Prog ι β) : (ret a).bind f = f a := rfl

@[simp] theorem ensures_ret {post : α → List ι → Prop} {a : α} {own : List ι} :
    (ret a).Ensures post own ↔ post a own := Iff.rfl

variable {post post' : α → List ι → Prop}

theorem Ensures.mono {p : Prog ι α} : ∀ {own : List ι}, p.Ensures post own →
    (∀ a own', post a own' → post' a own') → p.Ensures post' own := by
  induction p with
  | ret a => exact fun h himp => himp _ _ h
  | bug => exact fun h _ => h
  | running => exact fun h _ => h
  | look f next ih => exact fun h himp b => ih b (h b) himp
  | testAndSet i next ih =>
    exact fun h himp => ⟨ih true h.1 himp, fun hnew => ih false (h.2 hnew) himp⟩

/-- The rule for one program after another. -/
theorem Ensures.bind {p : Prog ι α} {f : α → Prog ι β} {post : β → List ι → Prop} :
    ∀ {own : List ι}, p.Ensures (fun a own' => (f a).Ensures post own') own →
      (p.bind f).Ensures post own := by
  induction p with
  | ret a => exact fun h => h
  | bug => exact fun h => h
  | running => exact fun h => h
  | look g next ih => exact fun h b => ih b (h b)
  | testAndSet i next ih => exact fun h => ⟨ih true h.1, fun hnew => ih false (h.2 hnew)⟩

/-- What the postcondition says of all bits set holds of the first of them. -/
theorem Ensures.own {p : Prog ι α} {Q : ι → Prop} : ∀ {own : List ι}, p.Ensures post own →
    (∀ a own', post a own' → ∀ i ∈ own', Q i) → ∀ i ∈ own, Q i := by
  induction p with
  | ret a => exact fun h hpost => hpost a _ h
  | bug => exact fun h => h.elim
  | running => exact fun h => h.elim
  | look f next ih => exact fun h hpost => ih true (h true) hpost
  | testAndSet i next ih => exact fun h hpost => ih true h.1 hpost

end Prog

variable [DecidableEq ι]

/-- One access of the thread. -/
inductive Access : Config ι α → Config ι α → Prop where
  | look (bits : ι → Bool) (own : List ι) (f : (ι → Bool) → Bool) (next : Bool → Prog ι α) :
      Access ⟨bits, own, .look f next⟩ ⟨bits, own, next (f bits)⟩
  | taken (bits : ι → Bool) (own : List ι) (i : ι) (next : Bool → Prog ι α) :
      bits i = true → Access ⟨bits, own, .testAndSet i next⟩ ⟨bits, own, next true⟩
  | set (bits : ι → Bool) (own : List ι) (i : ι) (next : Bool → Prog ι α) :
      bits i = false → Access ⟨bits, own, .testAndSet i next⟩
        ⟨Function.update bits i true, own ++ [i], next false⟩

/-- A run with that many accesses of the thread and any moves of the others. -/
inductive Run (c : Config ι α) : Nat → Config ι α → Prop where
  | start : Run c 0 c
  | others {n : Nat} {c1 : Config ι α} (bits : ι → Bool) : Run c n c1 →
      (∀ i ∈ c1.own, bits i = true) → Run c n { c1 with bits := bits }
  | access {n : Nat} {c1 c2 : Config ι α} : Run c n c1 → Access c1 c2 → Run c (n + 1) c2

namespace Prog

/-- The program with no other thread. -/
def alone : Prog ι α → (ι → Bool) → Option (α × (ι → Bool))
  | ret a, bits => some (a, bits)
  | bug, _ => none
  | running, _ => none
  | look f next, bits => (next (f bits)).alone bits
  | testAndSet i next, bits =>
      if bits i then (next true).alone bits else (next false).alone (Function.update bits i true)

theorem alone_bind {p : Prog ι α} {f : α → Prog ι β} : ∀ bits : ι → Bool,
    (p.bind f).alone bits = (p.alone bits).bind fun r => (f r.1).alone r.2 := by
  induction p with
  | ret a => exact fun _ => rfl
  | bug => exact fun _ => rfl
  | running => exact fun _ => rfl
  | look g next ih => exact fun bits => ih (g bits) bits
  | testAndSet i next ih =>
    intro bits
    by_cases hi : bits i = true
    · simpa [Prog.bind, alone, hi] using ih true bits
    · simpa [Prog.bind, alone, hi] using ih false (Function.update bits i true)

end Prog

variable {c c' : Config ι α} {post : α → List ι → Prop}

/-- A bit the thread has set stays set. -/
def Config.Kept (c : Config ι α) : Prop := ∀ i ∈ c.own, c.bits i = true

theorem Access.kept (h : Access c c') (hkept : c.Kept) : c'.Kept := by
  cases h with
  | look bits own f next => exact hkept
  | taken bits own i next hset => exact hkept
  | set bits own i next hclear =>
    intro j hj
    by_cases hji : j = i
    · simp [hji]
    · have hmem : j ∈ own := by simpa [hji] using hj
      simpa [hji] using hkept j hmem

theorem Access.ensures (h : Access c c') (hkept : c.Kept) (hpost : c.prog.Ensures post c.own) :
    c'.prog.Ensures post c'.own := by
  cases h with
  | look bits own f next => exact hpost (f bits)
  | taken bits own i next hset => exact hpost.1
  | set bits own i next hclear =>
    refine hpost.2 fun hmem => ?_
    have hset : bits i = true := hkept i hmem
    rw [hset] at hclear
    cases hclear

theorem Access.depth_lt (h : Access c c') : c'.prog.depth < c.prog.depth := by
  cases h with
  | look bits own f next =>
    simp only [Prog.depth]
    cases f bits with
    | true => omega
    | false => omega
  | taken bits own i next hset =>
    simp only [Prog.depth]
    omega
  | set bits own i next hclear =>
    simp only [Prog.depth]
    omega

/-- What holds along a run: the bits set are kept, the program still ensures its
postcondition, and the accesses made are bounded by the depth. -/
theorem Run.inv {n : Nat} (h : Run c n c') (hkept : c.Kept) (hpost : c.prog.Ensures post c.own) :
    c'.Kept ∧ c'.prog.Ensures post c'.own ∧ n + c'.prog.depth ≤ c.prog.depth := by
  induction h with
  | start => exact ⟨hkept, hpost, by omega⟩
  | others bits _ hown ih => exact ⟨hown, ih.2.1, ih.2.2⟩
  | access _ haccess ih =>
    have hlt := haccess.depth_lt
    exact ⟨haccess.kept ih.1, haccess.ensures ih.1 ih.2.1, by omega⟩

/-- A program that ensures a postcondition can make an access or has returned. -/
theorem Prog.Ensures.progress {bits : ι → Bool} {own : List ι} {p : Prog ι α}
    (h : p.Ensures post own) :
    (∃ c', Access ⟨bits, own, p⟩ c') ∨ ∃ a, p = .ret a ∧ post a own := by
  cases p with
  | ret a => exact Or.inr ⟨a, rfl, h⟩
  | bug => exact h.elim
  | running => exact h.elim
  | look f next => exact Or.inl ⟨_, .look bits own f next⟩
  | testAndSet i next =>
    left
    by_cases hi : bits i = true
    · exact ⟨_, .taken bits own i next hi⟩
    · exact ⟨_, .set bits own i next (by simpa using hi)⟩

/-- A program that ensures a postcondition ends in every run: the number of its
accesses is bounded, and where no further access is possible it has returned. -/
theorem Prog.Ensures.sound {bits : ι → Bool} {p : Prog ι α} (h : p.Ensures post []) {n : Nat}
    (run : Run ⟨bits, [], p⟩ n c) :
    n ≤ p.depth ∧ ((∃ c', Access c c') ∨ ∃ a, c.prog = .ret a ∧ post a c.own) := by
  obtain ⟨-, hpost, hdepth⟩ := run.inv (fun i hi => absurd hi List.not_mem_nil) h
  have hdepth : n + c.prog.depth ≤ p.depth := hdepth
  exact ⟨by omega, hpost.progress⟩

/-- What every access keeps holds when the program returns without other threads. -/
theorem Prog.alone_keeps {P : Config ι α → Prop} (step : ∀ {c c'}, P c → Access c c' → P c')
    {p : Prog ι α} : ∀ {bits bits' : ι → Bool} {own : List ι} {a : α},
    p.alone bits = some (a, bits') → P ⟨bits, own, p⟩ → ∃ own', P ⟨bits', own', .ret a⟩ := by
  induction p with
  | ret a =>
    intro bits bits' own b h here
    cases h
    exact ⟨own, here⟩
  | bug =>
    intro bits bits' own b h
    cases h
  | running =>
    intro bits bits' own b h
    cases h
  | look f next ih =>
    intro bits bits' own b h here
    exact ih (f bits) h (step here (.look bits own f next))
  | testAndSet i next ih =>
    intro bits bits' own b h here
    by_cases hi : bits i = true
    · rw [alone, if_pos hi] at h
      exact ih true h (step here (.taken bits own i next hi))
    · rw [alone, if_neg hi] at h
      exact ih false h (step here (.set bits own i next (by simpa using hi)))

/-- Without other threads the program has the run of `alone`. -/
theorem Prog.alone_run {p : Prog ι α} {bits bits' : ι → Bool} {own : List ι} {n : Nat} {a : α}
    (h : p.alone bits = some (a, bits')) (run : Run c n ⟨bits, own, p⟩) :
    ∃ n' own', Run c n' ⟨bits', own', .ret a⟩ := by
  have hstep : ∀ {c1 c2 : Config ι α}, (∃ n', Run c n' c1) → Access c1 c2 → ∃ n', Run c n' c2 := by
    rintro c1 c2 ⟨n', run'⟩ haccess
    exact ⟨n' + 1, run'.access haccess⟩
  obtain ⟨own', n', run'⟩ := Prog.alone_keeps hstep h ⟨n, run⟩
  exact ⟨n', own', run'⟩

/-- What a program ensures it does without other threads, too. -/
theorem Prog.Ensures.of_alone {p : Prog ι α} {bits bits' : ι → Bool} {a : α}
    (h : p.Ensures post []) (halone : p.alone bits = some (a, bits')) : ∃ own, post a own := by
  obtain ⟨n, own, run⟩ := Prog.alone_run halone (.start (c := ⟨bits, [], p⟩))
  obtain ⟨-, hpost, -⟩ := run.inv (fun i hi => absurd hi List.not_mem_nil) h
  exact ⟨own, hpost⟩

end Semantics

end Interference
