import KrFs.Lib.LinkGraph

/-!
# Directories form one tree

Following the parents from any directory that has not been removed leads to the root. What
makes and removes names keeps it so, and so does the move of a directory to a place that is
not below the directory itself.
-/

namespace LinkGraph

variable {ι N : Type}

/-- What can happen besides moves. -/
inductive Edit [DecidableEq ι] [DecidableEq N] (L : LinkGraph ι N) : LinkGraph ι N → Prop
  | addFile (i : ι) (unused : L.used i = false) : Edit L (L.addFile i)
  | link (k : ι × N) (i : ι) (live : L.Live k.1) (free : L.entry k = none)
      (used : L.used i = true) (file : L.isDir i = false) : Edit L (L.link k i)
  | unlink (k : ι × N) (i : ι) (named : L.entry k = some i) (file : L.isDir i = false) :
      Edit L (L.unlink k i)
  | mkdir (k : ι × N) (i : ι) (live : L.Live k.1) (free : L.entry k = none)
      (unused : L.used i = false) : Edit L (L.mkdir k i)
  | rmdir (k : ι × N) (i : ι) (parent : Option ι) (named : L.entry k = some i)
      (isDir : L.isDir i = true) (empty : ∀ n, L.entry (i, n) = none) :
      Edit L (L.rmdir k i parent)
  | evict (i : ι) (unlinked : L.nlink i = 0) : Edit L (L.evict i)

/-- Edits that leave the directory `d` there, and moves of `i` into it. -/
inductive Turn [DecidableEq ι] [DecidableEq N] (i d : ι) (L : LinkGraph ι N) : LinkGraph ι N → Prop
  | edit {L' : LinkGraph ι N} (edit : L.Edit L') (before : L.Live d) (after : L'.Live d) :
      Turn i d L L'
  | move (k : ι × N) (n : N) (named : L.entry k = some i) (live : L.Live d)
      (free : L.entry (d, n) = none) (outside : d ≠ i) : Turn i d L (L.move k (d, n) i)

/-- `b` is `a` or a parent of it, or a parent of that, and so on. -/
def Climbs (L : LinkGraph ι N) : ι → ι → Prop := Relation.ReflTransGen fun a b => L.up a = some b

/-- Every directory that has not been removed is in the tree of the root. -/
def Rooted (L : LinkGraph ι N) (root : ι) : Prop := ∀ d, L.Live d → L.Climbs d root

section Climb

variable {L L' : LinkGraph ι N} {root d i o : ι} {k : ι × N}

theorem Counted.up_live (h : L.Counted root) (hd : L.Live d) : ∃ p, L.up d = some p ∧ L.Live p := by
  by_cases hroot : d = root
  · rw [hroot]
    exact ⟨root, h.rootUp, h.rootLive⟩
  · obtain ⟨k, hk⟩ := h.linked hd hroot
    exact ⟨k.1, h.parent hd.isDir hk, h.place hk⟩

/-- Where parents stay, so do the ways up. -/
theorem Counted.climbs_same (h : L.Counted root) (h' : L'.Counted root)
    (hup : ∀ {a}, L.Live a → L'.Live a → L'.up a = L.up a) (hclimbs : L.Climbs d o) (hd : L.Live d)
    (hd' : L'.Live d) : L'.Climbs d o := by
  induction hclimbs using Relation.ReflTransGen.head_induction_on with
  | refl => exact .refl
  | head hfirst _ ih =>
    have hfirst' := (hup hd hd').trans hfirst
    obtain ⟨p, hp, hlive⟩ := h.up_live hd
    obtain ⟨p', hp', hlive'⟩ := h'.up_live hd'
    rw [hfirst] at hp
    rw [hfirst'] at hp'
    cases hp
    cases hp'
    exact .head hfirst' (ih hlive hlive')

/-- What has no names in it is not the place of a name. -/
theorem ne_of_empty (named : L.entry k = some i) (empty : ∀ n, L.entry (i, n) = none) : k.1 ≠ i := by
  rintro rfl
  have hnone := empty k.2
  rw [hnone] at named
  cases named

end Climb

section Edits

variable [DecidableEq ι] [DecidableEq N] {L L' : LinkGraph ι N} {root d i o : ι} {k : ι × N}

theorem Edit.step (edit : L.Edit L') : L.Step L' := by
  cases edit with
  | addFile i unused => exact .addFile i unused
  | link k i live free used file => exact .link k i live free used file
  | unlink k i named file => exact .unlink k i named file
  | mkdir k i live free unused => exact .mkdir k i live free unused
  | rmdir k i parent named isDir empty => exact .rmdir k i parent named isDir empty
  | evict i unlinked => exact .evict i unlinked

theorem Turn.step (turn : L.Turn i d L') : L.Step L' := by
  cases turn with
  | edit edit => exact edit.step
  | move k n named live free outside => exact .move k (d, n) i named live free outside

/-- A directory was there, or it is new in a directory that was. -/
theorem Edit.parents (edit : L.Edit L') (hd : L'.Live d) :
    L.Live d ∨ ∃ p, L'.up d = some p ∧ L.Live p := by
  cases edit with
  | addFile i unused =>
    have hfile : (L.addFile i).isDir i = false := Function.update_self _ _ _
    have hne : d ≠ i := dir_ne_file hd.isDir hfile
    left
    exact hd.of_same (Function.update_of_ne hne _ _).symm (Function.update_of_ne hne _ _).symm
      (Function.update_of_ne hne _ _).symm
  | link k i live free used file =>
    have hne : d ≠ i := dir_ne_file (L := L) hd.isDir file
    left
    exact hd.of_same rfl rfl (Function.update_of_ne hne _ _).symm
  | unlink k i named file =>
    have hne : d ≠ i := dir_ne_file (L := L) hd.isDir file
    left
    exact hd.of_same rfl rfl (Function.update_of_ne hne _ _).symm
  | mkdir k i live free unused =>
    by_cases hi : d = i
    · right
      rw [hi]
      exact ⟨k.1, Function.update_self _ _ _, live⟩
    · left
      exact hd.of_mkdir live hi
  | rmdir k i parent named isDir empty =>
    have hne : d ≠ i := by
      rintro rfl
      exact hd.linked (rmdir_dead (ne_of_empty named empty))
    left
    refine ⟨hd.used, hd.isDir, fun hzero => hd.linked ?_⟩
    by_cases hk : d = k.1
    · rw [hk, rmdir_parent, ← hk, hzero]
    · rw [rmdir_nlink hne hk, hzero]
  | evict i unlinked =>
    have hfile : (L.evict i).isDir i = false := Function.update_self _ _ _
    have hne : d ≠ i := dir_ne_file hd.isDir hfile
    left
    exact hd.of_same (Function.update_of_ne hne _ _).symm (Function.update_of_ne hne _ _).symm rfl

/-- A directory that is there before and after has the same parent. -/
theorem Edit.up_eq (edit : L.Edit L') (hd : L.Live d) (hd' : L'.Live d) : L'.up d = L.up d := by
  cases edit with
  | mkdir k i live free unused => exact Function.update_of_ne (hd.ne_unused unused) _ _
  | addFile i unused => exact Function.update_of_ne (hd.ne_unused unused) _ _
  | evict i unlinked =>
    have hne : d ≠ i := by
      rintro rfl
      exact hd.linked unlinked
    exact Function.update_of_ne hne _ _
  | link => rfl
  | unlink => rfl
  | rmdir k i parent named isDir empty =>
    have hne : d ≠ i := by
      rintro rfl
      exact hd'.linked (rmdir_dead (ne_of_empty named empty))
    exact Function.update_of_ne hne _ _

theorem Edit.rooted (edit : L.Edit L') (h : L.Counted root) (h' : L'.Counted root)
    (hrooted : L.Rooted root) : L'.Rooted root := by
  intro d hd
  have hkeep : ∀ {p}, L.Live p → L'.Live p → L'.Climbs p root := fun hp hp' =>
    h.climbs_same h' (fun ha ha' => edit.up_eq ha ha') (hrooted _ hp) hp hp'
  rcases edit.parents hd with hold | ⟨p, hup, hp⟩
  · exact hkeep hold hd
  · obtain ⟨p', hup', hp'⟩ := h'.up_live hd
    rw [hup] at hup'
    cases hup'
    exact .head hup (hkeep hp hp')

end Edits

section Moves

variable [DecidableEq ι] [DecidableEq N] {L L' : LinkGraph ι N} {root d i o : ι} {k : ι × N} {n : N}

/-- The ways up that do not pass the directory that is moved. -/
theorem climbs_move (isDir : L.isDir i = true) (hclimbs : L.Climbs o root) (hnot : ¬ L.Climbs o i) :
    (L.move k (d, n) i).Climbs o root := by
  have hup : (L.move k (d, n) i).up = Function.update L.up i (some d) := if_pos isDir
  induction hclimbs using Relation.ReflTransGen.head_induction_on with
  | refl => exact .refl
  | @head a b hfirst _ ih =>
    have hne : a ≠ i := by
      rintro rfl
      exact hnot .refl
    refine .head ?_ (ih fun hb => hnot (.head hfirst hb))
    rw [hup, Function.update_of_ne hne]
    exact hfirst

/-- The ways up to it, up to it. -/
theorem climbs_moved (isDir : L.isDir i = true) (hclimbs : L.Climbs o i) :
    (L.move k (d, n) i).Climbs o i := by
  have hup : (L.move k (d, n) i).up = Function.update L.up i (some d) := if_pos isDir
  induction hclimbs using Relation.ReflTransGen.head_induction_on with
  | refl => exact .refl
  | @head a b hfirst _ ih =>
    by_cases hne : a = i
    · rw [hne]
      exact .refl
    · refine .head ?_ ih
      rw [hup, Function.update_of_ne hne]
      exact hfirst

/-- What the steps of a turn keep: the tree has one root, and `d` stays where it is, not below
`i`. -/
structure Apart (L : LinkGraph ι N) (root i d : ι) : Prop where
  counted : L.Counted root
  rooted : L.Rooted root
  apart : ¬ L.Climbs d i

theorem Apart.move (h : L.Apart root i d) (named : L.entry k = some i) (live : L.Live d)
    (free : L.entry (d, n) = none) (outside : d ≠ i) : (L.move k (d, n) i).Apart root i d := by
  have hcounted : (L.move k (d, n) i).Counted root :=
    (Step.move k (d, n) i named live free outside).counted h.counted
  cases isDir : L.isDir i with
  | true =>
    have hup : (L.move k (d, n) i).up = Function.update L.up i (some d) := if_pos isDir
    have hlive : ∀ {a}, (L.move k (d, n) i).Live a → L.Live a := fun ha =>
      h.counted.of_move named live isDir ha
    have hd : (L.move k (d, n) i).Climbs d root := climbs_move isDir (h.rooted d live) h.apart
    constructor
    · exact hcounted
    · intro a ha
      by_cases hbelow : L.Climbs a i
      · have hi : (L.move k (d, n) i).up i = some d := by rw [hup, Function.update_self]
        exact (climbs_moved isDir hbelow).trans (.head hi hd)
      · exact climbs_move isDir (h.rooted a (hlive ha)) hbelow
    · intro hclimbs
      refine h.apart ?_
      -- up to `i` for the first time the parents are the old ones
      have hold : ∀ {a}, (L.move k (d, n) i).Climbs a i → L.Climbs a i := by
        intro a ha
        induction ha using Relation.ReflTransGen.head_induction_on with
        | refl => exact .refl
        | @head a b hfirst _ ih =>
          by_cases hne : a = i
          · rw [hne]
            exact .refl
          · rw [hup, Function.update_of_ne hne] at hfirst
            exact .head hfirst ih
      exact hold hclimbs
  | false =>
    have hup : (L.move k (d, n) i).up = L.up := by
      simp [LinkGraph.move, isDir]
    have hclimbs : (L.move k (d, n) i).Climbs = L.Climbs := by
      unfold Climbs
      rw [hup]
    constructor
    · exact hcounted
    · intro a ha
      have hlive : L.Live a := ha.of_same rfl rfl (by simp [LinkGraph.move, isDir])
      rw [hclimbs]
      exact h.rooted a hlive
    · rw [hclimbs]
      exact h.apart

theorem Turn.apart (turn : L.Turn i d L') (h : L.Apart root i d) : L'.Apart root i d := by
  cases turn with
  | edit edit before after =>
    have hcounted := edit.step.counted h.counted
    constructor
    · exact hcounted
    · exact edit.rooted h.counted hcounted h.rooted
    · intro hclimbs
      exact h.apart (hcounted.climbs_same h.counted (fun ha ha' => (edit.up_eq ha' ha).symm) hclimbs
        after before)
  | move k n named live free outside => exact h.move named live free outside

/-- A run of edits keeps the tree. -/
theorem Rooted.edits (h : L.Counted root) (hrooted : L.Rooted root)
    (steps : Relation.ReflTransGen Edit L L') : L'.Counted root ∧ L'.Rooted root := by
  induction steps with
  | refl => exact ⟨h, hrooted⟩
  | tail _ edit ih =>
    have hcounted := edit.step.counted ih.1
    exact ⟨hcounted, edit.rooted ih.1 hcounted ih.2⟩

/-- So does a move that does not go below the object itself. -/
theorem Apart.turns (h : L.Apart root i d) (steps : Relation.ReflTransGen (Turn i d) L L') :
    L'.Apart root i d := by
  induction steps with
  | refl => exact h
  | tail _ turn ih => exact turn.apart ih

end Moves

section Paths

variable {L : LinkGraph ι N} {root d i : ι}

/-- The object that a path of names leads to. -/
def resolve (L : LinkGraph ι N) : ι → List N → Option ι
  | i, [] => some i
  | i, n :: path => (L.entry (i, n)).bind fun j => resolve L j path

theorem resolve_append (path path' : List N) : ∀ i : ι,
    L.resolve i (path ++ path') = (L.resolve i path).bind fun j => L.resolve j path' := by
  induction path with
  | nil => exact fun _ => rfl
  | cons n path ih =>
    intro i
    cases hn : L.entry (i, n) with
    | none => simp [resolve, hn]
    | some j => simpa [resolve, hn] using ih j

/-- There is a path of names to every directory, and so to everything that has a name. -/
theorem Counted.resolves (h : L.Counted root) (hrooted : L.Rooted root) (hd : L.Live d) :
    ∃ path, L.resolve root path = some d := by
  have hclimbs := hrooted d hd
  induction hclimbs using Relation.ReflTransGen.head_induction_on with
  | refl => exact ⟨[], rfl⟩
  | @head a b hfirst _ ih =>
    by_cases hroot : a = root
    · rw [hroot]
      exact ⟨[], rfl⟩
    · obtain ⟨k, hk⟩ := h.linked hd hroot
      have hparent := h.parent hd.isDir hk
      rw [hfirst] at hparent
      cases hparent
      obtain ⟨path, hpath⟩ := ih (h.place hk)
      refine ⟨path ++ [k.2], ?_⟩
      rw [resolve_append, hpath]
      simp [resolve, hk]

theorem Counted.resolves_named (h : L.Counted root) (hrooted : L.Rooted root) {k : ι × N}
    (hk : L.entry k = some i) : ∃ path, L.resolve root path = some i := by
  obtain ⟨path, hpath⟩ := h.resolves hrooted (h.place hk)
  refine ⟨path ++ [k.2], ?_⟩
  rw [resolve_append, hpath]
  simp [resolve, hk]

end Paths

end LinkGraph
