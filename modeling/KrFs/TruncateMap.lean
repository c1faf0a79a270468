import KrFs.Consistency
import KrFs.LogicalBlock
import Mathlib.Data.List.Lex
import Mathlib.Data.Rat.Floor

/-!
# What a truncation leaves mapped

The paths of the logical blocks are ordered as the blocks are. Every step of
`__kr_truncate_blocks` clears slots of one array on the branch, which unmaps the
paths through these slots and no other; together they are the paths from the
first block to be cut off on.
-/

namespace KrFs

open PtrTree SearchTree

/-! ## Memories with slots cleared -/

/-- Slots have been cleared and nothing else was written. -/
def Mem.Shrunk (m m' : Mem) : Prop :=
  ∀ b, b ≠ .top → ∀ i, m'.row b i = 0 ∨ m'.row b i = m.row b i

section Shrunk

variable {m m' m'' : Mem} {apb : Nat}

theorem Mem.Shrunk.refl (m : Mem) : m.Shrunk m := fun _ _ _ => Or.inr rfl

theorem Mem.Shrunk.trans (h : m.Shrunk m') (h' : m'.Shrunk m'') : m.Shrunk m'' := by
  intro b hb i
  rcases h' b hb i with hz | hsame
  · exact Or.inl hz
  · rw [hsame]
    exact h b hb i

theorem Mem.shrunk_write (m : Mem) (base : Base) (i : Nat) : m.Shrunk (m.write base i 0) := by
  intro b hb j
  by_cases hbase : b = base
  · subst hbase
    rw [m.row_write_self b i j fun ht => absurd ht hb]
    by_cases hj : j = i
    · exact Or.inl (if_pos hj)
    · exact Or.inr (if_neg hj)
  · exact Or.inr (by rw [m.row_write_ne hbase])

theorem freeDataLoop_shrunk (base : Base) (n : Nat) : ∀ (m : Mem) (p block count : Nat),
    m.Shrunk (freeDataLoop base n m p block count).1 := by
  induction n with
  | zero => exact fun m _ _ _ => Mem.Shrunk.refl m
  | succ n ih =>
    intro m p block count
    unfold freeDataLoop
    dsimp only
    split
    · exact ih m _ _ _
    split
    · exact (m.shrunk_write base p).trans (ih _ _ _ _)
    split
    · exact (m.shrunk_write base p).trans (ih _ _ _ _)
    · exact (m.shrunk_write base p).trans (ih _ _ _ _)

theorem freeBranchesLoop_shrunk {inner : Mem → Nat → Mem × List (Nat × Nat)}
    (hinner : ∀ (m : Mem) (nr : Nat), m.Shrunk (inner m nr).1) (bread : Nat → Bool) (base : Base) (n : Nat) :
    ∀ (m : Mem) (p : Nat), m.Shrunk (freeBranchesLoop inner bread base n m p).1 := by
  induction n with
  | zero => exact fun m _ => Mem.Shrunk.refl m
  | succ n ih =>
    intro m p
    unfold freeBranchesLoop
    dsimp only
    split
    · exact ih m _
    split
    · exact (m.shrunk_write base p).trans (ih _ _)
    · exact ((m.shrunk_write base p).trans (hinner _ _)).trans (ih _ _)

theorem krFreeBranches_shrunk (bread : Nat → Bool) (apb d : Nat) :
    ∀ (base : Base) (m : Mem) (p q : Nat), m.Shrunk (krFreeBranches bread apb d base m p q).1 := by
  induction d with
  | zero => exact fun base m p q => freeDataLoop_shrunk base (q - p) m p 0 0
  | succ d ih =>
    intro base m p q
    exact freeBranchesLoop_shrunk (fun m nr => ih (.block nr) m 0 apb) bread base (q - p) m p

theorem freeTop_shrunk (bread : Nat → Bool) (apb d : Nat) (m : Mem) (nr : Nat) :
    m.Shrunk (freeTop bread apb d m nr).1 := by
  unfold freeTop
  split
  · exact Mem.Shrunk.refl m
  · intro b hb i
    have hrow : ({ m with nr := nr } : Mem).row b = m.row b := by
      cases b with
      | inode => rfl
      | block c => rfl
      | top => exact absurd rfl hb
    rw [← hrow]
    exact krFreeBranches_shrunk bread apb d .top { m with nr := nr } 0 1 b hb i

theorem Mem.Shrunk.follow (h : m.Shrunk m') (offsets : List Nat) :
    ∀ {nr : Nat}, m'.follow nr offsets ≠ 0 → m'.follow nr offsets = m.follow nr offsets := by
  induction offsets with
  | nil => exact fun _ => rfl
  | cons off offsets ih =>
    intro nr hne
    have hnr : nr ≠ 0 := by
      rintro rfl
      exact hne (Mem.follow_zero _)
    rw [Mem.follow_cons hnr] at hne ⊢
    rw [Mem.follow_cons hnr]
    rcases h (.block nr) (by simp) off with hz | hsame
    · have hz : m'.ptr nr off = 0 := hz
      rw [hz] at hne
      exact absurd (Mem.follow_zero _) hne
    · have hsame : m'.ptr nr off = m.ptr nr off := hsame
      rw [hsame] at hne ⊢
      exact ih hne

/-- What is still mapped is mapped as before. -/
theorem Mem.Shrunk.blockAt (h : m.Shrunk m') {offsets : List Nat} (hne : m'.blockAt offsets ≠ 0) :
    m'.blockAt offsets = m.blockAt offsets := by
  cases offsets with
  | nil => rfl
  | cons off offsets =>
    have hne : m'.follow (m'.iData off) offsets ≠ 0 := hne
    rcases h .inode (by simp) off with hz | hsame
    · have hz : m'.iData off = 0 := hz
      rw [hz] at hne
      exact absurd (Mem.follow_zero _) hne
    · have hsame : m'.iData off = m.iData off := hsame
      rw [Mem.blockAt, Mem.blockAt, h.follow offsets hne, hsame]

theorem Mem.Shrunk.subtree_le (h : m.Shrunk m') (d : Nat) :
    ∀ nr, subtree m'.ptr apb d nr ≤ subtree m.ptr apb d nr := by
  induction d with
  | zero => exact fun nr => le_refl _
  | succ d ih =>
    intro nr
    by_cases hnr : nr = 0
    · simp [hnr]
    · rw [PtrTree.subtree_succ hnr, PtrTree.subtree_succ hnr]
      refine Multiset.cons_le_cons nr (Finset.sum_le_sum fun i _ => ?_)
      rcases h (.block nr) (by simp) i with hz | hsame
      · have hz : m'.ptr nr i = 0 := hz
        rw [hz, subtree_null]
        exact Multiset.zero_le _
      · have hsame : m'.ptr nr i = m.ptr nr i := hsame
        rw [hsame]
        exact ih _

theorem Mem.Shrunk.nodup (h : m.Shrunk m') (hnd : (m.fileTree apb).Nodup) :
    (m'.fileTree apb).Nodup := by
  have hle : m'.fileTree apb ≤ m.fileTree apb := by
    unfold Mem.fileTree Mem.forest PtrTree.forest
    refine Finset.sum_le_sum fun i _ => ?_
    rcases h .inode (by simp) i with hz | hsame
    · rw [hz, subtree_null]
      exact Multiset.zero_le _
    · rw [hsame]
      exact h.subtree_le _ _
  exact Multiset.nodup_of_le hle hnd

end Shrunk

/-! ## Clearing a run of slots -/

section Run

variable {m m' m'' : Mem} {apb : Nat}

/-- Every block of a tree is at the end of a path. -/
theorem Mem.mem_subtree_follow (d : Nat) : ∀ {nr b : Nat}, b ∈ subtree m.ptr apb d nr →
    ∃ offsets, offsets.length ≤ d ∧ (∀ o ∈ offsets, o < apb) ∧ m.follow nr offsets = b := by
  induction d with
  | zero =>
    intro nr b hb
    have hnr : nr ≠ 0 := by
      rintro rfl
      simp at hb
    rw [subtree_leaf hnr, Multiset.mem_singleton] at hb
    exact ⟨[], le_refl _, by simp, hb.symm⟩
  | succ d ih =>
    intro nr b hb
    have hnr : nr ≠ 0 := by
      rintro rfl
      simp at hb
    rw [PtrTree.subtree_succ hnr, Multiset.mem_cons] at hb
    rcases hb with rfl | hb
    · exact ⟨[], by simp, by simp, rfl⟩
    · obtain ⟨off, hoff, hb⟩ := mem_forest.mp hb
      obtain ⟨offsets, hlen, hlt, hfollow⟩ := ih hb
      refine ⟨off :: offsets, by simpa using hlen, ?_, ?_⟩
      · intro o ho
        rcases List.mem_cons.mp ho with rfl | ho
        · exact hoff
        · exact hlt o ho
      · rw [Mem.follow_cons hnr, hfollow]

theorem Mem.follow_subtree_le (offsets : List Nat) : ∀ {d nr : Nat},
    (∀ o ∈ offsets, o < apb) → m.follow nr offsets ≠ 0 →
    subtree m.ptr apb d (m.follow nr offsets) ≤ subtree m.ptr apb (d + offsets.length) nr := by
  induction offsets with
  | nil => exact fun _ _ => le_refl _
  | cons off offsets ih =>
    intro d nr hlt hne
    have hnr : nr ≠ 0 := by
      rintro rfl
      exact hne (Mem.follow_zero _)
    rw [Mem.follow_cons hnr] at hne ⊢
    rw [List.length_cons, ← Nat.add_assoc, PtrTree.subtree_succ hnr]
    have hbelow : subtree m.ptr apb d (m.follow (m.ptr nr off) offsets) ≤
        subtree m.ptr apb (d + offsets.length) (m.ptr nr off) :=
      ih (fun o ho => hlt o (by simp [ho])) hne
    have hslot : subtree m.ptr apb (d + offsets.length) (m.ptr nr off) ≤
        PtrTree.forest m.ptr apb (fun _ => d + offsets.length) (m.ptr nr) apb :=
      subtree_le_forest (fun _ => d + offsets.length) (hlt off (by simp))
    exact (hbelow.trans hslot).trans (Multiset.le_cons_self _ _)

/-- The tree below a beginning of a path, with the depth that is left. -/
theorem Mem.blockAt_subtree_le {front : List Nat} {d : Nat} (h : SubPath apb front)
    (hd : front.length + d = front.headD 0 - 11 + 1) (hne : m.blockAt front ≠ 0) :
    subtree m.ptr apb d (m.blockAt front) ≤ m.fileTree apb := by
  obtain ⟨o, os, rfl⟩ := List.exists_cons_of_ne_nil h.ne_nil
  have hle : subtree m.ptr apb d (m.follow (m.iData o) os) ≤
      subtree m.ptr apb (d + os.length) (m.iData o) := Mem.follow_subtree_le os h.tail_lt hne
  have hd : os.length + 1 + d = o - 11 + 1 := by simpa using hd
  have hdepth : d + os.length = o - 11 := by omega
  rw [hdepth] at hle
  exact hle.trans (subtree_le_forest (fun slot => slot - 11) h.head_lt)

/-- The paths in `hit` are unmapped and the others are as before. -/
structure Cut (apb : Nat) (hit : List Nat → Prop) (m m' : Mem) : Prop where
  shrunk : m.Shrunk m'
  unmapped : ∀ f, SubPath apb f → hit f → m'.blockAt f = 0
  same : ∀ f, SubPath apb f → ¬ hit f → m'.blockAt f = m.blockAt f

theorem Cut.trans {hit hit' : List Nat → Prop} (h : Cut apb hit m m') (h' : Cut apb hit' m' m'') :
    Cut apb (fun f => hit f ∨ hit' f) m m'' := by
  refine ⟨h.shrunk.trans h'.shrunk, fun f hf hhit => ?_, fun f hf hhit => ?_⟩
  · by_cases h2 : hit' f
    · exact h'.unmapped f hf h2
    · rw [h'.same f hf h2]
      exact h.unmapped f hf (hhit.resolve_right h2)
  · rw [not_or] at hhit
    rw [h'.same f hf hhit.2, h.same f hf hhit.1]

theorem Cut.refl (m : Mem) : Cut apb (fun _ => False) m m :=
  ⟨Mem.Shrunk.refl m, fun _ _ h => h.elim, fun _ _ _ => rfl⟩

theorem Cut.congr {hit hit' : List Nat → Prop} (h : Cut apb hit m m')
    (heq : ∀ f, SubPath apb f → (hit f ↔ hit' f)) : Cut apb hit' m m' :=
  ⟨h.shrunk, fun f hf hhit => h.unmapped f hf ((heq f hf).mpr hhit),
    fun f hf hhit => h.same f hf fun h' => hhit ((heq f hf).mp h')⟩

/-- The paths through the slots `[p, p + k)` after `front`. -/
def Through (front : List Nat) (p k : Nat) (f : List Nat) : Prop :=
  ∃ o g, p ≤ o ∧ o < p + k ∧ f = front ++ o :: g

/-- The slots of a run of the array after `front`, with trees of depth `d`. -/
structure RunAt (apb : Nat) (m : Mem) (front : List Nat) (d p k : Nat) : Prop where
  live : front ≠ [] → m.blockAt front ≠ 0
  path : ∀ o, p ≤ o → o < p + k → SubPath apb (front ++ [o])
  depth : ∀ o, p ≤ o → o < p + k → front.length + d = (front ++ [o]).headD 0 - 11

theorem SubPath.left {front back : List Nat} (h : SubPath apb (front ++ back)) (hne : front ≠ []) :
    SubPath apb front := by
  obtain ⟨o, os, rfl⟩ := List.exists_cons_of_ne_nil hne
  have hlen := h.length_le
  simp only [List.cons_append, List.length_cons, List.length_append, List.headD_cons] at hlen
  refine ⟨hne, h.head_lt, ?_, fun i hi => h.tail_lt i ?_⟩
  · simp only [List.length_cons, List.headD_cons]
    omega
  · simp only [List.cons_append, List.tail_cons, List.mem_append]
    exact Or.inl hi

theorem SubPath.snoc {front : List Nat} {o : Nat} (h : SubPath apb front) (ho : o < apb)
    (hlen : front.length ≤ front.headD 0 - 11) : SubPath apb (front ++ [o]) := by
  obtain ⟨i, is, rfl⟩ := List.exists_cons_of_ne_nil h.ne_nil
  refine ⟨by simp, h.head_lt, ?_, fun j hj => ?_⟩
  · simp only [List.cons_append, List.length_cons, List.length_append, List.headD_cons,
      List.length_nil] at hlen ⊢
    omega
  · simp only [List.cons_append, List.tail_cons, List.mem_append, List.mem_singleton] at hj
    rcases hj with hj | rfl
    · exact h.tail_lt j hj
    · exact ho

/-- A block below the run is at the end of a path through it. -/
theorem RunAt.mem_slice_path {front : List Nat} {d p k b : Nat} (h : RunAt apb m front d p k)
    (hb : b ∈ m.slice apb d (m.slotBase front) p k) :
    ∃ o g, p ≤ o ∧ o < p + k ∧ SubPath apb (front ++ o :: g) ∧ m.blockAt (front ++ o :: g) = b := by
  obtain ⟨o, h1, h2, hb⟩ := mem_slice.mp hb
  obtain ⟨g, hlen, hlt, hfollow⟩ := Mem.mem_subtree_follow d hb
  have hsub := h.path o h1 h2
  have hdepth := h.depth o h1 h2
  have hsplit : front ++ o :: g = (front ++ [o]) ++ g := by simp
  refine ⟨o, g, h1, h2, ⟨by simp, ?_, ?_, ?_⟩, ?_⟩
  · have hhead := hsub.head_lt
    cases front with
    | nil => exact hhead
    | cons => exact hhead
  · have hhead : (front ++ o :: g).headD 0 = (front ++ [o]).headD 0 := by
      cases front with
      | nil => rfl
      | cons => rfl
    rw [hhead, List.length_append, List.length_cons]
    omega
  · intro i hi
    rw [hsplit, List.tail_append_of_ne_nil (by simp), List.mem_append] at hi
    rcases hi with hi | hi
    · exact hsub.tail_lt i hi
    · exact hlt i hi
  · rw [hsplit, Mem.blockAt_append (by simp), Mem.blockAt_snoc o h.live, hfollow]

/-- Clearing a run of slots unmaps the paths through it. -/
theorem Cleared.cut {front : List Nat} {d p k : Nat} (hrun : RunAt apb m front d p k)
    (h : Cleared (m.slice apb d (m.slotBase front) p k) (m.slotBase front) p k m m')
    (hshrunk : m.Shrunk m') (hnd : (m.fileTree apb).Nodup) :
    Cut apb (Through front p k) m m' := by
  have hsame : ∀ f, SubPath apb f → ¬ Through front p k f → m'.blockAt f = m.blockAt f := by
    intro f hf hhit
    by_cases hz : m.blockAt f = 0
    · by_contra hne
      rw [hz] at hne
      exact hne ((hshrunk.blockAt hne).trans hz)
    · refine Mem.blockAt_keep f (fun g o rest hsplit hlive => ?_) hz
      have hg : g ≠ [] → SubPath apb g ∧ m.blockAt g ≠ 0 := by
        intro hne
        rw [hsplit] at hf hz
        exact ⟨hf.left hne, Mem.blockAt_front hz hne⟩
      by_cases hbase : m.slotBase g = m.slotBase front
      · -- the slot lies in the array of the run, and outside the run
        rw [hbase]
        refine h.keep o fun hin => hhit ⟨o, rest, hin.1, hin.2, ?_⟩
        have hfront := fun hne => (hrun.path o hin.1 hin.2).left hne
        rw [Mem.slotBase_inj hg hfront hnd hbase.symm]
        exact hsplit
      · -- otherwise it is the array of a block, which is not below the run
        refine congrFun (h.others _ hbase fun c hc hmem => ?_) o
        obtain ⟨o', g', h1, h2, hsub, hblock⟩ := hrun.mem_slice_path hmem
        have hgne : g ≠ [] := by
          rintro rfl
          cases hc
        rw [Mem.slotBase, if_neg hgne, Base.block.injEq] at hc
        have hgeq := Mem.blockAt_unique (hg hgne).1 hsub hnd (hg hgne).2 (hblock.trans hc.symm)
        refine hhit ⟨o', g' ++ o :: rest, h1, h2, ?_⟩
        rw [hsplit, hgeq]
        simp
  refine ⟨hshrunk, ?_, hsame⟩
  rintro f hf ⟨o, g, h1, h2, rfl⟩
  have hfront : front ≠ [] → m'.blockAt front = m.blockAt front := by
    intro hne
    refine hsame front (hf.left hne) ?_
    rintro ⟨o', g', -, -, hlen⟩
    have hlen := congrArg List.length hlen
    simp only [List.length_append, List.length_cons] at hlen
    omega
  have hbase : m'.slotBase front = m.slotBase front := by
    by_cases hnil : front = []
    · simp [Mem.slotBase, hnil]
    · simp [Mem.slotBase, hnil, hfront hnil]
  have hslot : m'.blockAt (front ++ [o]) = 0 := by
    rw [Mem.blockAt_snoc o fun hne => by rw [hfront hne]; exact hrun.live hne, hbase]
    exact h.zero o h1 h2
  have hsplit : front ++ o :: g = (front ++ [o]) ++ g := by simp
  rw [hsplit, Mem.blockAt_append (by simp), hslot, Mem.follow_zero]

/-- The run as `kr_free_branches` wants it. -/
theorem RunAt.slice_nodup {front : List Nat} {d p k : Nat} (h : RunAt apb m front d p k)
    (hnd : (m.fileTree apb).Nodup) (hin : front ≠ [] → p + k ≤ apb) :
    (m.slice apb d (m.slotBase front) p k).Nodup ∧
      Apart (m.slotBase front) (m.slice apb d (m.slotBase front) p k) := by
  rcases Nat.eq_zero_or_pos k with rfl | hk
  · rw [Mem.slice, slice_zero]
    exact ⟨Multiset.nodup_zero, fun _ _ => Multiset.notMem_zero _⟩
  by_cases hnil : front = []
  · subst hnil
    have hbase : m.slotBase [] = .inode := rfl
    have hrange : p + k ≤ 15 := by
      have := (h.path (p + k - 1) (by omega) (by omega)).head_lt
      simp only [List.nil_append, List.headD_cons] at this
      omega
    have hlevel : ∀ i, p ≤ i → i < p + k → i - 11 = d := by
      intro i h1 h2
      have := h.depth i h1 h2
      simpa using this.symm
    rw [hbase]
    exact ⟨Multiset.nodup_of_le (Mem.slice_le_forest hlevel hrange) hnd, by simp [Apart]⟩
  · have hbase : m.slotBase front = .block (m.blockAt front) := if_neg hnil
    have hpath := h.path p (le_refl p) (by omega)
    have hdepth := h.depth p (le_refl p) (by omega)
    obtain ⟨o, os, rfl⟩ := List.exists_cons_of_ne_nil hnil
    have hle : subtree m.ptr apb (d + 1) (m.blockAt (o :: os)) ≤ m.fileTree apb := by
      refine Mem.blockAt_subtree_le (hpath.left hnil) ?_ (h.live hnil)
      simp only [List.cons_append, List.headD_cons, List.length_cons] at hdepth ⊢
      omega
    have hwhole := Multiset.nodup_of_le hle hnd
    rw [PtrTree.subtree_succ (h.live hnil)] at hwhole
    obtain ⟨hself, hfor⟩ := Multiset.nodup_cons.mp hwhole
    have hslice : m.slice apb d (.block (m.blockAt (o :: os))) p k ≤
        m.forest apb (fun _ => d) (.block (m.blockAt (o :: os))) apb :=
      Mem.slice_le_forest (fun _ _ _ => rfl) (hin hnil)
    rw [hbase]
    refine ⟨Multiset.nodup_of_le hslice hfor, fun b hb hmem => ?_⟩
    obtain rfl := Base.block.inj hb
    exact hself (Multiset.mem_of_le hslice hmem)

theorem Mem.slotBase_ne_top (m : Mem) (front : List Nat) : m.slotBase front ≠ .top := by
  unfold Mem.slotBase
  split
  · simp
  · simp

theorem krFreeBranches_cut {bread : Nat → Bool} (hread : ∀ b, bread b = true) {front : List Nat}
    {d p k : Nat} (hrun : RunAt apb m front d p k) (hnd : (m.fileTree apb).Nodup)
    (hin : front ≠ [] → p + k ≤ apb) :
    Cut apb (Through front p k) m (krFreeBranches bread apb d (m.slotBase front) m p (p + k)).1 := by
  obtain ⟨hslice, hapart⟩ := hrun.slice_nodup hnd hin
  have hfreed := krFreeBranches_freed hread apb d
    (fun ht => absurd ht (m.slotBase_ne_top front)) hslice hapart
  exact hfreed.cleared.cut hrun (krFreeBranches_shrunk bread apb d _ m p (p + k)) hnd

theorem freeTop_cut {bread : Nat → Bool} (hread : ∀ b, bread b = true) {front : List Nat}
    {d off : Nat} (hrun : RunAt apb m front d off 1) (hnd : (m.fileTree apb).Nodup)
    (hin : front ≠ [] → off < apb) (hnr : m.nr = 0) :
    Cut apb (Through front off 1) m (freeTop bread apb d (m.write (m.slotBase front) off 0)
      (m.row (m.slotBase front) off)).1 := by
  obtain ⟨hslice, hapart⟩ := hrun.slice_nodup hnd hin
  have hfreed := freeTop_freed hread (m.slotBase_ne_top front) hnr hslice hapart
  exact hfreed.cleared.cut hrun
    ((m.shrunk_write _ off).trans (freeTop_shrunk bread apb d _ _)) hnd

end Run

/-! ## The ends of the branch -/

/-- The entries of a chain below the inode, in the arrays after `front` and its
continuations by the offsets. -/
inductive Placed (m : Mem) (apb : Nat) : List Nat → List Indirect → List Nat → Prop
  | nil {front : List Nat} : Placed m apb front [] []
  | cons {front offsets : List Nat} {p : Indirect} {chain : List Indirect} (live : m.blockAt front ≠ 0)
    (base : p.base = .block (m.blockAt front)) (off : p.off < apb)
    (below : Placed m apb (front ++ [p.off]) chain offsets) :
    Placed m apb front (p :: chain) (p.off :: offsets)

/-- The path takes a later slot than the offsets do, where it leaves them. -/
def Past : List Nat → List Nat → Prop
  | o :: offsets, i :: f => o < i ∨ (i = o ∧ Past offsets f)
  | _, _ => False

/-- A path that is not before the offsets leaves them to the right or begins with
them. -/
theorem past_or_prefix_iff (offsets : List Nat) : ∀ f : List Nat,
    Past offsets f ∨ offsets <+: f ↔ ¬ f < offsets := by
  induction offsets with
  | nil => exact fun f => ⟨fun _ => List.not_lt_nil f, fun _ => Or.inr List.nil_prefix⟩
  | cons o offsets ih =>
    intro f
    cases f with
    | nil => simp [Past]
    | cons i f =>
      rw [List.cons_lt_cons_iff, List.cons_prefix_cons, Past]
      rcases Nat.lt_trichotomy i o with hlt | rfl | hgt
      · refine ⟨fun h => ?_, fun h => absurd (Or.inl hlt) h⟩
        omega
      · simpa [Nat.lt_irrefl] using ih f
      · exact ⟨fun _ h => by omega, fun _ => Or.inl (Or.inl hgt)⟩

theorem past_pred_iff {off : Nat} (hoff : 0 < off) (front : List Nat) : ∀ f : List Nat,
    Past (front ++ [off - 1]) f ↔ ¬ f < front ++ [off] := by
  induction front with
  | nil =>
    intro f
    cases f with
    | nil => simp [Past]
    | cons i f =>
      rw [List.nil_append, List.nil_append, List.cons_lt_cons_iff]
      simp [Past]
      omega
  | cons o front ih =>
    intro f
    cases f with
    | nil => simp [Past]
    | cons i f =>
      rw [List.cons_append, List.cons_append, List.cons_lt_cons_iff, Past, ih f]
      rcases Nat.lt_trichotomy i o with hlt | rfl | hgt
      · refine ⟨fun h => ?_, fun h => absurd (Or.inl hlt) h⟩
        omega
      · simp
      · exact ⟨fun _ h => by omega, fun _ => Or.inl hgt⟩

section Ends

variable {m m' : Mem} {apb : Nat} {bread : Nat → Bool}

theorem Placed.keep {front offsets : List Nat} {chain : List Indirect}
    (h : Placed m apb front chain offsets)
    (hsame : ∀ g, g <+: offsets → g.length < offsets.length →
      m'.blockAt (front ++ g) = m.blockAt (front ++ g)) :
    Placed m' apb front chain offsets := by
  induction h with
  | nil => exact .nil
  | @cons front offsets p chain live base off below ih =>
    have hfront := hsame [] List.nil_prefix (by simp)
    rw [List.append_nil] at hfront
    refine .cons (by rwa [hfront]) (by rw [hfront]; exact base) off (ih fun g hpre hg => ?_)
    have := hsame (p.off :: g) (by simpa using hpre) (by simpa using hg)
    simpa using this

theorem clearEnds_nil_cut {front : List Nat} {d : Nat} :
    Cut apb (fun f => ∃ g, f = front ++ g ∧ Past [] g) m (clearEnds bread apb d m []).1 := by
  refine (Cut.refl m).congr fun f _ => ⟨False.elim, ?_⟩
  rintro ⟨g, -, hpast⟩
  cases g <;> exact hpast

/-- Clearing the ends along a branch unmaps the paths that leave it to the right. -/
theorem clearEnds_cut (hread : ∀ b, bread b = true) {front offsets : List Nat}
    {chain : List Indirect} (h : Placed m apb front chain offsets) {d : Nat} (hne : front ≠ [])
    (hfront : SubPath apb front) (hd : front.length + d = front.headD 0 - 11)
    (hlen : chain.length ≤ d + 1) (hnd : (m.fileTree apb).Nodup) :
    Cut apb (fun f => ∃ g, f = front ++ g ∧ Past offsets g) m (clearEnds bread apb d m chain).1 := by
  induction h generalizing d with
  | nil => exact clearEnds_nil_cut
  | @cons front offsets p chain live base off below ih =>
    have hsub : ∀ o < apb, SubPath apb (front ++ [o]) := fun o ho => hfront.snoc ho (by omega)
    have hhead : ∀ o, (front ++ [o]).headD 0 = front.headD 0 := by
      intro o
      obtain ⟨i, is, rfl⟩ := List.exists_cons_of_ne_nil hne
      rfl
    have hbelow : Cut apb (fun f => ∃ g, f = front ++ [p.off] ++ g ∧ Past offsets g) m
        (clearEnds bread apb (d - 1) m chain).1 := by
      cases d with
      | zero =>
        obtain rfl : chain = [] := by
          simp only [List.length_cons] at hlen
          exact List.eq_nil_of_length_eq_zero (by omega)
        cases below with
        | nil => exact clearEnds_nil_cut
      | succ d =>
        refine ih (by simp) (hsub p.off off) ?_ ?_
        · rw [hhead, List.length_append, List.length_singleton]
          omega
        · simp only [List.length_cons] at hlen
          omega
    set m1 := (clearEnds bread apb (d - 1) m chain).1 with hm1
    have hkept : m1.blockAt front = m.blockAt front := by
      refine hbelow.same front hfront ?_
      rintro ⟨g, hlong, -⟩
      have hlong := congrArg List.length hlong
      simp only [List.length_append, List.length_singleton] at hlong
      omega
    have hbase : p.base = m1.slotBase front := by
      rw [base, Mem.slotBase, if_neg hne, hkept]
    obtain ⟨k, hk⟩ : ∃ k, apb = p.off + 1 + k := ⟨apb - (p.off + 1), by omega⟩
    have hrun : RunAt apb m1 front d (p.off + 1) k := by
      refine ⟨fun _ => by rwa [hkept], fun o _ ho => hsub o (by omega), fun o _ _ => ?_⟩
      rw [hhead]
      exact hd
    have hend := krFreeBranches_cut hread hrun (hbelow.shrunk.nodup hnd) fun _ => hk.ge
    have hres : (clearEnds bread apb d m (p :: chain)).1 =
        (krFreeBranches bread apb d (m1.slotBase front) m1 (p.off + 1) (p.off + 1 + k)).1 := by
      rw [← hk, ← hbase]
      rfl
    rw [hres]
    refine (hbelow.trans hend).congr fun f hf => ⟨?_, ?_⟩
    · rintro (⟨g, rfl, hpast⟩ | ⟨o, g, hlow, -, rfl⟩)
      · exact ⟨p.off :: g, by simp, Or.inr ⟨rfl, hpast⟩⟩
      · exact ⟨o :: g, rfl, Or.inl hlow⟩
    · rintro ⟨g, rfl, hpast⟩
      cases g with
      | nil => exact hpast.elim
      | cons o g =>
        rcases hpast with hlow | ⟨rfl, hpast⟩
        · have ho : o < apb := by
            refine hf.tail_lt o ?_
            rw [List.tail_append_of_ne_nil hne]
            simp
          exact Or.inr ⟨o, g, hlow, by omega, rfl⟩
        · exact Or.inl ⟨g, by simp, hpast⟩

end Ends

/-! ## The branch that `kr_find_shared` keeps -/

section Shared

variable {m : Mem} {apb : Nat} {readPath : Nat → Bool}

theorem sharedDepth_zero (offsets : List Nat) : ∀ n : Nat,
    (∀ i, sharedDepth offsets n ≤ i → i < n → offsets.getD i 0 = 0) ∧
      (1 < sharedDepth offsets n → offsets.getD (sharedDepth offsets n - 1) 0 ≠ 0)
  | 0 => ⟨fun i _ h => absurd h (by omega), fun h => absurd h (by simp [sharedDepth])⟩
  | 1 => ⟨fun i h1 h2 => absurd h1 (by simp only [sharedDepth]; omega),
      fun h => absurd h (by simp [sharedDepth])⟩
  | n + 2 => by
    obtain ⟨hzero, hlast⟩ := sharedDepth_zero offsets (n + 1)
    unfold sharedDepth
    split
    · rename_i hz
      refine ⟨fun i h1 h2 => ?_, hlast⟩
      by_cases hi : i = n + 1
      · rw [hi, hz]
      · exact hzero i h1 (by omega)
    · rename_i hnz
      exact ⟨fun i h1 h2 => absurd h1 (by omega), fun _ => hnz⟩

theorem sharedIndex_zero (m : Mem) (chain : List Indirect) (n : Nat) :
    ∀ i, sharedIndex m chain n < i → i ≤ n →
      allZeroes (m.row (chain.getD i ⟨.inode, 0, 0⟩).base) (chain.getD i ⟨.inode, 0, 0⟩).off =
        true := by
  induction n with
  | zero => omega
  | succ n ih =>
    intro i hlt hle
    unfold sharedIndex at hlt
    dsimp only at hlt
    split at hlt
    · rename_i hz
      by_cases hi : i = n + 1
      · rw [hi, hz]
      · exact ih i hlt (by omega)
    · omega

theorem allZeroes_eq {row : Nat → Nat} {n i : Nat} (h : allZeroes row n = true) (hi : i < n) :
    row i = 0 := by
  rw [allZeroes, List.all_eq_true] at h
  simpa using h i (List.mem_range.mpr hi)

theorem Mem.blockAt_below {front : List Nat} (hne : front ≠ []) (hlive : m.blockAt front ≠ 0)
    (off : Nat) : m.blockAt (front ++ [off]) = m.ptr (m.blockAt front) off := by
  rw [Mem.blockAt_append hne, Mem.follow_cons hlive]
  rfl

/-- The entries of a look-up below a beginning of a path. -/
theorem Mem.walk_getD (offsets : List Nat) : ∀ {pre : List Nat} {i : Nat}, pre ≠ [] →
    m.blockAt pre ≠ 0 → i < (m.walk (m.blockAt pre) offsets).length →
    m.blockAt (pre ++ offsets.take i) ≠ 0 ∧
      (m.walk (m.blockAt pre) offsets).getD i ⟨.inode, 0, 0⟩ =
        addChain m (.block (m.blockAt (pre ++ offsets.take i))) (offsets.getD i 0) := by
  induction offsets with
  | nil =>
    intro pre i _ _ hi
    simp [Mem.walk] at hi
  | cons off offsets ih =>
    intro pre i hne hlive hi
    cases i with
    | zero => simp [Mem.walk, hlive]
    | succ i =>
      have hnext := Mem.blockAt_below hne hlive off
      have hz : m.ptr (m.blockAt pre) off ≠ 0 := by
        intro hz
        simp [Mem.walk, hz] at hi
      rw [← hnext] at hz
      have hi' : i < (m.walk (m.blockAt (pre ++ [off])) offsets).length := by
        rw [Mem.walk, ← hnext, if_neg hz] at hi
        simpa using hi
      obtain ⟨hlive', hget⟩ := ih (by simp) hz hi'
      rw [Mem.walk, ← hnext, if_neg hz, List.getD_cons_succ, List.take_succ_cons,
        List.getD_cons_succ, hget]
      simpa using hlive'

/-- A look-up that ends early has met a hole. -/
theorem Mem.walk_hole (offsets : List Nat) : ∀ {pre : List Nat}, pre ≠ [] → m.blockAt pre ≠ 0 →
    (m.walk (m.blockAt pre) offsets).length < offsets.length →
    m.blockAt (pre ++ offsets.take (m.walk (m.blockAt pre) offsets).length) = 0 := by
  induction offsets with
  | nil =>
    intro pre _ _ h
    simp at h
  | cons off offsets ih =>
    intro pre hne hlive h
    have hnext := Mem.blockAt_below hne hlive off
    by_cases hz : m.ptr (m.blockAt pre) off = 0
    · simp [Mem.walk, hz, hnext]
    · have hwalk : m.walk (m.blockAt pre) (off :: offsets) =
          addChain m (.block (m.blockAt pre)) off :: m.walk (m.blockAt (pre ++ [off])) offsets := by
        rw [Mem.walk, if_neg hz, hnext]
      rw [← hnext] at hz
      rw [hwalk] at h ⊢
      simp only [List.length_cons] at h ⊢
      have := ih (by simp) hz (by omega)
      rw [List.take_succ_cons]
      simpa using this

theorem Mem.walk_placed (offsets : List Nat) : ∀ {pre : List Nat} {j : Nat}, pre ≠ [] →
    m.blockAt pre ≠ 0 → (∀ o ∈ offsets, o < apb) → j ≤ (m.walk (m.blockAt pre) offsets).length →
    Placed m apb pre ((m.walk (m.blockAt pre) offsets).take j) (offsets.take j) := by
  induction offsets with
  | nil =>
    intro pre j _ _ _ hj
    have hj0 : j = 0 := by simpa [Mem.walk] using hj
    subst hj0
    exact .nil
  | cons off offsets ih =>
    intro pre j hne hlive hlt hj
    cases j with
    | zero => exact .nil
    | succ j =>
      have hnext := Mem.blockAt_below hne hlive off
      have hoff : off < apb := hlt off (by simp)
      by_cases hz : m.ptr (m.blockAt pre) off = 0
      · have hj0 : j = 0 := by simpa [Mem.walk, hz] using hj
        subst hj0
        simp only [Mem.walk, hz, if_true, List.take_succ_cons, List.take_zero]
        exact .cons (p := addChain m (.block (m.blockAt pre)) off) hlive rfl hoff .nil
      · rw [Mem.walk, if_neg hz, ← hnext] at hj ⊢
        rw [← hnext] at hz
        have hj' : j ≤ (m.walk (m.blockAt (pre ++ [off])) offsets).length := by simpa using hj
        rw [List.take_succ_cons, List.take_succ_cons]
        exact .cons (p := addChain m (.block (m.blockAt pre)) off) hlive rfl hoff
          (ih (by simp) hz (fun o ho => hlt o (by simp [ho])) hj')

theorem Placed.length_eq {front offsets : List Nat} {chain : List Indirect}
    (h : Placed m apb front chain offsets) : offsets.length = chain.length := by
  induction h with
  | nil => rfl
  | cons _ _ _ _ ih => simp [ih]

/-- The last entry may be moved in its array. -/
theorem Placed.setLast {p : Indirect} {off : Nat} (hoff : off < apb) {chain : List Indirect} :
    ∀ {front offsets : List Nat}, Placed m apb front (chain ++ [p]) offsets →
    Placed m apb front (chain ++ [{ p with off := off }]) (offsets.dropLast ++ [off]) := by
  induction chain with
  | nil =>
    intro front offsets h
    cases h with
    | cons live base hlt below =>
      cases below with
      | nil => exact .cons (p := { p with off := off }) live base hoff .nil
  | cons q chain ih =>
    intro front offsets h
    cases h with
    | @cons _ offsets _ _ live base hlt below =>
      have hne : offsets ≠ [] := by
        refine List.ne_nil_of_length_pos ?_
        rw [below.length_eq]
        simp
      rw [List.dropLast_cons_of_ne_nil hne]
      exact .cons live base hlt (ih below)

/-- Where two paths part. -/
theorem exists_split_of_lt {f : List Nat} : ∀ {g : List Nat}, f.length = g.length → f < g →
    ∃ c a x b y, f = c ++ a :: x ∧ g = c ++ b :: y ∧ a < b := by
  induction f with
  | nil =>
    intro g hlen hlt
    rw [List.length_nil] at hlen
    rw [List.eq_nil_of_length_eq_zero hlen.symm] at hlt
    exact absurd hlt (List.not_lt_nil [])
  | cons i f ih =>
    intro g hlen hlt
    cases g with
    | nil => simp at hlen
    | cons o g =>
      rcases List.cons_lt_cons_iff.mp hlt with hio | ⟨rfl, hrest⟩
      · exact ⟨[], i, f, o, g, rfl, rfl, hio⟩
      · obtain ⟨c, a, x, b, y, rfl, rfl, hab⟩ := ih (by simpa using hlen) hrest
        exact ⟨i :: c, a, x, b, y, rfl, rfl, hab⟩

/-- A common beginning of two paths ends where they part. -/
theorem length_le_of_parted {pre c x y : List Nat} {a b : Nat} (hx : pre <+: c ++ a :: x)
    (hy : pre <+: c ++ b :: y) (hab : a < b) : pre.length ≤ c.length := by
  by_contra hlt
  have hlt : c.length < pre.length := by omega
  have hleft := hx.getElem hlt
  have hright := hy.getElem hlt
  rw [List.getElem_append_right (le_refl _)] at hleft hright
  simp only [Nat.sub_self, List.getElem_cons_zero] at hleft hright
  omega

/-- What `kr_find_shared` does at the slot `off` after `front`: it detaches the
slot, below which no block that stays is mapped, or it lets the branch end before
the slot. -/
inductive SharedAt (m : Mem) (apb : Nat) (offsets front : List Nat) (off : Nat) :
    Mem × Nat × List Indirect → Prop
  | detached {q : Indirect} {chain : List Indirect}
    (placed : front ≠ [] → Placed m apb (front.take 1) chain (front ++ [off]).tail)
    (hlen : chain.length = front.length)
    (unused : ∀ f, f.length = offsets.length → front ++ [off] <+: f → f < offsets →
      m.blockAt f = 0) :
    SharedAt m apb offsets front off
      (m.write (m.slotBase front) off 0, m.row (m.slotBase front) off, q :: chain)
  | moved {q : Indirect} {chain : List Indirect} (hfront : front ≠ []) (hoff : 0 < off)
    (placed : Placed m apb (front.take 1) chain (front ++ [off - 1]).tail)
    (hlen : chain.length = front.length)
    (rest : ∀ i, front.length < i → i < offsets.length → offsets.getD i 0 = 0) :
    SharedAt m apb offsets front off (m, 0, q :: chain)

/-- The entries of the chain of a quiet look-up. -/
theorem Mem.chain_getD {offsets : List Nat} {i : Nat} (hi : i < (m.chain offsets).length) :
    (0 < i → m.blockAt (offsets.take i) ≠ 0) ∧
      (m.chain offsets).getD i ⟨.inode, 0, 0⟩ =
        addChain m (m.slotBase (offsets.take i)) (offsets.getD i 0) := by
  cases offsets with
  | nil => simp [Mem.chain] at hi
  | cons o os =>
    cases i with
    | zero => exact ⟨fun h => absurd h (by omega), rfl⟩
    | succ i =>
      have hlive : m.iData o ≠ 0 := by
        intro hz
        simp [Mem.chain, hz] at hi
      rw [Mem.chain, if_neg hlive] at hi ⊢
      have hlive : m.blockAt [o] ≠ 0 := hlive
      obtain ⟨hbelow, hget⟩ := Mem.walk_getD os (List.cons_ne_nil o []) hlive
        (Nat.lt_of_succ_lt_succ hi)
      exact ⟨fun _ => hbelow, hget⟩

theorem Mem.chain_hole {offsets : List Nat}
    (h : (m.chain offsets).length < offsets.length) :
    m.blockAt (offsets.take (m.chain offsets).length) = 0 := by
  cases offsets with
  | nil => simp at h
  | cons o os =>
    by_cases hz : m.iData o = 0
    · simp [Mem.chain, hz, Mem.blockAt]
    · rw [Mem.chain, if_neg hz] at h ⊢
      have hlive : m.blockAt [o] ≠ 0 := hz
      exact Mem.walk_hole os (List.cons_ne_nil o []) hlive (Nat.lt_of_succ_lt_succ h)

theorem Mem.walk_length_le (m : Mem) (offsets : List Nat) :
    ∀ nr, (m.walk nr offsets).length ≤ offsets.length := by
  induction offsets with
  | nil => exact fun _ => le_refl _
  | cons off offsets ih =>
    intro nr
    unfold Mem.walk
    split
    · simp
    · simpa using ih _

theorem Mem.chain_length_le (m : Mem) (offsets : List Nat) :
    (m.chain offsets).length ≤ offsets.length := by
  cases offsets with
  | nil => exact le_refl _
  | cons off offsets =>
    by_cases hz : m.iData off = 0
    · simp [Mem.chain, hz]
    · rw [Mem.chain, if_neg hz]
      simpa using m.walk_length_le offsets (m.iData off)

theorem Mem.chain_length_pos (m : Mem) {offsets : List Nat} (hne : offsets ≠ []) :
    0 < (m.chain offsets).length := by
  cases offsets with
  | nil => exact absurd rfl hne
  | cons off offsets => simp [Mem.chain]

theorem Mem.chain_placed {o j : Nat} {os : List Nat} (hlt : ∀ i ∈ os, i < apb)
    (hj : j < (m.chain (o :: os)).length) :
    Placed m apb [o] ((m.chain (o :: os)).take (j + 1)).tail ((o :: os).take (j + 1)).tail := by
  by_cases hz : m.iData o = 0
  · have hj0 : j = 0 := by simpa [Mem.chain, hz] using hj
    subst hj0
    simpa [Mem.chain, hz] using Placed.nil
  · rw [Mem.chain, if_neg hz] at hj ⊢
    have hlive : m.blockAt [o] ≠ 0 := hz
    exact Mem.walk_placed os (List.cons_ne_nil o []) hlive hlt (Nat.le_of_lt_succ hj)

/-- A path that has met a hole stays unmapped. -/
theorem Mem.blockAt_hole {front : List Nat} (hne : front ≠ []) (hz : m.blockAt front = 0)
    (back : List Nat) : m.blockAt (front ++ back) = 0 := by
  rw [Mem.blockAt_append hne, hz, Mem.follow_zero]

/-- A path that parts from the branch to the left, below the slot that is
detached, meets a zero. -/
theorem unused_below {offsets f : List Nat} {k j : Nat} {chain : List Indirect}
    (hne : offsets ≠ []) (hk : k = sharedDepth offsets offsets.length)
    (hchain : chain = m.chain (offsets.take k))
    (hj : j = sharedIndex m chain (chain.length - 1)) (hlen : f.length = offsets.length)
    (hpre : offsets.take (j + 1) <+: f) (hlt : f < offsets) : m.blockAt f = 0 := by
  obtain ⟨hk1, hkn⟩ := sharedDepth_bounds offsets offsets.length (List.length_pos_of_ne_nil hne)
  have hzero := (sharedDepth_zero offsets offsets.length).1
  rw [← hk] at hk1 hkn hzero
  obtain ⟨c, a, x, b, y, rfl, hoff, hab⟩ := exists_split_of_lt hlen hlt
  have hslot : offsets.getD c.length 0 = b := by
    rw [hoff]
    simp
  have hupto : ∀ i ≤ c.length, offsets.take i = c.take i := by
    intro i hi
    rw [hoff, List.take_append_of_le_length hi]
  have hlong : c.length < offsets.length := by
    rw [hoff]
    simp
  have hbelow : j < c.length := by
    have hself : offsets.take (j + 1) <+: c ++ b :: y := by
      rw [← hoff]
      exact List.take_prefix (j + 1) offsets
    have hle := length_le_of_parted hpre hself hab
    rw [List.length_take] at hle
    omega
  have hlenP : (offsets.take k).length = k := by
    rw [List.length_take]
    omega
  by_cases hin : c.length < chain.length
  · -- in an array of the chain all slots before the branch are zero
    rw [hchain] at hin
    obtain ⟨hlive, hget⟩ := Mem.chain_getD hin
    have hck : c.length < k := by
      have := Mem.chain_length_le m (offsets.take k)
      omega
    have htake : (offsets.take k).take c.length = c := by
      rw [List.take_take, Nat.min_eq_left hck.le, hupto _ (le_refl _), List.take_length]
    have hgetD : (offsets.take k).getD c.length 0 = b := by
      rw [← hslot, List.getD_eq_getElem?_getD, List.getD_eq_getElem?_getD,
        List.getElem?_take_of_lt hck]
    rw [htake] at hlive hget
    rw [hgetD] at hget
    have hz := sharedIndex_zero m chain (chain.length - 1) c.length (by omega)
      (by rw [hchain]; omega)
    rw [hchain, hget] at hz
    have hrow : m.row (m.slotBase c) a = 0 := allZeroes_eq hz hab
    have hsnoc : m.blockAt (c ++ [a]) = 0 := by
      rw [Mem.blockAt_snoc a fun hne => hlive (List.length_pos_of_ne_nil hne), hrow]
    have := Mem.blockAt_hole (by simp) hsnoc x
    simpa using this
  · by_cases hfull : chain.length < k
    · -- the chain ends in a hole that is on both paths
      rw [hchain] at hin hfull
      have hz := Mem.chain_hole (show (m.chain (offsets.take k)).length < (offsets.take k).length by
        omega)
      have hpreNe : offsets.take k ≠ [] := List.ne_nil_of_length_pos (by omega)
      have hpos := m.chain_length_pos hpreNe
      set l := (m.chain (offsets.take k)).length with hl
      rw [List.take_take, Nat.min_eq_left hfull.le, hupto l (by omega)] at hz
      have hsplit : c ++ a :: x = c.take l ++ (c.drop l ++ a :: x) := by
        rw [← List.append_assoc, List.take_append_drop]
      rw [hsplit]
      refine Mem.blockAt_hole (List.ne_nil_of_length_pos ?_) hz _
      rw [List.length_take]
      omega
    · have := hzero c.length (by omega) hlong
      omega

theorem krFindShared_at (hread : ∀ i, readPath i = true) {o : Nat} {os : List Nat}
    (hlt : ∀ i ∈ os, i < apb) :
    ∃ front off back, o :: os = front ++ off :: back ∧ (front ≠ [] → m.blockAt front ≠ 0) ∧
      SharedAt m apb (o :: os) front off (krFindShared readPath m (o :: os)) := by
  obtain ⟨offsets, hoffsets⟩ : ∃ offsets, offsets = o :: os := ⟨_, rfl⟩
  have hne : offsets ≠ [] := by simp [hoffsets]
  obtain ⟨k, hk⟩ : ∃ k, k = sharedDepth offsets offsets.length := ⟨_, rfl⟩
  obtain ⟨hk1, hkn⟩ := sharedDepth_bounds offsets offsets.length (List.length_pos_of_ne_nil hne)
  obtain ⟨hzero, hlast⟩ := sharedDepth_zero offsets offsets.length
  rw [← hk] at hk1 hkn hzero hlast
  obtain ⟨chain, hchain⟩ : ∃ chain, chain = m.chain (offsets.take k) := ⟨_, rfl⟩
  obtain ⟨j, hj⟩ : ∃ j, j = sharedIndex m chain (chain.length - 1) := ⟨_, rfl⟩
  have hpreNe : offsets.take k ≠ [] := List.ne_nil_of_length_pos (by rw [List.length_take]; omega)
  have hpos : 0 < chain.length := hchain ▸ m.chain_length_pos hpreNe
  have hjlt : j < chain.length := by
    have := sharedIndex_le m chain (chain.length - 1)
    omega
  have hlen : chain.length ≤ k := by
    have := m.chain_length_le (offsets.take k)
    rw [← hchain, List.length_take] at this
    omega
  obtain ⟨hlive, hget⟩ := Mem.chain_getD (hchain ▸ hjlt)
  have htake : ∀ i ≤ k, (offsets.take k).take i = offsets.take i := by
    intro i hi
    rw [List.take_take, Nat.min_eq_left hi]
  have hgetD : (offsets.take k).getD j 0 = offsets.getD j 0 := by
    rw [List.getD_eq_getElem?_getD, List.getD_eq_getElem?_getD,
      List.getElem?_take_of_lt (by omega)]
  rw [htake j (by omega)] at hlive hget
  rw [← hchain, hgetD] at hget
  have hsnoc : offsets.take (j + 1) = offsets.take j ++ [offsets.getD j 0] :=
    take_succ_getD offsets j 0 (by omega)
  have hfrontLen : (offsets.take j).length = j := by
    rw [List.length_take]
    omega
  have hfirst : ∀ i, 1 ≤ i → offsets.take i = o :: os.take (i - 1) := by
    intro i hi
    obtain ⟨i, rfl⟩ : ∃ i', i = i' + 1 := ⟨i - 1, by omega⟩
    rw [hoffsets, List.take_succ_cons, Nat.add_sub_cancel]
  -- the entries up to `j`, without the one in the inode
  obtain ⟨q, tl, hq⟩ := List.exists_cons_of_ne_nil (List.ne_nil_of_length_pos hpos)
  have hplaced : Placed m apb [o] (tl.take j) (offsets.take (j + 1)).tail := by
    have hcons := hfirst k hk1
    have hplaced := Mem.chain_placed (m := m) (o := o)
      (fun i hi => hlt i (List.mem_of_mem_take (i := k - 1) hi)) (by rwa [← hcons, ← hchain])
    rwa [← hcons, ← hchain, htake (j + 1) (by omega), hq, List.take_succ_cons, List.tail_cons]
      at hplaced
  have hshared := krFindShared_quiet hread hne hk hchain hj rfl
  rw [hget] at hshared
  refine ⟨offsets.take j, offsets.getD j 0, offsets.drop (j + 1), ?_, ?_, ?_⟩
  · rw [← hoffsets, ← List.singleton_append, ← List.append_assoc, ← hsnoc, List.take_append_drop]
  · intro hfront
    exact hlive (by have := List.length_pos_of_ne_nil hfront; omega)
  · rw [← hoffsets, hshared]
    by_cases hmoved : (j = k - 1 && 0 < j) = true
    · rw [if_pos hmoved]
      simp only [Bool.and_eq_true, decide_eq_true_eq] at hmoved
      obtain ⟨i, rfl⟩ : ∃ i, j = i + 1 := ⟨j - 1, by omega⟩
      have htl : i < tl.length := by
        rw [hq, List.length_cons] at hjlt
        omega
      have hentry : tl.getD i ⟨.inode, 0, 0⟩ =
          addChain m (m.slotBase (offsets.take (i + 1))) (offsets.getD (i + 1) 0) := by
        rw [← hget, hq, List.getD_cons_succ]
      have hoff : offsets.getD (i + 1) 0 - 1 < apb := by
        have hslot : offsets.getD (i + 1) 0 ∈ os := by
          have hi : i < os.length := by
            rw [hoffsets, List.length_cons] at hkn
            omega
          rw [hoffsets, List.getD_cons_succ, List.getD_eq_getElem os 0 hi]
          exact List.getElem_mem hi
        have := hlt _ hslot
        omega
      rw [take_succ_getD tl i ⟨.inode, 0, 0⟩ htl, hentry] at hplaced
      have hset := hplaced.setLast hoff
      have htail : (offsets.take (i + 1 + 1)).tail.dropLast ++ [offsets.getD (i + 1) 0 - 1] =
          (offsets.take (i + 1) ++ [offsets.getD (i + 1) 0 - 1]).tail := by
        rw [hsnoc, hfirst (i + 1) (by omega)]
        simp
      rw [htail] at hset
      rw [hq, List.take_succ_cons, List.cons_append]
      refine SharedAt.moved (hfirst (i + 1) (by omega) ▸ by simp) ?_ ?_ ?_ ?_
      · exact Nat.pos_of_ne_zero (by rw [hmoved.1]; exact hlast (by omega))
      · rw [hfirst (i + 1) (by omega)] at hset ⊢
        exact hset
      · rw [List.length_append, List.length_take, hfrontLen, List.length_singleton]
        omega
      · intro l h1 h2
        exact hzero l (by omega) h2
    · rw [if_neg hmoved, hq, List.take_succ_cons]
      refine SharedAt.detached (fun hfront => ?_) ?_ fun f hf hpre hbefore => ?_
      · have hj1 : 1 ≤ j := by
          have := List.length_pos_of_ne_nil hfront
          omega
        rw [hsnoc, hfirst j hj1] at hplaced
        rw [hfirst j hj1]
        exact hplaced
      · rw [List.length_take, hfrontLen]
        rw [hq, List.length_cons] at hjlt
        omega
      · rw [← hsnoc] at hpre
        exact unused_below hne hk hchain hj hf hpre hbefore

end Shared

/-! ## All three parts -/

section Truncate

variable {m m' : Mem} {apb : Nat} {readPath bread : Nat → Bool}

theorem Past.append {offsets : List Nat} : ∀ {f : List Nat}, Past offsets f → ∀ back,
    Past (offsets ++ back) f := by
  induction offsets with
  | nil =>
    intro f h
    cases f <;> exact h.elim
  | cons o offsets ih =>
    intro f h back
    cases f with
    | nil => exact h.elim
    | cons i f =>
      rcases h with h | ⟨rfl, h⟩
      · exact Or.inl h
      · exact Or.inr ⟨rfl, ih h back⟩

/-- The slot at `off` after `front` in the inode or on a branch. -/
theorem runAt_slot {offsets front back : List Nat} {off : Nat} (hoffs : IsPath apb offsets)
    (hsplit : offsets = front ++ off :: back) (hlive : front ≠ [] → m.blockAt front ≠ 0) :
    RunAt apb m front back.length off 1 ∧ (front ≠ [] → off < apb) := by
  have hsub : SubPath apb (front ++ [off]) := by
    have hcut : offsets = (front ++ [off]) ++ back := by
      rw [hsplit]
      simp
    exact hoffs.subPath hcut (by simp)
  have hlen := hoffs.length_eq
  have hhead : offsets.headD 0 = (front ++ [off]).headD 0 := by
    rw [hsplit]
    cases front with
    | nil => rfl
    | cons => rfl
  rw [hhead, hsplit, List.length_append, List.length_cons] at hlen
  refine ⟨⟨hlive, fun o h1 h2 => ?_, fun o h1 h2 => ?_⟩, fun hne => hsub.tail_lt off ?_⟩
  · obtain rfl : o = off := by omega
    exact hsub
  · obtain rfl : o = off := by omega
    omega
  · rw [List.tail_append_of_ne_nil hne]
    simp

theorem through_one {front f : List Nat} {off : Nat} :
    Through front off 1 f ↔ front ++ [off] <+: f := by
  constructor
  · rintro ⟨o, g, h1, h2, rfl⟩
    obtain rfl : o = off := by omega
    exact ⟨g, by simp⟩
  · rintro ⟨g, rfl⟩
    exact ⟨off, g, le_refl _, by omega, by simp⟩

/-- The paths that begin in slot `o` of the inode and are not before the branch. -/
theorem branch_hit_iff {o : Nat} {offsets f : List Nat} (hne : f ≠ []) :
    (o :: offsets <+: f ∨ ∃ g, f = [o] ++ g ∧ Past offsets g) ↔
      f.headD 0 = o ∧ ¬ f < o :: offsets := by
  rw [← past_or_prefix_iff]
  obtain ⟨i, f, rfl⟩ := List.exists_cons_of_ne_nil hne
  simp only [List.headD_cons, Past, List.singleton_append, List.cons.injEq, List.cons_prefix_cons]
  constructor
  · rintro (⟨rfl, hpre⟩ | ⟨g, ⟨rfl, rfl⟩, hpast⟩)
    · exact ⟨rfl, Or.inr ⟨rfl, hpre⟩⟩
    · exact ⟨rfl, Or.inl (Or.inr ⟨rfl, hpast⟩)⟩
  · rintro ⟨rfl, (hlt | ⟨-, hpast⟩) | ⟨-, hpre⟩⟩
    · omega
    · exact Or.inr ⟨f, ⟨rfl, rfl⟩, hpast⟩
    · exact Or.inl ⟨rfl, hpre⟩

/-- The branch part of a truncation unmaps what is on the branch or leaves it to
the right. -/
theorem truncateBranch_cut (hpath : ∀ i, readPath i = true) (hread : ∀ b, bread b = true)
    {o : Nat} {os : List Nat} (hoffs : IsPath apb (o :: os)) (hos : os ≠ []) (hnr : m.nr = 0)
    (hnd : (m.fileTree apb).Nodup) :
    let shared := krFindShared readPath m (o :: os)
    let top := freeTop bread apb ((o :: os).length - shared.2.2.length) shared.1 shared.2.1
    let ends := clearEnds bread apb ((o :: os).length - 2) top.1 shared.2.2.tail
    ∃ cut, cut ≠ [] ∧ cut <+: o :: os ∧
      Cut apb (fun f => f.headD 0 = o ∧ ¬ f < cut) m ends.1 ∧
      ∀ f, f.length = (o :: os).length → f < o :: os → ¬ f < cut → m.blockAt f = 0 := by
  intro shared top ends
  have htail : ∀ i ∈ os, i < apb := hoffs.tail_lt
  obtain ⟨front, off, back, hsplit, hlive, hat⟩ := krFindShared_at (m := m) (o := o) hpath htail
  obtain ⟨hrun, hin⟩ := runAt_slot hoffs hsplit hlive
  have hdepth : os.length = o - 11 := by simpa using hoffs.length_eq
  have ho : SubPath apb [o] := hoffs.subPath (List.singleton_append (x := o)).symm (by simp)
  have hlens : os.length = front.length + back.length := by
    have := congrArg List.length hsplit
    simp only [List.length_cons, List.length_append] at this
    omega
  have hfirst : front ≠ [] → front.take 1 = [o] := by
    intro hne
    obtain ⟨i, is, rfl⟩ := List.exists_cons_of_ne_nil hne
    rw [List.cons_append, List.cons.injEq] at hsplit
    rw [hsplit.1]
    rfl
  -- the ends along the branch, in the memory the top has left
  have hends : ∀ {m1 : Mem} {chain : List Indirect} {offsets : List Nat},
      Placed m1 apb [o] chain offsets → chain.length = front.length → m.Shrunk m1 →
      Cut apb (fun f => ∃ g, f = [o] ++ g ∧ Past offsets g) m1
        (clearEnds bread apb ((o :: os).length - 2) m1 chain).1 := by
    intro m1 chain offsets hplaced hlen hshrunk
    have hd : (o :: os).length - 2 = os.length - 1 := by simp
    have hpos := List.length_pos_of_ne_nil hos
    rw [hd]
    refine clearEnds_cut hread hplaced (by simp) ho ?_ (by omega) (hshrunk.nodup hnd)
    simp only [List.length_singleton, List.headD_cons]
    omega
  obtain ⟨tail, hcut⟩ : ∃ tail, front ++ [off] = o :: tail := by
    cases front with
    | nil =>
      rw [List.nil_append, List.cons.injEq] at hsplit
      exact ⟨[], by rw [hsplit.1]; rfl⟩
    | cons i is =>
      rw [List.cons_append, List.cons.injEq] at hsplit
      exact ⟨is ++ [off], by rw [hsplit.1]; rfl⟩
  refine ⟨front ++ [off], by simp, ⟨back, by rw [hsplit]; simp⟩, ?_, ?_⟩
  · generalize hres : krFindShared readPath m (o :: os) = res at hat
    cases hat with
    | @detached q chain placed hlen unused =>
      have htop : Cut apb (Through front off 1) m top.1 := by
        have hd : (o :: os).length - (q :: chain).length = back.length := by
          simp only [List.length_cons]
          omega
        have := freeTop_cut hread hrun hnd hin hnr
        simpa only [top, shared, hres, hd] using this
      have hplaced : Placed top.1 apb [o] chain tail := by
        by_cases hnil : front = []
        · subst hnil
          obtain rfl : chain = [] := List.eq_nil_of_length_eq_zero hlen
          rw [List.nil_append, List.cons.injEq] at hcut
          rw [← hcut.2]
          exact .nil
        · have hplaced := placed hnil
          rw [hfirst hnil, hcut, List.tail_cons] at hplaced
          refine hplaced.keep fun g hpre hg => htop.same _ ?_ ?_
          · obtain ⟨x, rfl⟩ := hpre
            have hbegin : o :: os = ([o] ++ g) ++ (x ++ back) := by
              rw [hsplit, ← List.singleton_append, ← List.append_assoc, hcut]
              simp
            exact hoffs.subPath hbegin (by simp)
          · rw [through_one, hcut]
            intro hlong
            have := hlong.length_le
            simp only [List.length_cons, List.length_append, List.length_nil] at this
            omega
      have hcutAll := htop.trans (hends hplaced hlen htop.shrunk)
      have heq : ends = clearEnds bread apb ((o :: os).length - 2) top.1 chain := by
        simp only [ends, shared, hres, List.tail_cons]
      rw [heq]
      refine hcutAll.congr fun f hf => ?_
      rw [through_one, hcut]
      exact branch_hit_iff hf.ne_nil
    | @moved q chain hfront hoff placed hlen rest =>
      have htop : top = (m, []) := by simp [top, shared, hres, freeTop]
      have heq : ends = clearEnds bread apb ((o :: os).length - 2) m chain := by
        simp only [ends, htop, shared, hres, List.tail_cons]
      rw [heq]
      rw [hfirst hfront] at placed
      refine (hends placed hlen (Mem.Shrunk.refl m)).congr fun f hf => ?_
      rw [← past_pred_iff hoff front f]
      obtain ⟨i, is, rfl⟩ := List.exists_cons_of_ne_nil hfront
      obtain rfl : i = o := by
        rw [List.cons_append, List.cons.injEq] at hcut
        exact hcut.1
      obtain ⟨j, f, rfl⟩ := List.exists_cons_of_ne_nil hf.ne_nil
      simp only [List.cons_append, List.nil_append, List.tail_cons, List.cons.injEq, Past,
        List.headD_cons]
      constructor
      · rintro ⟨g, ⟨rfl, rfl⟩, hpast⟩
        exact ⟨rfl, Or.inr ⟨rfl, hpast⟩⟩
      · rintro ⟨rfl, hlt | ⟨-, hpast⟩⟩
        · omega
        · exact ⟨f, ⟨rfl, rfl⟩, hpast⟩
  · intro f hf hbefore hnot
    have hwhole : o :: os = front ++ [off] ++ back := by
      rw [hsplit]
      simp
    have hpre : front ++ [off] <+: f := by
      refine ((past_or_prefix_iff _ f).mpr hnot).resolve_left fun hpast => ?_
      rw [hwhole] at hbefore
      exact (past_or_prefix_iff _ f).mp (Or.inl (hpast.append back)) hbefore
    generalize krFindShared readPath m (o :: os) = res at hat
    cases hat with
    | detached placed hlen unused => exact unused f hf hpre hbefore
    | moved hfront hoff placed hlen rest =>
      -- behind the slot the offsets are zero, so no path is before them
      exfalso
      obtain ⟨c, a, x, b, y, rfl, hparted, hab⟩ := exists_split_of_lt hf hbefore
      have hself : front ++ [off] <+: c ++ b :: y := by
        rw [← hparted, hwhole]
        exact List.prefix_append _ _
      have hle := length_le_of_parted hpre hself hab
      rw [List.length_append, List.length_singleton] at hle
      have hzero := rest c.length (by omega) (by rw [hparted]; simp)
      rw [hparted] at hzero
      simp only [List.getD_append_right, le_refl, Nat.sub_self, List.getD_cons_zero] at hzero
      omega

theorem killWhole_cut (hread : ∀ b, bread b = true) {slot : Nat} (hslot : slot < 15)
    (hnr : m.nr = 0) (hnd : (m.fileTree apb).Nodup) :
    Cut apb (Through [] slot 1) m (killWhole bread apb slot m).1 := by
  unfold killWhole
  dsimp only
  split
  · rename_i hz
    refine ⟨Mem.Shrunk.refl m, fun f hf hhit => ?_, fun _ _ _ => rfl⟩
    rw [through_one] at hhit
    obtain ⟨g, rfl⟩ := hhit
    have hz : m.blockAt ([] ++ [slot]) = 0 := hz
    exact Mem.blockAt_hole (by simp) hz g
  · refine freeTop_cut hread ⟨fun h => absurd rfl h, fun o h1 h2 => ?_, fun o h1 h2 => ?_⟩ hnd
      (fun h => absurd rfl h) hnr
    · obtain rfl : o = slot := by omega
      exact ⟨by simp, hslot, by simp, by simp⟩
    · obtain rfl : o = slot := by omega
      simp

theorem killWholes_cut (hread : ∀ b, bread b = true) (first : Nat) (slots : List Nat) :
    ∀ {m : Mem}, (∀ slot ∈ slots, slot < 15) → m.nr = 0 → (m.fileTree apb).Nodup →
    Cut apb (fun f => ∃ slot ∈ slots, first < slot ∧ f.headD 0 = slot) m
      (killWholes bread apb first slots m).1 := by
  induction slots with
  | nil =>
    intro m _ _ _
    exact (Cut.refl m).congr fun f _ => by simp
  | cons slot slots ih =>
    intro m hslots hnr hnd
    obtain ⟨here, hhere⟩ : ∃ here, here = (if first < slot then killWhole bread apb slot m
      else (m, [])) := ⟨_, rfl⟩
    have hone : Cut apb (fun f => first < slot ∧ f.headD 0 = slot) m here.1 ∧
        here.1.nr = 0 := by
      by_cases hfirst : first < slot
      · rw [hhere, if_pos hfirst]
        refine ⟨(killWhole_cut hread (hslots slot (by simp)) hnr hnd).congr fun f hf => ?_, ?_⟩
        · obtain ⟨i, f, rfl⟩ := List.exists_cons_of_ne_nil hf.ne_nil
          rw [through_one]
          simp [hfirst, eq_comm]
        · exact (killWhole_exchanged hread (hslots slot (by simp)) hnr hnd).1.nr.trans hnr
      · rw [hhere, if_neg hfirst]
        exact ⟨(Cut.refl m).congr fun f _ => by simp [hfirst], hnr⟩
    have hrest := ih (fun s hs => hslots s (by simp [hs])) hone.2 (hone.1.shrunk.nodup hnd)
    have hres : (killWholes bread apb first (slot :: slots) m).1 =
        (killWholes bread apb first slots here.1).1 := by
      rw [hhere]
      rfl
    rw [hres]
    refine (hone.1.trans hrest).congr fun f _ => ⟨?_, ?_⟩
    · rintro (⟨hlt, hhead⟩ | ⟨s, hs, hlt, hhead⟩)
      · exact ⟨slot, by simp, hlt, hhead⟩
      · exact ⟨s, by simp [hs], hlt, hhead⟩
    · rintro ⟨s, hs, hlt, hhead⟩
      rcases List.mem_cons.mp hs with rfl | hs
      · exact Or.inl ⟨hlt, hhead⟩
      · exact Or.inr ⟨s, hs, hlt, hhead⟩

theorem lt_of_head_lt {f g : List Nat} (hf : f ≠ []) (hg : g ≠ []) (h : f.headD 0 < g.headD 0) :
    f < g := by
  obtain ⟨i, f, rfl⟩ := List.exists_cons_of_ne_nil hf
  obtain ⟨j, g, rfl⟩ := List.exists_cons_of_ne_nil hg
  exact List.cons_lt_cons_iff.mpr (Or.inl h)

theorem lt_append_of_lt {offsets : List Nat} (back : List Nat) : ∀ {f : List Nat}, f < offsets →
    f < offsets ++ back := by
  induction offsets with
  | nil => exact fun h => absurd h (List.not_lt_nil _)
  | cons o offsets ih =>
    intro f h
    cases f with
    | nil => exact List.nil_lt_cons _ _
    | cons i f =>
      rw [List.cons_append, List.cons_lt_cons_iff]
      rcases List.cons_lt_cons_iff.mp h with hlt | ⟨rfl, hlt⟩
      · exact Or.inl hlt
      · exact Or.inr ⟨rfl, ih hlt⟩

theorem head_of_prefix {cut f : List Nat} (hne : cut ≠ []) (h : cut <+: f) :
    cut.headD 0 = f.headD 0 := by
  obtain ⟨back, rfl⟩ := h
  obtain ⟨i, is, rfl⟩ := List.exists_cons_of_ne_nil hne
  rfl

/-- The part before `do_indirects` unmaps what is not before the path, of the
direct blocks or of the tree in which the path is. -/
theorem truncateFirst_cut (hpath : ∀ i, readPath i = true) (hread : ∀ b, bread b = true)
    {offsets : List Nat} (hoffs : IsPath apb offsets) (hnr : m.nr = 0)
    (hnd : (m.fileTree apb).Nodup) :
    ∃ cut, cut ≠ [] ∧ cut <+: offsets ∧
      Cut apb (fun f => ¬ f < cut ∧ (f.headD 0 = offsets.headD 0 ∨ f.headD 0 < KR_NDIR_BLOCKS)) m
        (truncateFirst readPath bread apb offsets m).1 ∧
      ∀ f, f.length = offsets.length → f < offsets → ¬ f < cut → m.blockAt f = 0 := by
  obtain ⟨o, os, rfl⟩ := List.exists_cons_of_ne_nil hoffs.ne_nil
  have hlen : os.length = o - 11 := by simpa using hoffs.length_eq
  by_cases hos : os = []
  · subst hos
    have ho : o < KR_NDIR_BLOCKS := by
      simp only [List.length_nil, KR_NDIR_BLOCKS] at hlen ⊢
      omega
    have ho12 : o + (KR_NDIR_BLOCKS - o) = KR_NDIR_BLOCKS := by omega
    have hrun : RunAt apb m [] 0 o (KR_NDIR_BLOCKS - o) := by
      simp only [KR_NDIR_BLOCKS] at ho12 ⊢
      refine ⟨fun h => absurd rfl h, fun i _ hi => ⟨by simp, ?_, by simp, by simp⟩, fun i _ hi => ?_⟩
      · simp only [List.nil_append, List.headD_cons]
        omega
      · simp only [List.length_nil, List.nil_append, List.headD_cons]
        omega
    have hcut := krFreeBranches_cut hread hrun hnd fun h => absurd rfl h
    rw [ho12] at hcut
    refine ⟨[o], by simp, List.prefix_refl _, hcut.congr fun f hf => ?_,
      fun f _ hbefore hnot => absurd hbefore hnot⟩
    obtain ⟨i, f, rfl⟩ := List.exists_cons_of_ne_nil hf.ne_nil
    rw [List.cons_lt_cons_iff, List.headD_cons, List.headD_cons]
    constructor
    · rintro ⟨i, f, h1, h2, heq⟩
      obtain ⟨rfl, rfl⟩ := List.cons.inj heq
      refine ⟨?_, Or.inr (by omega)⟩
      rintro (hlt | ⟨-, hlt⟩)
      · omega
      · exact List.not_lt_nil _ hlt
    · rintro ⟨hnot, hhead⟩
      rw [not_or] at hnot
      exact ⟨i, f, by omega, by omega, rfl⟩
  · have hpos := List.length_pos_of_ne_nil hos
    have hne : ¬ (o :: os).length = 1 := by simp only [List.length_cons]; omega
    obtain ⟨cut, hcutne, hpre, hcut, hunused⟩ := truncateBranch_cut hpath hread hoffs hos hnr hnd
    simp only [truncateFirst, if_neg hne]
    refine ⟨cut, hcutne, hpre, hcut.congr fun f hf => ?_, hunused⟩
    have hhead : cut.headD 0 = o := head_of_prefix hcutne hpre
    constructor
    · rintro ⟨hfo, hnot⟩
      exact ⟨hnot, Or.inl hfo⟩
    · rintro ⟨hnot, hfo | hdirect⟩
      · exact ⟨hfo, hnot⟩
      · refine absurd (lt_of_head_lt hf.ne_nil hcutne ?_) hnot
        simp only [KR_NDIR_BLOCKS] at hdirect
        omega

/-- The paths that are not before a beginning of the path given are unmapped. Those
between it and the path were not mapped. -/
theorem truncatePtrs_cut (hpath : ∀ i, readPath i = true) (hread : ∀ b, bread b = true)
    {offsets : List Nat} (hoffs : IsPath apb offsets) (hnr : m.nr = 0)
    (hnd : (m.fileTree apb).Nodup) :
    ∃ cut, cut ≠ [] ∧ cut <+: offsets ∧
      Cut apb (fun f => ¬ f < cut) m (truncatePtrs readPath bread apb offsets m).1 ∧
      ∀ f : List Nat, f.length = offsets.length → f < offsets → ¬ f < cut → m.blockAt f = 0 := by
  have hfirst := truncateFirst_exchanged hpath hread hoffs hnr hnd
  obtain ⟨cut, hne, hpre, hcut, hunused⟩ := truncateFirst_cut hpath hread hoffs hnr hnd
  have hrest := killWholes_cut hread (offsets.headD 0) [KR_IND_BLOCK, KR_DIND_BLOCK, KR_TIND_BLOCK]
    (by decide) (hfirst.1.nr.trans hnr) (hcut.shrunk.nodup hnd)
  have hhead : cut.headD 0 = offsets.headD 0 := head_of_prefix hne hpre
  refine ⟨cut, hne, hpre, ?_, hunused⟩
  rw [truncatePtrs_eq]
  refine (hcut.trans hrest).congr fun f hf => ⟨?_, fun hnot => ?_⟩
  · rintro (⟨hnot, -⟩ | ⟨slot, -, hlt, rfl⟩)
    · exact hnot
    · rw [← hhead] at hlt
      exact List.lt_asymm (lt_of_head_lt hne hf.ne_nil hlt)
  · by_cases hin : f.headD 0 = offsets.headD 0 ∨ f.headD 0 < KR_NDIR_BLOCKS
    · exact Or.inl ⟨hnot, hin⟩
    · rw [not_or] at hin
      have hge : offsets.headD 0 ≤ f.headD 0 := by
        by_contra hlt
        exact hnot (lt_of_head_lt hf.ne_nil hne (by omega))
      have hlt := hf.head_lt
      refine Or.inr ⟨f.headD 0, ?_, by omega, rfl⟩
      simp only [KR_NDIR_BLOCKS] at hin
      simp only [KR_IND_BLOCK, KR_DIND_BLOCK, KR_TIND_BLOCK, List.mem_cons, List.not_mem_nil,
        or_false]
      omega

/-- Of the paths, those before the one given stay mapped as they were and the
others are unmapped. -/
theorem truncatePtrs_map (hpath : ∀ i, readPath i = true) (hread : ∀ b, bread b = true)
    {offsets f : List Nat} (hoffs : IsPath apb offsets) (hnr : m.nr = 0)
    (hnd : (m.fileTree apb).Nodup) (hf : IsPath apb f) :
    (truncatePtrs readPath bread apb offsets m).1.blockAt f =
      if f < offsets then m.blockAt f else 0 := by
  obtain ⟨cut, hne, hpre, hall, hunused⟩ := truncatePtrs_cut hpath hread hoffs hnr hnd
  have hhead : cut.headD 0 = offsets.headD 0 := head_of_prefix hne hpre
  have hsub : SubPath apb f := hf.subPath (List.append_nil f).symm hf.ne_nil
  by_cases hbefore : f < offsets
  · rw [if_pos hbefore]
    by_cases hlt : f < cut
    · exact hall.same f hsub (by simpa using hlt)
    · rw [hall.unmapped f hsub hlt]
      have hsame : f.headD 0 = offsets.headD 0 := by
        refine le_antisymm ?_ ?_
        · by_contra hgt
          exact List.lt_asymm hbefore (lt_of_head_lt hoffs.ne_nil hf.ne_nil (by omega))
        · by_contra hgt
          exact hlt (lt_of_head_lt hf.ne_nil hne (by omega))
      refine (hunused f ?_ hbefore hlt).symm
      rw [hf.length_eq, hoffs.length_eq, hsame]
  · rw [if_neg hbefore]
    refine hall.unmapped f hsub fun hlt => hbefore ?_
    obtain ⟨back, rfl⟩ := hpre
    exact lt_append_of_lt back hlt

end Truncate

/-! ## Logical blocks in order -/

section Order

/-- The four regions of `kr_block_to_path`, with the offsets as quotients and
remainders. -/
theorem krBlockToPath_regions {bits b : Nat} {path : List Nat}
    (h : (krBlockToPath (2 ^ bits) bits b).1 = path) :
    (b < 12 ∧ path = [b]) ∨ (∃ c < 2 ^ bits, b = 12 + c ∧ path = [12, c]) ∨
    (∃ c < 2 ^ (bits * 2), b = 12 + 2 ^ bits + c ∧ path = [13, c / 2 ^ bits, c % 2 ^ bits]) ∨
    (∃ c, b = 12 + 2 ^ bits + 2 ^ (bits * 2) + c ∧
      path = [14, c / 2 ^ bits / 2 ^ bits, c / 2 ^ bits % 2 ^ bits, c % 2 ^ bits]) ∨
    path = [] := by
  have hneg : ¬ (b : Int) < 0 := by omega
  unfold krBlockToPath at h
  rw [if_neg hneg, Int.toNat_natCast] at h
  dsimp only at h
  simp only [KR_NDIR_BLOCKS, Nat.shiftRight_eq_div_pow, Nat.and_two_pow_sub_one_eq_mod,
    Nat.one_shiftLeft] at h
  split at h
  · rename_i h1
    exact Or.inl ⟨h1, h.symm⟩
  split at h
  · rename_i h1 h2
    exact Or.inr (Or.inl ⟨b - 12, h2, by omega, h.symm⟩)
  split at h
  · rename_i h1 h2 h3
    exact Or.inr (Or.inr (Or.inl ⟨b - 12 - 2 ^ bits, h3, by omega, h.symm⟩))
  split at h
  · rename_i h1 h2 h3 h4
    refine Or.inr (Or.inr (Or.inr (Or.inl ⟨b - 12 - 2 ^ bits - 2 ^ (bits * 2), by omega, ?_⟩)))
    rw [Nat.div_div_eq_div_mul, ← Nat.pow_add, ← Nat.mul_two]
    exact h.symm
  · exact Or.inr (Or.inr (Or.inr (Or.inr h.symm)))

theorem div_mod_lt {a b : Nat} (n : Nat) (h : a < b) :
    a / n < b / n ∨ (a / n = b / n ∧ a % n < b % n) := by
  have hle : a / n ≤ b / n := Nat.div_le_div_right h.le
  have ha := Nat.div_add_mod a n
  have hb := Nat.div_add_mod b n
  rcases Nat.lt_or_ge (a / n) (b / n) with hlt | hge
  · exact Or.inl hlt
  · have heq : a / n = b / n := le_antisymm hle hge
    rw [heq] at ha
    exact Or.inr ⟨heq, by omega⟩

/-- Paths are ordered as their blocks are. -/
theorem krBlockToPath_lt {bits a b : Nat} (hab : a < b)
    (hb : (krBlockToPath (2 ^ bits) bits b).1 ≠ []) :
    (krBlockToPath (2 ^ bits) bits a).1 < (krBlockToPath (2 ^ bits) bits b).1 := by
  generalize hpa : (krBlockToPath (2 ^ bits) bits a).1 = pa
  generalize hpb : (krBlockToPath (2 ^ bits) bits b).1 = pb at hb ⊢
  have head : ∀ {i j : Nat} {f g : List Nat}, i < j → i :: f < j :: g :=
    fun h => List.cons_lt_cons_iff.mpr (Or.inl h)
  have tail : ∀ {i : Nat} {f g : List Nat}, f < g → i :: f < i :: g :=
    fun h => List.cons_lt_cons_iff.mpr (Or.inr ⟨rfl, h⟩)
  have hpos := Nat.two_pow_pos bits
  have hpos2 := Nat.two_pow_pos (bits * 2)
  rcases krBlockToPath_regions hpb with ⟨hb12, rfl⟩ | ⟨d, hd, rfl, rfl⟩ | ⟨d, hd, rfl, rfl⟩ |
    ⟨d, rfl, rfl⟩ | rfl
  · rcases krBlockToPath_regions hpa with ⟨-, rfl⟩ | ⟨c, -, rfl, -⟩ | ⟨c, -, rfl, -⟩ | ⟨c, rfl, -⟩ | rfl
    · exact head hab
    · omega
    · omega
    · omega
    · exact List.nil_lt_cons _ _
  · rcases krBlockToPath_regions hpa with ⟨ha, rfl⟩ | ⟨c, -, rfl, rfl⟩ | ⟨c, -, rfl, -⟩ |
      ⟨c, rfl, -⟩ | rfl
    · exact head ha
    · exact tail (head (by omega))
    · omega
    · omega
    · exact List.nil_lt_cons _ _
  · rcases krBlockToPath_regions hpa with ⟨ha, rfl⟩ | ⟨c, -, rfl, rfl⟩ | ⟨c, -, rfl, rfl⟩ |
      ⟨c, rfl, -⟩ | rfl
    · exact head (by omega)
    · exact head (by omega)
    · rcases div_mod_lt (2 ^ bits) (show c < d by omega) with hlt | ⟨heq, hlt⟩
      · exact tail (head hlt)
      · rw [heq]
        exact tail (tail (head hlt))
    · omega
    · exact List.nil_lt_cons _ _
  · rcases krBlockToPath_regions hpa with ⟨ha, rfl⟩ | ⟨c, -, rfl, rfl⟩ | ⟨c, -, rfl, rfl⟩ |
      ⟨c, rfl, rfl⟩ | rfl
    · exact head (by omega)
    · exact head (by omega)
    · exact head (by omega)
    · rcases div_mod_lt (2 ^ bits) (show c < d by omega) with hlt | ⟨heq, hlt⟩
      · rcases div_mod_lt (2 ^ bits) hlt with hlt | ⟨heq, hlt⟩
        · exact tail (head hlt)
        · rw [heq]
          exact tail (tail (head hlt))
      · rw [heq]
        exact tail (tail (tail (head hlt)))
    · exact List.nil_lt_cons _ _
  · exact absurd rfl hb

end Order

/-! ## The file after a truncation -/

/-- The calls of `kr_free_blocks` that `__kr_truncate_blocks` makes. -/
def truncateCalls (env : TruncEnv) (fs : Fs) (ino : Nat) (offset : Int) : List (Nat × Nat) :=
  (truncatePtrs env.readPath env.bread fs.addrPerBlock
    (fs.path ((offset + fs.sbi.sBlocksize - 1) >>> fs.sbi.sBlocksizeBits)).1 (fs.mem ino)).2

theorem freeCalls_frame (readBitmap : Nat → Bool) (ino : Nat) (calls : List (Nat × Nat)) :
    ∀ fs : Fs, fs.BlockFrame (freeCalls readBitmap ino fs calls) := by
  induction calls with
  | nil => exact Fs.BlockFrame.refl
  | cons c calls ih =>
    intro fs
    exact (krFreeBlocks_frame readBitmap fs ino c.1 c.2).trans (ih _)

/-- The pointers of the file are those the pointer part has left. -/
theorem truncateBlocks_mem (ops : Rebalance Window) (env : TruncEnv) (fs : Fs) (ino : Nat)
    (m : Mem) (calls : List (Nat × Nat)) (hnr : m.nr = 0) :
    let fs' := (freeCalls env.readBitmap ino (fs.setMem ino m) calls).discardReservation ops ino
    fs'.mem ino = m ∧ fs'.sbi = fs.sbi := by
  intro fs'
  have hframe := freeCalls_frame env.readBitmap ino calls (fs.setMem ino m)
  set fs1 := freeCalls env.readBitmap ino (fs.setMem ino m) calls with hfs1
  obtain ⟨rsv, hdiscard⟩ := fs1.discardReservation_rsv ops ino
  have hrsv : fs' = { fs1 with rsv := rsv } := hdiscard
  obtain ⟨n, hn⟩ := hframe.inode ino
  have hinode : (fs1.inode ino).iData = m.iData := by
    rw [hn]
    simp [Fs.setMem]
  rw [hrsv]
  refine ⟨?_, hframe.sbi⟩
  simp only [Fs.mem, hinode, hframe.ptr]
  rw [← hnr]
  rfl

/-- Rounding up by adding and shifting. -/
theorem truncate_iblock {sbi : SbInfo} (geo : InodeGeometry sbi) {offset : Int} {iblock : Nat}
    (hceil : ⌈(offset : ℚ) / sbi.sBlocksize⌉ = iblock) :
    (offset + sbi.sBlocksize - 1) >>> sbi.sBlocksizeBits = (iblock : Int) := by
  rw [Rat.ceil_intCast_div_natCast] at hceil
  have hpos : 0 < (sbi.sBlocksize : Int) := by
    rw [geo.blocksize_pow]
    exact_mod_cast Nat.two_pow_pos _
  rw [Int.shiftRight_eq_div_pow, ← geo.blocksize_pow, ← hceil]
  have hdiv := Int.emod_add_mul_ediv (-offset) sbi.sBlocksize
  have hlow := Int.emod_nonneg (-offset) hpos.ne'
  have hhigh := Int.emod_lt_of_pos (-offset) hpos
  set q := -offset / (sbi.sBlocksize : Int) with hq
  set r := -offset % (sbi.sBlocksize : Int) with hr
  have hsum : offset + sbi.sBlocksize - 1 = sbi.sBlocksize - 1 - r + sbi.sBlocksize * -q := by
    rw [Int.mul_neg]
    omega
  rw [hsum, Int.add_mul_ediv_left _ _ hpos.ne', Int.ediv_eq_zero_of_lt (by omega) (by omega),
    Int.zero_add]

/-- `__kr_truncate_blocks` of a file without a block twice, with all reads
succeeding: the logical blocks below the cut are mapped as before and none above
it, and what is freed is what the tree has lost, each block once. -/
theorem truncateBlocks_exact {k : MountEnv} {es : SuperBlock} {fs : Fs}
    (accepted : krFillSuper k es = .ok fs.sbi) (ops : Rebalance Window) {env : TruncEnv}
    (hpath : ∀ i, env.readPath i = true) (hread : ∀ b, env.bread b = true) {ino iblock : Nat}
    (hnd : (fs.fileTree ino).Nodup) {offset : Int}
    (hceil : ⌈(offset : ℚ) / fs.sbi.sBlocksize⌉ = iblock) (haddr : (fs.path iblock).1 ≠ []) :
    let fs' := truncateBlocks ops env fs ino offset
    let calls := truncateCalls env fs ino offset
    (∃ m, fs' = (freeCalls env.readBitmap ino (fs.setMem ino m) calls).discardReservation ops ino) ∧
      (∀ l < iblock, fs'.blockAt ino l = fs.blockAt ino l) ∧
      (∀ l, iblock ≤ l → fs'.blockAt ino l = 0) ∧
      (callBlocks calls).Nodup ∧
      ∀ b, b ∈ callBlocks calls ↔ b ∈ fs.fileTree ino ∧ b ∉ fs'.fileTree ino := by
  intro fs' calls
  have hiblock := truncate_iblock (inodeGeometry_of_krFillSuper accepted) hceil
  have geo := addrGeometry_of_krFillSuper accepted
  have hapb : fs.addrPerBlock = 2 ^ fs.sbi.sAddrPerBlockBits := geo.apb_eq
  have hisPath : ∀ l : Nat, (fs.path l).1 ≠ [] → IsPath fs.addrPerBlock (fs.path l).1 := by
    intro l hl
    rw [Fs.path, hapb] at hl ⊢
    exact (krBlockToPath_isPath (by have := geo.bits; omega) l hl).1
  have hoffs := hisPath iblock haddr
  set res := truncatePtrs env.readPath env.bread fs.addrPerBlock (fs.path iblock).1 (fs.mem ino)
    with hres
  obtain ⟨hcut, hpos⟩ := truncatePtrs_exchanged hpath hread hoffs rfl hnd
  rw [← hres] at hcut
  have hcalls : calls = res.2 := by simp only [calls, truncateCalls, hiblock, hres]
  have hfs' : fs' = (freeCalls env.readBitmap ino (fs.setMem ino res.1)
      calls).discardReservation ops ino := by
    simp only [fs', truncateBlocks, hiblock, if_neg haddr, hcalls, hres]
  obtain ⟨hmem, hsbi⟩ := truncateBlocks_mem ops env fs ino res.1 calls hcut.nr
  rw [← hfs'] at hmem hsbi
  have hat : ∀ l : Nat, fs'.blockAt ino l = res.1.blockAt (fs.path l).1 := by
    intro l
    simp only [Fs.blockAt, hmem, Fs.path, Fs.addrPerBlock, hsbi]
  have htree : fs'.fileTree ino + callBlocks calls = fs.fileTree ino := by
    rw [hcalls, Fs.fileTree, hmem, Fs.addrPerBlock, hsbi]
    exact hcut.tree.trans (add_zero _)
  have hmap : ∀ l : Nat, (fs.path l).1 ≠ [] → fs'.blockAt ino l =
      if (fs.path l).1 < (fs.path iblock).1 then fs.blockAt ino l else 0 := by
    intro l hl
    rw [hat]
    exact truncatePtrs_map hpath hread hoffs rfl hnd (hisPath l hl)
  have hlt : ∀ {a b : Nat}, a < b → (fs.path b).1 ≠ [] → (fs.path a).1 < (fs.path b).1 := by
    intro a b hab hb
    unfold Fs.path at hb ⊢
    rw [hapb] at hb ⊢
    exact krBlockToPath_lt hab hb
  refine ⟨⟨res.1, hfs'⟩, fun l hl => ?_, fun l hl => ?_, ?_, fun b => ?_⟩
  · by_cases hnil : (fs.path l).1 = []
    · rw [hat, Fs.blockAt, hnil]
      rfl
    · rw [hmap l hnil, if_pos (hlt hl haddr)]
  · by_cases hnil : (fs.path l).1 = []
    · rw [hat, hnil]
      rfl
    · rw [hmap l hnil, if_neg]
      rcases Nat.eq_or_lt_of_le hl with rfl | hgt
      · exact List.lt_irrefl _
      · exact List.lt_asymm (hlt hgt hnil)
  · rw [← htree] at hnd
    exact (Multiset.nodup_add.mp hnd).2.1
  · rw [← htree] at hnd ⊢
    have hdisj := (Multiset.nodup_add.mp hnd).2.2
    rw [Multiset.mem_add]
    constructor
    · exact fun hb => ⟨Or.inr hb, fun hb' => Multiset.disjoint_left.mp hdisj hb' hb⟩
    · rintro ⟨hb | hb, hnot⟩
      · exact absurd hb hnot
      · exact hb

/-- A file with block 9 at its beginning and block 8 behind the indirect block 7. -/
def branchFs : Fs :=
  { tinyFs with
    blockBitmap := fun _ i => decide (i < 9)
    inode := fun _ => { Inode.blank with
      iMode := 0x8000
      iBlocks := 6
      iData := fun slot => if slot = 0 then 9 else if slot = 12 then 7 else 0 }
    ptr := fun b i => if b = 7 ∧ i = 0 then 8 else 0 }

theorem fileTree_branchFs : branchFs.fileTree 12 = {7, 8, 9} := by decide +kernel

def quietTrunc : TruncEnv := ⟨fun _ => true, fun _ => true, fun _ => true⟩

/-- Truncated to one byte, the file keeps its first block. -/
theorem truncateBlocks_exact_branch :
    (truncateBlocks Rebalance.plain quietTrunc branchFs 12 1).blockAt 12 0 = 9 ∧
      ∀ l, 1 ≤ l → (truncateBlocks Rebalance.plain quietTrunc branchFs 12 1).blockAt 12 l = 0 := by
  have hsize : branchFs.sbi.sBlocksize = 1024 := rfl
  have hceil : ⌈((1 : Int) : ℚ) / branchFs.sbi.sBlocksize⌉ = (1 : Nat) := by
    rw [hsize, Rat.ceil_intCast_div_natCast]
    rfl
  have haddr : (branchFs.path (1 : Nat)).1 ≠ [] := by decide +kernel
  obtain ⟨-, hbelow, habove, -⟩ := @truncateBlocks_exact smallEnv tinyImage branchFs
    krFillSuper_tinyImage Rebalance.plain quietTrunc (fun _ => rfl) (fun _ => rfl) 12 1
    (by rw [fileTree_branchFs]; decide) 1 hceil haddr
  refine ⟨?_, habove⟩
  rw [hbelow 0 (by omega)]
  decide +kernel

end KrFs
