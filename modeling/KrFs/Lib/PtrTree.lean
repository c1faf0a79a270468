import Mathlib.Algebra.BigOperators.Intervals
import Mathlib.Algebra.Order.BigOperators.Group.Finset
import Mathlib.Data.Multiset.AddSub
import Mathlib.Algebra.Order.Group.Multiset

/-!
# Trees of pointers in numbered blocks

Blocks hold arrays of block numbers, zero meaning no block. A pointer with a
depth spells a tree; its blocks are collected with their multiplicity, so that a
block shared by two places shows. The lemmas say how the collection changes when
arrays are rewritten: blocks outside the tree do not matter, and clearing or
filling a run of slots takes out or puts in the trees below them.
-/

namespace PtrTree

variable {rows rows' : Nat → Nat → Nat} {width : Nat}

/-- The blocks of the tree of the given depth below a pointer. -/
def subtree (rows : Nat → Nat → Nat) (width : Nat) : Nat → Nat → Multiset Nat
  | 0, x => if x = 0 then 0 else {x}
  | d + 1, x => if x = 0 then 0
      else x ::ₘ ∑ i ∈ Finset.range width, subtree rows width d (rows x i)

/-- The blocks below the first `n` pointers of an array, where slot `i` has a
tree of depth `level i`. -/
def forest (rows : Nat → Nat → Nat) (width : Nat) (level row : Nat → Nat) (n : Nat) :
    Multiset Nat :=
  ∑ i ∈ Finset.range n, subtree rows width (level i) (row i)

@[simp] theorem subtree_null (d : Nat) : subtree rows width d 0 = 0 := by
  cases d <;> simp [subtree]

theorem subtree_leaf {x : Nat} (hx : x ≠ 0) : subtree rows width 0 x = {x} := by
  simp [subtree, hx]

theorem subtree_succ {d x : Nat} (hx : x ≠ 0) :
    subtree rows width (d + 1) x = x ::ₘ forest rows width (fun _ => d) (rows x) width := by
  simp [subtree, hx, forest]

theorem self_mem_subtree {d x : Nat} (hx : x ≠ 0) : x ∈ subtree rows width d x := by
  cases d with
  | zero => simp [subtree_leaf hx]
  | succ d => simp [subtree_succ hx]

theorem subtree_le_forest (level : Nat → Nat) {row : Nat → Nat} {n i : Nat} (hi : i < n) :
    subtree rows width (level i) (row i) ≤ forest rows width level row n :=
  Finset.single_le_sum (f := fun i => subtree rows width (level i) (row i))
    (fun _ _ => Multiset.zero_le _) (Finset.mem_range.mpr hi)

theorem mem_forest {level row : Nat → Nat} {n b : Nat} :
    b ∈ forest rows width level row n ↔ ∃ i < n, b ∈ subtree rows width (level i) (row i) := by
  simp [forest, Multiset.mem_sum]

/-- Only the arrays of the blocks in a tree matter to it. -/
theorem subtree_congr {d : Nat} : ∀ {x : Nat},
    (∀ b ∈ subtree rows width d x, ∀ i < width, rows' b i = rows b i) →
    subtree rows' width d x = subtree rows width d x := by
  induction d with
  | zero =>
    intro x _
    rfl
  | succ d ih =>
    intro x h
    by_cases hx : x = 0
    · simp [hx]
    · rw [subtree_succ hx, subtree_succ hx]
      congr 1
      refine Finset.sum_congr rfl fun i hi => ?_
      have hi' := Finset.mem_range.mp hi
      rw [h x (self_mem_subtree hx) i hi']
      refine ih fun b hb => h b ?_
      rw [subtree_succ hx]
      exact Multiset.mem_cons_of_mem (mem_forest.mpr ⟨i, hi', hb⟩)

theorem forest_congr {level row row' : Nat → Nat} {n : Nat} (hrow : ∀ i < n, row' i = row i)
    (h : ∀ b ∈ forest rows width level row n, ∀ i < width, rows' b i = rows b i) :
    forest rows' width level row' n = forest rows width level row n := by
  refine Finset.sum_congr rfl fun i hi => ?_
  have hi' := Finset.mem_range.mp hi
  rw [hrow i hi']
  exact subtree_congr fun b hb => h b (mem_forest.mpr ⟨i, hi', hb⟩)

/-- Two slots of a forest without repetition share no block. -/
theorem forest_disjoint (level : Nat → Nat) {row : Nat → Nat} {n : Nat}
    (h : (forest rows width level row n).Nodup) {i j b : Nat} (hi : i < n) (hj : j < n)
    (hij : i ≠ j) (hbi : b ∈ subtree rows width (level i) (row i)) :
    b ∉ subtree rows width (level j) (row j) := by
  intro hbj
  have hle : subtree rows width (level i) (row i) + subtree rows width (level j) (row j) ≤
      forest rows width level row n := by
    rw [forest, ← Finset.add_sum_erase _ _ (Finset.mem_range.mpr hi)]
    refine add_le_add (le_refl _) ?_
    exact Finset.single_le_sum (f := fun i => subtree rows width (level i) (row i))
      (fun _ _ => Multiset.zero_le _)
      (Finset.mem_erase.mpr ⟨hij.symm, Finset.mem_range.mpr hj⟩)
  have hnd := Multiset.nodup_of_le hle h
  exact Multiset.disjoint_left.mp (Multiset.nodup_add.mp hnd).2.2 hbi hbj

/-- The blocks below the slots `[p, p + k)` of an array. -/
def slice (rows : Nat → Nat → Nat) (width : Nat) (level row : Nat → Nat) (p k : Nat) :
    Multiset Nat :=
  ∑ i ∈ Finset.range k, subtree rows width (level (p + i)) (row (p + i))

theorem slice_zero (level row : Nat → Nat) (p : Nat) : slice rows width level row p 0 = 0 := rfl

theorem slice_succ (level row : Nat → Nat) (p k : Nat) : slice rows width level row p (k + 1) =
    subtree rows width (level p) (row p) + slice rows width level row (p + 1) k := by
  rw [slice, Finset.sum_range_succ', add_comm]
  simp [slice, Nat.add_assoc, Nat.add_comm 1]

theorem mem_slice {level row : Nat → Nat} {p k b : Nat} :
    b ∈ slice rows width level row p k ↔
      ∃ i, p ≤ i ∧ i < p + k ∧ b ∈ subtree rows width (level i) (row i) := by
  simp only [slice, Multiset.mem_sum, Finset.mem_range]
  constructor
  · rintro ⟨i, hi, hb⟩
    exact ⟨p + i, by omega, by omega, hb⟩
  · rintro ⟨i, h1, h2, hb⟩
    exact ⟨i - p, by omega, by rwa [Nat.add_sub_cancel' h1]⟩

/-- Zeroing a run of slots takes the trees below them out of the forest, even
if the arrays of those trees are rewritten as well. -/
theorem forest_cut {level row row' : Nat → Nat} {n p k : Nat} (hpk : p + k ≤ n)
    (hnd : (forest rows width level row n).Nodup)
    (hzero : ∀ i, p ≤ i → i < p + k → row' i = 0)
    (hkeep : ∀ i < n, ¬ (p ≤ i ∧ i < p + k) → row' i = row i)
    (hsame : ∀ c ∈ forest rows width level row n, c ∉ slice rows width level row p k →
      ∀ i < width, rows' c i = rows c i) :
    forest rows' width level row' n + slice rows width level row p k =
      forest rows width level row n := by
  have hslice : slice rows width level row p k =
      ∑ i ∈ Finset.Ico p (p + k), subtree rows width (level i) (row i) := by
    rw [Finset.sum_Ico_eq_sum_range, Nat.add_sub_cancel_left]
    rfl
  have hsub : Finset.Ico p (p + k) ⊆ Finset.range n := by
    intro i hi
    have := Finset.mem_Ico.mp hi
    exact Finset.mem_range.mpr (by omega)
  have hcut : ∑ i ∈ Finset.Ico p (p + k), subtree rows' width (level i) (row' i) = 0 := by
    refine Finset.sum_eq_zero fun i hi => ?_
    obtain ⟨h1, h2⟩ := Finset.mem_Ico.mp hi
    rw [hzero i h1 h2, subtree_null]
  have hrest : ∑ i ∈ Finset.range n \ Finset.Ico p (p + k),
      subtree rows' width (level i) (row' i) =
      ∑ i ∈ Finset.range n \ Finset.Ico p (p + k), subtree rows width (level i) (row i) := by
    refine Finset.sum_congr rfl fun i hi => ?_
    obtain ⟨hin, hout⟩ := Finset.mem_sdiff.mp hi
    have hi' := Finset.mem_range.mp hin
    rw [Finset.mem_Ico] at hout
    rw [hkeep i hi' hout]
    refine subtree_congr fun c hc => hsame c (mem_forest.mpr ⟨i, hi', hc⟩) fun hcs => ?_
    obtain ⟨j, h1, h2, hj⟩ := mem_slice.mp hcs
    exact forest_disjoint level hnd (show j < n by omega) hi' (fun hji => hout (hji ▸ ⟨h1, h2⟩))
      hj hc
  rw [forest, forest, ← Finset.sum_sdiff hsub, ← Finset.sum_sdiff hsub, hcut, hrest, add_zero,
    hslice]

/-- Filling a run of empty slots puts the trees below them into the forest. -/
theorem forest_graft {level row row' : Nat → Nat} {n p k : Nat} (hpk : p + k ≤ n)
    (hzero : ∀ i, p ≤ i → i < p + k → row i = 0)
    (hkeep : ∀ i < n, ¬ (p ≤ i ∧ i < p + k) → row' i = row i)
    (hsame : ∀ c ∈ forest rows width level row n, ∀ i < width, rows' c i = rows c i) :
    forest rows' width level row' n =
      forest rows width level row n + slice rows' width level row' p k := by
  have hslice : slice rows' width level row' p k =
      ∑ i ∈ Finset.Ico p (p + k), subtree rows' width (level i) (row' i) := by
    rw [Finset.sum_Ico_eq_sum_range, Nat.add_sub_cancel_left]
    rfl
  have hsub : Finset.Ico p (p + k) ⊆ Finset.range n := by
    intro i hi
    have := Finset.mem_Ico.mp hi
    exact Finset.mem_range.mpr (by omega)
  have hempty : ∑ i ∈ Finset.Ico p (p + k), subtree rows width (level i) (row i) = 0 := by
    refine Finset.sum_eq_zero fun i hi => ?_
    obtain ⟨h1, h2⟩ := Finset.mem_Ico.mp hi
    rw [hzero i h1 h2, subtree_null]
  have hrest : ∑ i ∈ Finset.range n \ Finset.Ico p (p + k),
      subtree rows' width (level i) (row' i) =
      ∑ i ∈ Finset.range n \ Finset.Ico p (p + k), subtree rows width (level i) (row i) := by
    refine Finset.sum_congr rfl fun i hi => ?_
    obtain ⟨hin, hout⟩ := Finset.mem_sdiff.mp hi
    have hi' := Finset.mem_range.mp hin
    rw [Finset.mem_Ico] at hout
    rw [hkeep i hi' hout]
    exact subtree_congr fun c hc => hsame c (mem_forest.mpr ⟨i, hi', hc⟩)
  rw [forest, forest, ← Finset.sum_sdiff hsub, ← Finset.sum_sdiff hsub, hempty, hrest, add_zero,
    hslice]

/-- An array with nothing outside a run of slots. -/
theorem forest_eq_slice {level row : Nat → Nat} {n p k : Nat} (hpk : p + k ≤ n)
    (hzero : ∀ i < n, ¬ (p ≤ i ∧ i < p + k) → row i = 0) :
    forest rows width level row n = slice rows width level row p k := by
  have hempty : forest rows width level (fun _ => 0) n = 0 :=
    Finset.sum_eq_zero fun i _ => subtree_null (level i)
  have h : forest rows width level row n =
      forest rows width level (fun _ => 0) n + slice rows width level row p k :=
    forest_graft hpk (fun _ _ _ => rfl) hzero fun _ _ _ _ => rfl
  rwa [hempty, zero_add] at h

/-- A run of slots that point to consecutive blocks, one level above the end. -/
theorem slice_consecutive {level row : Nat → Nat} {p k x : Nat} (hx : x ≠ 0)
    (hlevel : ∀ i, p ≤ i → i < p + k → level i = 0)
    (hrow : ∀ i < k, row (p + i) = x + i) :
    slice rows width level row p k = (List.range' x k : List Nat) := by
  induction k generalizing p x with
  | zero => rfl
  | succ k ih =>
    have hhead := hrow 0 (by omega)
    rw [Nat.add_zero, Nat.add_zero] at hhead
    have htail : ∀ i < k, row (p + 1 + i) = x + 1 + i := by
      intro i hi
      have h := hrow (i + 1) (by omega)
      rw [Nat.add_right_comm, Nat.add_assoc, h]
      omega
    rw [slice_succ, hlevel p (by omega) (by omega), hhead, subtree_leaf hx, List.range'_succ,
      ih (Nat.succ_ne_zero x) (fun i h1 h2 => hlevel i (by omega) (by omega)) htail]
    rfl

end PtrTree
