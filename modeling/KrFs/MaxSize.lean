import KrFs.BlockPath
import KrFs.InodeTable
import Mathlib.Tactic.IntervalCases

/-!
# The largest file

`kr_max_size` against the tree it is computed for: what the paths of the inode can reach,
and what a file without holes takes of the disk. `MAX_LFS_FILESIZE` of the kernel is a
parameter.
-/

namespace KrFs

/-- `kr_max_size`. -/
def krMaxSize (maxLfsFilesize : Int) (bits : Nat) : Int :=
  let upperLimit : Int := (1 <<< 32 - 1) >>> (bits - 9)
  let metaBlocks : Int := 1 + (1 + 1 <<< (bits - 2)) + (1 + 1 <<< (bits - 2) + 1 <<< (2 * (bits - 2)))
  let upperLimit := (upperLimit - metaBlocks) <<< bits
  let res : Int := (KR_NDIR_BLOCKS + 1 <<< (bits - 2) + 1 <<< (2 * (bits - 2)) +
    1 <<< (3 * (bits - 2))) <<< bits
  let res := if upperLimit < res then upperLimit else res
  if maxLfsFilesize < res then maxLfsFilesize else res

/-- The indirect blocks on the way to a block, each named by the path to it. -/
def indirectPaths (path : List Nat) : Finset (List Nat) :=
  (Finset.Ico 1 path.length).image fun i => path.take i

/-- The blocks that a file of `n` blocks without holes has, indirect ones included. -/
def denseBlocks (bits n : Nat) : Nat :=
  n + ((Finset.range n).biUnion fun b =>
    indirectPaths (krBlockToPath (2 ^ (bits - 2)) (bits - 2) b).1).card

/-- A file may grow to the limit: each byte has a place in the tree, and the sectors of a
file without holes can be counted in `i_blocks`. -/
structure MaxSizeFits (maxLfsFilesize : Int) (bits : Nat) : Prop where
  pos : 0 < krMaxSize maxLfsFilesize bits
  reached : ∀ offset : Nat, (offset : Int) < krMaxSize maxLfsFilesize bits →
    (krBlockToPath (2 ^ (bits - 2)) (bits - 2) (offset >>> bits : Nat)).1 ≠ []
  counted : ∀ n : Nat, (n : Int) = (krMaxSize maxLfsFilesize bits + 2 ^ bits - 1) / 2 ^ bits →
    denseBlocks bits n * 2 ^ (bits - 9) ≤ 2 ^ 32 - 1

section Dense

/-- The indirect blocks of the whole tree: a single one, a double one with a level below it,
and a triple one with two levels below it. -/
def indirectLevels (ptrs : Nat) : Finset (List Nat) :=
  {[12], [13], [14]} ∪ ((Finset.range ptrs).image fun i => [13, i]) ∪
    ((Finset.range ptrs).image fun i => [14, i]) ∪
    ((Finset.range ptrs ×ˢ Finset.range ptrs).image fun ij => [14, ij.1, ij.2])

theorem card_indirectLevels_le (ptrs : Nat) :
    (indirectLevels ptrs).card ≤ 3 + 2 * ptrs + ptrs * ptrs := by
  have htops : ({[12], [13], [14]} : Finset (List Nat)).card ≤ 3 := Finset.card_le_three
  have hdouble := Finset.card_image_le (s := Finset.range ptrs) (f := fun i => [13, i])
  have htriple := Finset.card_image_le (s := Finset.range ptrs) (f := fun i => [14, i])
  have hbelow := Finset.card_image_le (s := Finset.range ptrs ×ˢ Finset.range ptrs)
    (f := fun ij => [14, ij.1, ij.2])
  rw [Finset.card_range] at hdouble htriple
  rw [Finset.card_product, Finset.card_range] at hbelow
  calc (indirectLevels ptrs).card
      ≤ 3 + ptrs + ptrs + ptrs * ptrs := by
        refine (Finset.card_union_le _ _).trans (Nat.add_le_add ?_ hbelow)
        refine (Finset.card_union_le _ _).trans (Nat.add_le_add ?_ htriple)
        exact (Finset.card_union_le _ _).trans (Nat.add_le_add htops hdouble)
    _ = 3 + 2 * ptrs + ptrs * ptrs := by omega

theorem IsPath.indirectPaths_subset {ptrs : Nat} {path : List Nat} (h : IsPath ptrs path) :
    indirectPaths path ⊆ indirectLevels ptrs := by
  obtain ⟨o, os, rfl⟩ := List.exists_cons_of_ne_nil h.ne_nil
  have hhead : o < 15 := h.head_lt
  have hlen : os.length = o - 11 := by simpa using h.length_eq
  have htail : ∀ i ∈ os, i < ptrs := h.tail_lt
  intro q hq
  obtain ⟨n, hn, rfl⟩ := Finset.mem_image.mp hq
  rw [Finset.mem_Ico, List.length_cons] at hn
  unfold indirectLevels
  rcases os with _ | ⟨i, _ | ⟨j, _ | ⟨k, _ | ⟨l, os⟩⟩⟩⟩
  · simp only [List.length_nil] at hn
    omega
  · have ho : o = 12 := by simp only [List.length_cons, List.length_nil] at hlen; omega
    have hone : n = 1 := by simp only [List.length_cons, List.length_nil] at hn; omega
    subst ho hone
    simp
  · have ho : o = 13 := by simp only [List.length_cons, List.length_nil] at hlen; omega
    have htwo : n = 1 ∨ n = 2 := by simp only [List.length_cons, List.length_nil] at hn; omega
    subst ho
    rcases htwo with rfl | rfl
    · simp
    · simp [htail i (by simp)]
  · have ho : o = 14 := by simp only [List.length_cons, List.length_nil] at hlen; omega
    have hthree : n = 1 ∨ n = 2 ∨ n = 3 := by
      simp only [List.length_cons, List.length_nil] at hn
      omega
    subst ho
    rcases hthree with rfl | rfl | rfl
    · simp
    · simp [htail i (by simp)]
    · simp [htail i (by simp), htail j (by simp)]
  · simp only [List.length_cons] at hlen
    omega

theorem denseBlocks_le {bits : Nat} (hbits : 6 ≤ bits) (n : Nat) :
    denseBlocks bits n ≤ n + (3 + 2 * 2 ^ (bits - 2) + 2 ^ (bits - 2) * 2 ^ (bits - 2)) := by
  refine Nat.add_le_add_left ((Finset.card_le_card ?_).trans (card_indirectLevels_le _)) n
  refine Finset.biUnion_subset.mpr fun b _ => ?_
  by_cases hne : (krBlockToPath (2 ^ (bits - 2)) (bits - 2) b).1 = []
  · rw [hne]
    exact Finset.empty_subset _
  · exact (krBlockToPath_isPath (by omega) b hne).1.indirectPaths_subset

end Dense

section Limit

variable {maxLfsFilesize : Int} {bits : Nat}

/-- The limits as powers: what `i_blocks` counts without the indirect blocks, and what the
tree reaches. -/
theorem krMaxSize_eq (maxLfsFilesize : Int) (bits : Nat) :
    krMaxSize maxLfsFilesize bits = min maxLfsFilesize
      (min (((2 ^ 32 - 1) / 2 ^ (bits - 9) -
          (3 + 2 * 2 ^ (bits - 2) + 2 ^ (bits - 2) * 2 ^ (bits - 2))) * 2 ^ bits)
        (pathCapacity (2 ^ (bits - 2)) * 2 ^ bits)) := by
  have hupper : ((1 <<< 32 - 1 : Int) >>> (bits - 9) -
      (1 + (1 + 1 <<< (bits - 2)) + (1 + 1 <<< (bits - 2) + 1 <<< (2 * (bits - 2))))) <<< bits =
      ((2 ^ 32 - 1) / 2 ^ (bits - 9) -
        (3 + 2 * 2 ^ (bits - 2) + 2 ^ (bits - 2) * 2 ^ (bits - 2))) * 2 ^ bits := by
    simp only [Int.shiftLeft_eq, Int.shiftRight_eq_div_pow, Nat.one_shiftLeft]
    rw [two_mul (bits - 2), pow_add]
    push_cast
    ring
  have hres : ((KR_NDIR_BLOCKS + 1 <<< (bits - 2) + 1 <<< (2 * (bits - 2)) +
      1 <<< (3 * (bits - 2)) : Int)) <<< bits =
      (pathCapacity (2 ^ (bits - 2)) * 2 ^ bits : Int) := by
    simp only [Int.shiftLeft_eq, Nat.one_shiftLeft]
    rw [pathCapacity, mul_comm 2 (bits - 2), mul_comm 3 (bits - 2), pow_mul, pow_mul]
    push_cast
    rfl
  have hmin : ∀ a b : Int, (if b < a then b else a) = min b a := by
    intro a b
    split
    · rename_i hlt
      exact (min_eq_left hlt.le).symm
    · rename_i hge
      exact (min_eq_right (Int.not_lt.mp hge)).symm
  unfold krMaxSize
  dsimp only
  rw [hmin, hmin, ← hupper, ← hres]
  rfl

/-- Up to blocks of 16 KiB the indirect blocks of a tree can be counted. -/
theorem room_iff (h10 : 10 ≤ bits) (h16 : bits ≤ 16) :
    (0 : Int) < (2 ^ 32 - 1) / 2 ^ (bits - 9) -
      (3 + 2 * 2 ^ (bits - 2) + 2 ^ (bits - 2) * 2 ^ (bits - 2)) ↔ bits ≤ 14 := by
  interval_cases bits <;> norm_num

/-- `kr_max_size` gives a limit that files can reach just for blocks of up to 16 KiB; beyond,
it is negative. -/
theorem krMaxSize_fits_iff (h10 : 10 ≤ bits) (h16 : bits ≤ 16) (hmax : 0 < maxLfsFilesize) :
    MaxSizeFits maxLfsFilesize bits ↔ bits ≤ 14 := by
  have hsize := krMaxSize_eq maxLfsFilesize bits
  have hbits : 4 ≤ bits - 2 := by omega
  have hpos : (0 : Int) < 2 ^ bits := by positivity
  set room : Int := (2 ^ 32 - 1) / 2 ^ (bits - 9) -
    (3 + 2 * 2 ^ (bits - 2) + 2 ^ (bits - 2) * 2 ^ (bits - 2)) with hroom
  constructor
  · intro h
    rw [← room_iff h10 h16]
    have hfits := h.pos
    rw [hsize, lt_min_iff, lt_min_iff] at hfits
    exact (mul_pos_iff_of_pos_right hpos).mp hfits.2.1
  · intro h14
    have hpositive : 0 < room := (room_iff h10 h16).mpr h14
    have hcap : (0 : Int) < pathCapacity (2 ^ (bits - 2)) := by
      rw [pathCapacity, KR_NDIR_BLOCKS]
      positivity
    refine ⟨?_, fun offset hlt => ?_, fun n hn => ?_⟩
    · rw [hsize]
      exact lt_min hmax (lt_min (mul_pos hpositive hpos) (mul_pos hcap hpos))
    · -- the block of the offset lies below the capacity of the tree
      rw [hsize, lt_min_iff, lt_min_iff] at hlt
      rw [Ne, krBlockToPath_none_iff hbits, Nat.not_le, Nat.shiftRight_eq_div_pow,
        Nat.div_lt_iff_lt_mul (Nat.two_pow_pos bits)]
      exact_mod_cast hlt.2.2
    · -- rounded up to whole blocks, the data leaves room for all indirect blocks
      have hle : krMaxSize maxLfsFilesize bits ≤ room * 2 ^ bits := by
        rw [hsize]
        exact (min_le_right _ _).trans (min_le_left _ _)
      have hblocks : (n : Int) ≤ room := by
        rw [hn]
        have hlt : krMaxSize maxLfsFilesize bits + 2 ^ bits - 1 < (room + 1) * 2 ^ bits := by
          rw [add_mul, one_mul]
          omega
        exact Int.lt_add_one_iff.mp (Int.ediv_lt_of_lt_mul hpos hlt)
      have hdense := denseBlocks_le (show 6 ≤ bits by omega) n
      have htotal : denseBlocks bits n ≤ (2 ^ 32 - 1) / 2 ^ (bits - 9) := by
        have hsectors : ((2 ^ 32 - 1 : Nat) : Int) = 2 ^ 32 - 1 := by norm_num
        zify at hdense ⊢
        rw [hsectors]
        omega
      exact (Nat.mul_le_mul_right _ htotal).trans (Nat.div_mul_le_self _ _)

end Limit

/-- Blocks of 4 KiB, on a machine with 64-bit words. -/
theorem krMaxSize_fits_iff_page : MaxSizeFits (2 ^ 63 - 1) 12 ∧
    krMaxSize (2 ^ 63 - 1) 12 = 2194719883264 :=
  ⟨(krMaxSize_fits_iff (by decide) (by decide) (by decide)).mpr (by decide), by decide +kernel⟩

/-- A machine with pages of 64 KiB. -/
def largePageEnv : MountEnv :=
  { smallEnv with
    pageSize := 65536
    setBlocksize := fun n => decide (n.isPowerOfTwo ∧ 512 ≤ n ∧ n ≤ 65536)
    setBlocksize_spec := fun _ h => of_decide_eq_true h
    minBlocksize_spec := ⟨⟨10, rfl⟩, by decide, by decide⟩ }

def largeBlockImage : SuperBlock :=
  { smallImage 512 with sLogBlockSize := 6, sLogFragSize := 6, sFirstDataBlock := 0 }

/-- It mounts a file system with blocks of 64 KiB, and no file of it may have a byte. -/
theorem krMaxSize_negative :
    krFillSuper largePageEnv largeBlockImage = .ok (sbInfoOf largePageEnv largeBlockImage 65536) ∧
      (sbInfoOf largePageEnv largeBlockImage 65536).sBlocksizeBits = 16 ∧
      krMaxSize (2 ^ 63 - 1) 16 = -15395310534656 ∧ ¬ MaxSizeFits (2 ^ 63 - 1) 16 := by
  refine ⟨rfl, by decide +kernel, by decide +kernel, fun h => ?_⟩
  exact absurd h.pos (by decide +kernel)

end KrFs
