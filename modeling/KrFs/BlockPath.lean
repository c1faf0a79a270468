import KrFs.GetBlocksMap
import Mathlib.Data.Int.ConditionallyCompleteOrder

/-!
# Block numbers and paths

`kr_block_to_path` as a numbering. The paths of the inode are put in order, and each block
number below the capacity of the tree names one of them; what it stores in `*boundary` is
the number of neighbours that the block has in its array.
-/

namespace KrFs

/-- The blocks that the direct slots and the three levels of indirection reach. -/
def pathCapacity (ptrs : Nat) : Nat := KR_NDIR_BLOCKS + ptrs + ptrs ^ 2 + ptrs ^ 3

/-- The block number of a path: where its level starts, and the offsets below the inode as
the digits of a number. -/
def pathBlock (ptrs : Nat) : List Nat → Nat
  | [b] => b
  | [_, i] => KR_NDIR_BLOCKS + i
  | [_, i, j] => KR_NDIR_BLOCKS + ptrs + (i * ptrs + j)
  | [_, i, j, k] => KR_NDIR_BLOCKS + ptrs + ptrs ^ 2 + ((i * ptrs + j) * ptrs + k)
  | _ => 0

section Paths

variable {bits : Nat}

theorem pow_sq (bits : Nat) : (2 ^ bits) ^ 2 = 2 ^ (bits * 2) := (pow_mul 2 bits 2).symm

theorem pow_cube (bits : Nat) : (2 ^ bits) ^ 3 = 2 ^ bits * 2 ^ bits * 2 ^ bits := by ring

/-- The quotients of a number that has three digits. -/
theorem three_digits_iff (ptrs c : Nat) (hpos : 0 < ptrs) :
    c / ptrs / ptrs < ptrs ↔ c < ptrs * ptrs * ptrs := by
  rw [Nat.div_lt_iff_lt_mul hpos, Nat.div_lt_iff_lt_mul hpos]

/-- A block number has the path of its region, or none behind the last region. -/
theorem krBlockToPath_none_iff (hbits : 4 ≤ bits) (b : Nat) :
    (krBlockToPath (2 ^ bits) bits b).1 = [] ↔ pathCapacity (2 ^ bits) ≤ b := by
  have hpos := Nat.two_pow_pos bits
  have hpos2 := Nat.two_pow_pos (bits * 2)
  unfold pathCapacity
  rw [pow_sq, pow_cube, KR_NDIR_BLOCKS]
  constructor
  · intro hnil
    by_contra hlt
    by_cases h1 : b < 12
    · rw [krBlockToPath_direct h1] at hnil
      cases hnil
    by_cases h2 : b < 12 + 2 ^ bits
    · obtain ⟨c, rfl⟩ := Nat.exists_eq_add_of_le (Nat.not_lt.mp h1)
      rw [krBlockToPath_single (by omega)] at hnil
      cases hnil
    by_cases h3 : b < 12 + 2 ^ bits + 2 ^ (bits * 2)
    · obtain ⟨c, rfl⟩ := Nat.exists_eq_add_of_le (Nat.not_lt.mp h2)
      rw [krBlockToPath_double (by omega)] at hnil
      cases hnil
    · obtain ⟨c, rfl⟩ := Nat.exists_eq_add_of_le (Nat.not_lt.mp h3)
      rw [krBlockToPath_triple ((three_digits_iff _ _ hpos).mpr (by omega))] at hnil
      cases hnil
  · intro hge
    generalize hpath : (krBlockToPath (2 ^ bits) bits b).1 = path
    rcases krBlockToPath_regions hpath with ⟨hb, -⟩ | ⟨c, hc, hb, -⟩ | ⟨c, hc, hb, -⟩ | ⟨c, hb, hp⟩ |
      hp
    · omega
    · omega
    · omega
    · -- the first offset below the triple level would be too large
      rw [hp] at hpath
      have hplace := (krBlockToPath_isPath hbits b (by rw [hpath]; exact List.cons_ne_nil _ _)).1
      rw [hpath] at hplace
      have htop : c / 2 ^ bits / 2 ^ bits < 2 ^ bits := hplace.tail_lt _ (by simp)
      rw [three_digits_iff _ _ hpos] at htop
      omega
    · exact hp

theorem krBlockToPath_neg {b : Int} (hb : b < 0) : (krBlockToPath (2 ^ bits) bits b).1 = [] := by
  rw [krBlockToPath, if_pos hb]

theorem krBlockToPath_eq_nil_iff (hbits : 4 ≤ bits) (b : Int) :
    (krBlockToPath (2 ^ bits) bits b).1 = [] ↔ ¬ (0 ≤ b ∧ b < pathCapacity (2 ^ bits)) := by
  by_cases hneg : b < 0
  · exact iff_of_true (krBlockToPath_neg hneg) fun h => absurd h.1 (Int.not_le.mpr hneg)
  · obtain ⟨n, rfl⟩ := Int.eq_ofNat_of_zero_le (Int.not_lt.mp hneg)
    rw [krBlockToPath_none_iff hbits]
    omega

/-- The number of a path is evaluated back to the block. -/
theorem pathBlock_krBlockToPath {b : Nat} (hne : (krBlockToPath (2 ^ bits) bits b).1 ≠ []) :
    pathBlock (2 ^ bits) (krBlockToPath (2 ^ bits) bits b).1 = b := by
  generalize hp : (krBlockToPath (2 ^ bits) bits b).1 = path at hne
  rcases krBlockToPath_regions hp with ⟨hb, rfl⟩ | ⟨c, hc, rfl, rfl⟩ | ⟨c, hc, rfl, rfl⟩ |
    ⟨c, rfl, rfl⟩ | rfl
  · rfl
  · rfl
  · rw [pathBlock, Nat.div_add_mod']
    rfl
  · rw [pathBlock, Nat.div_add_mod', Nat.div_add_mod', pow_sq]
    rfl
  · exact absurd rfl hne

theorem digits_of_lt {i j n : Nat} (hj : j < n) : (i * n + j) / n = i ∧ (i * n + j) % n = j :=
  ⟨by rw [Nat.mul_comm, Nat.mul_add_div (by omega), Nat.div_eq_of_lt hj, Nat.add_zero],
    by rw [Nat.mul_comm, Nat.mul_add_mod, Nat.mod_eq_of_lt hj]⟩

/-- Every path of the inode is the path of a block. -/
theorem IsPath.krBlockToPath_eq (hbits : 4 ≤ bits) {path : List Nat} (h : IsPath (2 ^ bits) path) :
    pathBlock (2 ^ bits) path < pathCapacity (2 ^ bits) ∧
      (krBlockToPath (2 ^ bits) bits (pathBlock (2 ^ bits) path)).1 = path := by
  have hpos := Nat.two_pow_pos bits
  obtain ⟨o, os, rfl⟩ := List.exists_cons_of_ne_nil h.ne_nil
  have hhead : o < 15 := h.head_lt
  have hlen : os.length = o - 11 := by simpa using h.length_eq
  have htail : ∀ i ∈ os, i < 2 ^ bits := h.tail_lt
  suffices heq : (krBlockToPath (2 ^ bits) bits (pathBlock (2 ^ bits) (o :: os))).1 = o :: os by
    refine ⟨Nat.not_le.mp fun hge => ?_, heq⟩
    rw [(krBlockToPath_none_iff hbits _).mpr hge] at heq
    cases heq
  rcases os with _ | ⟨i, _ | ⟨j, _ | ⟨k, _ | ⟨l, os⟩⟩⟩⟩
  · have ho : o < 12 := by simp only [List.length_nil] at hlen; omega
    exact krBlockToPath_direct ho
  · have ho : o = 12 := by simp only [List.length_cons, List.length_nil] at hlen; omega
    subst ho
    exact krBlockToPath_single (htail i (by simp))
  · have ho : o = 13 := by simp only [List.length_cons, List.length_nil] at hlen; omega
    subst ho
    have hi := htail i (by simp)
    obtain ⟨hdiv, hmod⟩ := digits_of_lt (i := i) (htail j (by simp))
    rw [pathBlock, KR_NDIR_BLOCKS, krBlockToPath_double, hdiv, hmod]
    rw [Nat.mul_two, Nat.pow_add, ← Nat.div_lt_iff_lt_mul hpos, hdiv]
    exact hi
  · have ho : o = 14 := by simp only [List.length_cons, List.length_nil] at hlen; omega
    subst ho
    have hi := htail i (by simp)
    obtain ⟨hdivj, hmodj⟩ := digits_of_lt (i := i) (htail j (by simp))
    obtain ⟨hdivk, hmodk⟩ := digits_of_lt (i := i * 2 ^ bits + j) (htail k (by simp))
    rw [pathBlock, KR_NDIR_BLOCKS, pow_sq, krBlockToPath_triple, hdivk, hmodk, hdivj, hmodj]
    rw [hdivk, hdivj]
    exact hi
  · simp only [List.length_cons] at hlen
    omega

/-- The boundary of a block is the distance to the last slot of its array. -/
theorem krBlockToPath_boundary (hbits : 4 ≤ bits) {b : Nat}
    (hne : (krBlockToPath (2 ^ bits) bits b).1 ≠ []) :
    ∃ n : Nat, (krBlockToPath (2 ^ bits) bits b).2 = n ∧
      IsGreatest {n : Nat | ∀ j ≤ n, (krBlockToPath (2 ^ bits) bits (b + j : Nat)).1 =
        runPath (krBlockToPath (2 ^ bits) bits b).1 j} n := by
  obtain ⟨hpath, hboundary⟩ := krBlockToPath_isPath hbits b hne
  have hlast := hpath.last_lt
  generalize hpb : krBlockToPath (2 ^ bits) bits b = pb at hne hpath hboundary hlast ⊢
  obtain ⟨path, boundary⟩ := pb
  dsimp only at hne hpath hboundary hlast ⊢
  refine ⟨lastWidth (2 ^ bits) path - 1 - path.getLastD 0, by omega, fun j hj => ?_, ?_⟩
  · have hadd := @krBlockToPath_add bits b j
    rw [hpb] at hadd
    dsimp only at hadd
    exact hadd hpath (by omega)
  · intro n hn
    by_contra hlt
    -- one step past the array, the last slot would be out of range
    have hstep := hn (lastWidth (2 ^ bits) path - path.getLastD 0) (by omega)
    have hne' : (krBlockToPath (2 ^ bits) bits
        (b + (lastWidth (2 ^ bits) path - path.getLastD 0) : Nat)).1 ≠ [] := by
      rw [hstep, runPath]
      simp
    have hlast' := (krBlockToPath_isPath hbits _ hne').1.last_lt
    have hwidth : lastWidth (2 ^ bits) (runPath path (lastWidth (2 ^ bits) path - path.getLastD 0)) =
        lastWidth (2 ^ bits) path := by
      rw [lastWidth, runPath_length hne, lastWidth]
    rw [hstep, hwidth, runPath, List.getLastD_eq_getLast?, List.getLast?_concat, Option.getD_some]
      at hlast'
    omega

end Paths

/-- `kr_block_to_path` numbers the paths of the inode in their order. -/
theorem krBlockToPath_bijective {k : Nat} (hk : 4 ≤ k) :
    let path := fun b : Int => (krBlockToPath (2 ^ k) k b).1
    let blocks := Set.Ico (0 : Int) (pathCapacity (2 ^ k))
    Set.BijOn path blocks {p | IsPath (2 ^ k) p} ∧
      (∀ b, path b = [] ↔ b ∉ blocks) ∧
      (∀ b ∈ blocks, (pathBlock (2 ^ k) (path b) : Int) = b) ∧
      (∀ a ∈ blocks, ∀ b ∈ blocks, a < b ↔ path a < path b) ∧
      ∀ b ∈ blocks, ∃ n : Nat, (krBlockToPath (2 ^ k) k b).2 = n ∧
        IsGreatest {n : Nat | ∀ j ≤ n, path (b + j) = runPath (path b) j} n := by
  intro path blocks
  have hnat : ∀ b ∈ blocks, ∃ n : Nat, b = n ∧ path n ≠ [] := by
    rintro b ⟨h0, hlt⟩
    obtain ⟨n, rfl⟩ := Int.eq_ofNat_of_zero_le h0
    refine ⟨n, rfl, fun hnil => ?_⟩
    exact (krBlockToPath_eq_nil_iff hk _).mp hnil ⟨h0, hlt⟩
  have heval : ∀ b ∈ blocks, (pathBlock (2 ^ k) (path b) : Int) = b := by
    intro b hb
    obtain ⟨n, rfl, hne⟩ := hnat b hb
    exact congrArg _ (pathBlock_krBlockToPath hne)
  have hmono : ∀ a ∈ blocks, ∀ b ∈ blocks, a < b → path a < path b := by
    intro a ha b hb hab
    obtain ⟨m, rfl, -⟩ := hnat a ha
    obtain ⟨n, rfl, hne⟩ := hnat b hb
    exact krBlockToPath_lt (Int.ofNat_lt.mp hab) hne
  refine ⟨⟨?_, ?_, ?_⟩, fun b => krBlockToPath_eq_nil_iff hk b, heval, ?_, ?_⟩
  · intro b hb
    obtain ⟨n, rfl, hne⟩ := hnat b hb
    exact (krBlockToPath_isPath hk _ hne).1
  · intro a ha b hb heq
    rw [← heval a ha, ← heval b hb, heq]
  · intro p hp
    obtain ⟨hlt, heq⟩ := IsPath.krBlockToPath_eq hk hp
    exact ⟨pathBlock (2 ^ k) p, ⟨Int.natCast_nonneg _, Int.ofNat_lt.mpr hlt⟩, heq⟩
  · intro a ha b hb
    refine ⟨hmono a ha b hb, fun hlt => ?_⟩
    by_contra hge
    rcases (Int.not_lt.mp hge).lt_or_eq with hba | rfl
    · exact absurd (hmono b hb a ha hba) (List.lt_asymm hlt)
    · exact absurd hlt (List.lt_irrefl _)
  · intro b hb
    obtain ⟨n, rfl, hne⟩ := hnat b hb
    exact krBlockToPath_boundary hk hne

/-- Blocks of 1 KiB hold 256 pointers. -/
theorem krBlockToPath_bijective_small :
    (krBlockToPath (2 ^ 8) 8 (16843020 - 1)).1 = [14, 255, 255, 255] ∧
      (krBlockToPath (2 ^ 8) 8 16843020).1 = [] := by
  obtain ⟨-, hnone, -, -, -⟩ := krBlockToPath_bijective (show 4 ≤ 8 by decide)
  refine ⟨by decide +kernel, (hnone 16843020).mpr ?_⟩
  rintro ⟨-, hlt⟩
  exact absurd hlt (by decide)

end KrFs
