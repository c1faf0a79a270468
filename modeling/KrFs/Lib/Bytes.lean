import Mathlib.Algebra.Group.Nat.Defs
import Mathlib.Data.Nat.Basic
import Mathlib.Data.List.GetD

/-!
# Bytes in memory

Memory as a function from addresses to bytes, loads and stores of runs of bytes,
and numbers in little-endian order. A load sees a store at the same place and no
store elsewhere; stores that are made one after the other change nothing outside
their places.
-/

namespace Bytes

/-- The bytes at `off`. -/
def load (m : Nat → UInt8) (off len : Nat) : List UInt8 := (List.range len).map fun i => m (off + i)

/-- Memory with the given bytes at `off`. -/
def store (m : Nat → UInt8) (off : Nat) (data : List UInt8) : Nat → UInt8 :=
  fun i => if off ≤ i then data.getD (i - off) (m i) else m i

/-- A store that is still to be made. -/
structure Store where
  off : Nat
  data : List UInt8
deriving DecidableEq

/-- Stores made one after the other. -/
def apply (m : Nat → UInt8) (stores : List Store) : Nat → UInt8 :=
  stores.foldl (fun m s => store m s.off s.data) m

/-- The number that bytes stand for, the lowest byte first. -/
def value : List UInt8 → Nat
  | [] => 0
  | b :: data => b.toNat + 256 * value data

/-- The lowest bytes of a number. -/
def digits : Nat → Nat → List UInt8
  | 0, _ => []
  | width + 1, n => UInt8.ofNat n :: digits width (n / 256)

variable {m m' : Nat → UInt8} {off len start i : Nat} {data : List UInt8} {stores : List Store}

@[simp] theorem length_load : (load m off len).length = len := by
  simp [load]

@[simp] theorem length_digits (width n : Nat) : (digits width n).length = width := by
  induction width generalizing n with
  | zero => rfl
  | succ width ih => simp [digits, ih]

theorem value_digits (width n : Nat) : value (digits width n) = n % 256 ^ width := by
  induction width generalizing n with
  | zero => simp [digits, value, Nat.mod_one]
  | succ width ih =>
    have hpow : 256 ^ (width + 1) = 256 * 256 ^ width := by
      rw [Nat.pow_succ, Nat.mul_comm]
    rw [digits, value, ih, UInt8.toNat_ofNat', hpow]
    exact Nat.mod_mul.symm

theorem value_digits_zero (width : Nat) : value (digits width 0) = 0 :=
  (value_digits width 0).trans (Nat.zero_mod _)

theorem value_lt (data : List UInt8) : value data < 256 ^ data.length := by
  induction data with
  | nil => simp [value]
  | cons b data ih =>
    have hb : b.toNat < 256 := b.toNat_lt
    rw [value, List.length_cons, Nat.pow_succ]
    omega

theorem load_congr (h : ∀ i, off ≤ i → i < off + len → m i = m' i) :
    load m off len = load m' off len := by
  apply List.map_congr_left
  intro i hi
  have hlt := List.mem_range.mp hi
  exact h _ (by omega) (by omega)

theorem getElem_load (h : i < (load m off len).length) : (load m off len)[i] = m (off + i) := by
  simp [load]

theorem store_outside (h : i < off ∨ off + data.length ≤ i) : store m off data i = m i := by
  unfold store
  split
  · rw [List.getD_eq_default]
    omega
  · rfl

theorem store_inside (h : i < data.length) : store m off data (off + i) = data[i] := by
  simp [store, h]

theorem load_store_self (h : data.length = len) : load (store m off data) off len = data := by
  subst h
  apply List.ext_getElem
  · exact length_load
  · intro i hi hlt
    rw [getElem_load hi, store_inside hlt]

theorem load_store_of_disjoint (h : off + len ≤ start ∨ start + data.length ≤ off) :
    load (store m start data) off len = load m off len := by
  apply load_congr
  intro i hlow hhigh
  exact store_outside (by omega)

theorem apply_nil : apply m [] = m := rfl

theorem apply_cons (s : Store) : apply m (s :: stores) = apply (store m s.off s.data) stores := rfl

theorem apply_append (stores' : List Store) :
    apply m (stores ++ stores') = apply (apply m stores) stores' := by
  simp [apply]

/-- Bytes outside of all the stores stay. -/
theorem apply_outside (h : ∀ s ∈ stores, i < s.off ∨ s.off + s.data.length ≤ i) :
    apply m stores i = m i := by
  induction stores generalizing m with
  | nil => rfl
  | cons s stores ih =>
    rw [List.forall_mem_cons] at h
    rw [apply_cons, ih h.2, store_outside h.1]

end Bytes
