import KrFs.Lib.Bytes
import KrFs.Lib.Trace
import Mathlib.Logic.Function.Basic

/-!
# Files as arrays of bytes

A file is a size and a byte for each position, zero where nothing was written. The
calls made on a file and their results form a trace; a system refines the array if
each of its steps is one of the array. A file is often kept in blocks of one size:
a run of bytes inside one block is read and written there.
-/

structure ByteFile where
  size : Nat
  byte : Nat → UInt8

namespace ByteFile

def empty : ByteFile := ⟨0, fun _ => 0⟩

/-- The bytes from `off` on, up to the end of the file. -/
def read (f : ByteFile) (off len : Nat) : List UInt8 :=
  Bytes.load f.byte off (min len (f.size - off))

def write (f : ByteFile) (off : Nat) (data : List UInt8) : ByteFile :=
  ⟨max f.size (off + data.length), Bytes.store f.byte off data⟩

/-- A call on a file with its result. -/
inductive Event (ε : Type) where
  | read (off len : Nat) (got : Except ε (List UInt8))
  | write (off : Nat) (data : List UInt8) (ret : Except ε Nat)

/-- A read returns what is there. A write that returns a positive number has stored as
many bytes of its data; any other write has stored nothing. -/
inductive Step {ε : Type} : ByteFile → Event ε → ByteFile → Prop
  | read (f : ByteFile) (off len : Nat) : Step f (.read off len (.ok (f.read off len))) f
  | wrote (f : ByteFile) (off : Nat) {data : List UInt8} {n : Nat} (pos : 0 < n)
      (le : n ≤ data.length) : Step f (.write off data (.ok n)) (f.write off (data.take n))
  | idle (f : ByteFile) (off : Nat) (data : List UInt8) : Step f (.write off data (.ok 0)) f
  | failed (f : ByteFile) (off : Nat) (data : List UInt8) (e : ε) :
      Step f (.write off data (.error e)) f

end ByteFile

namespace Bytes

variable {m : Nat → UInt8} {off : Nat}

@[simp] theorem store_nil : store m off [] = m := by
  funext i
  exact store_outside (by simp; omega)

theorem store_append (front back : List UInt8) :
    store (store m off front) (off + front.length) back = store m off (front ++ back) := by
  funext i
  by_cases hlow : i < off
  · rw [store_outside (.inl (by omega)), store_outside (.inl hlow), store_outside (.inl hlow)]
  by_cases hfront : i < off + front.length
  · obtain ⟨j, rfl⟩ := Nat.exists_eq_add_of_le (Nat.not_lt.mp hlow)
    have hj : j < front.length := by omega
    rw [store_outside (.inl hfront), store_inside hj,
      store_inside (by rw [List.length_append]; omega), List.getElem_append_left hj]
  by_cases hback : i < off + front.length + back.length
  · obtain ⟨j, rfl⟩ := Nat.exists_eq_add_of_le (Nat.not_lt.mp hfront)
    have hj : j < back.length := by omega
    have hall : front.length + j < (front ++ back).length := by
      rw [List.length_append]
      omega
    rw [store_inside hj, Nat.add_assoc, store_inside hall,
      List.getElem_append_right (Nat.le_add_right _ _)]
    congr 1
    omega
  · rw [store_outside (.inr (by omega)), store_outside (.inr (by omega)),
      store_outside (.inr (by rw [List.length_append]; omega))]

theorem load_append (len more : Nat) :
    load m off (len + more) = load m off len ++ load m (off + len) more := by
  simp only [load, List.range_add, List.map_append, List.map_map]
  congr 1
  apply List.map_congr_left
  intro i _
  simp only [Function.comp_apply]
  congr 1
  omega

/-! ## Blocks -/

/-- The bytes of a file that is kept in blocks of `size` bytes. -/
def inBlocks (size : Nat) (block : Nat → Nat → UInt8) : Nat → UInt8 :=
  fun pos => block (pos / size) (pos % size)

variable {size : Nat} {block : Nat → Nat → UInt8} {b : Nat}

theorem inBlocks_at {o : Nat} (ho : o < size) : inBlocks size block (b * size + o) = block b o := by
  have hdiv : (b * size + o) / size = b := by
    rw [Nat.mul_comm, Nat.mul_add_div (by omega), Nat.div_eq_of_lt ho, Nat.add_zero]
  have hmod : (b * size + o) % size = o := by
    rw [Nat.mul_comm, Nat.mul_add_mod, Nat.mod_eq_of_lt ho]
  rw [inBlocks, hdiv, hmod]

theorem inBlocks_congr {block' : Nat → Nat → UInt8} (hsize : 0 < size)
    (h : ∀ b o, o < size → block b o = block' b o) : inBlocks size block = inBlocks size block' := by
  funext pos
  exact h _ _ (Nat.mod_lt _ hsize)

theorem load_inBlocks {len : Nat} (block : Nat → Nat → UInt8) (b : Nat) (h : off + len ≤ size) :
    load (inBlocks size block) (b * size + off) len = load (block b) off len := by
  apply List.map_congr_left
  intro i hi
  have hlt := List.mem_range.mp hi
  rw [Nat.add_assoc, inBlocks_at (by omega)]

/-- A store in one block. -/
theorem inBlocks_store {data : List UInt8} (hsize : 0 < size) (h : off + data.length ≤ size) :
    inBlocks size (Function.update block b (store (block b) off data)) =
      store (inBlocks size block) (b * size + off) data := by
  funext pos
  have hpos : pos / size * size + pos % size = pos := Nat.div_add_mod' pos size
  have hlt : pos % size < size := Nat.mod_lt _ hsize
  rw [inBlocks]
  by_cases hb : pos / size = b
  · rw [hb, Function.update_self]
    rw [hb] at hpos
    by_cases hin : off ≤ pos % size ∧ pos % size < off + data.length
    · obtain ⟨j, hj⟩ := Nat.exists_eq_add_of_le hin.1
      have hjlt : j < data.length := by omega
      rw [hj, store_inside hjlt, show pos = b * size + off + j by omega, store_inside hjlt]
    · rw [store_outside (by omega), store_outside (by omega), inBlocks, hb]
  · rw [Function.update_of_ne hb, store_outside, inBlocks]
    by_contra hin
    rw [not_or, Nat.not_lt, Nat.not_le] at hin
    refine hb (Nat.div_eq_of_lt_le (by omega) ?_)
    rw [Nat.add_mul]
    omega

end Bytes
