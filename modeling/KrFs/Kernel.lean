import Mathlib.Data.Nat.Basic
import Mathlib.Data.Nat.Bitwise

/-!
# Kernel vocabulary of the kr file system

Error codes, file modes and the C integer conversions that the sources of the
file system use. An `unsigned long` and every other machine word is a natural
number here, and a wrap is written out where the source can reach one. On-disk
fields have the fixed-width types of `kr.h`.
-/

namespace KrFs

/-- The negative return codes the sources use. -/
inductive Errno where
  | eperm | enoent | eio | eagain | enomem | eexist | einval | enospc
  | enametoolong | enotempty | estale | euclean | edquot
deriving DecidableEq, Repr

/-- How a call ends: it returns a value, it stops in `BUG()`, or the fuel of one
of its loops is used up while it is still running. -/
inductive Exec (α : Type) where
  | done (value : α)
  | bug
  | running
deriving DecidableEq

namespace Exec

def bind {α β : Type} : Exec α → (α → Exec β) → Exec β
  | done a, f => f a
  | bug, _ => bug
  | running, _ => running

instance : Monad Exec where
  pure := done
  bind := bind

theorem bind_eq_done {α β : Type} {x : Exec α} {f : α → Exec β} {b : β} :
    x >>= f = done b ↔ ∃ a, x = done a ∧ f a = done b := by
  cases x with
  | done a => simp [Bind.bind, bind]
  | bug => simp [Bind.bind, bind]
  | running => simp [Bind.bind, bind]

def toOption {α : Type} : Exec α → Option α
  | done a => some a
  | _ => none

theorem toOption_eq_some {α : Type} {x : Exec α} {a : α} : x.toOption = some a ↔ x = done a := by
  cases x <;> simp [toOption]

/-- A fact about the value of a call that ends. -/
theorem toOption_map_eq_some {α β : Type} {x : Exec α} {f : α → β} {b : β} :
    x.toOption.map f = some b ↔ ∃ a, x = done a ∧ f a = b := by
  simp only [Option.map_eq_some_iff, toOption_eq_some]

end Exec

def S_IFMT : UInt16 := 0xF000
def S_IFSOCK : UInt16 := 0xC000
def S_IFLNK : UInt16 := 0xA000
def S_IFREG : UInt16 := 0x8000
def S_IFBLK : UInt16 := 0x6000
def S_IFDIR : UInt16 := 0x4000
def S_IFCHR : UInt16 := 0x2000
def S_IFIFO : UInt16 := 0x1000

def S_ISREG (mode : UInt16) : Bool := mode &&& S_IFMT == S_IFREG
def S_ISDIR (mode : UInt16) : Bool := mode &&& S_IFMT == S_IFDIR
def S_ISLNK (mode : UInt16) : Bool := mode &&& S_IFMT == S_IFLNK
def S_ISCHR (mode : UInt16) : Bool := mode &&& S_IFMT == S_IFCHR
def S_ISBLK (mode : UInt16) : Bool := mode &&& S_IFMT == S_IFBLK

/-- A left shift of a 32-bit `int`; the machine masks the shift count. -/
def shl32 (a count : Nat) : Nat := (a <<< (count % 32)) % 2 ^ 32

/-- Conversion of an `int`, given by its 32-bit pattern, to `unsigned long`. -/
def intToULong (a : Nat) : Nat := if a < 2 ^ 31 then a else a + (2 ^ 64 - 2 ^ 32)

/-- Subtraction of `unsigned` operands, which wraps below zero. -/
def sub32 (a b : Nat) : Nat := (a + (2 ^ 32 - b % 2 ^ 32)) % 2 ^ 32

/-- Subtraction of `unsigned long` operands. -/
def sub64 (a b : Nat) : Nat := (a + (2 ^ 64 - b % 2 ^ 64)) % 2 ^ 64

theorem sub32_of_le {a b : Nat} (hab : b ≤ a) (ha : a < 2 ^ 32) : sub32 a b = a - b := by
  unfold sub32
  omega

theorem sub64_of_le {a b : Nat} (hab : b ≤ a) (ha : a < 2 ^ 64) : sub64 a b = a - b := by
  unfold sub64
  omega

/-- Of two powers of two the smaller divides the larger. -/
theorem dvd_of_isPowerOfTwo {a b : Nat} (ha : a.isPowerOfTwo) (hb : b.isPowerOfTwo)
    (hab : a ≤ b) : a ∣ b := by
  obtain ⟨i, rfl⟩ := ha
  obtain ⟨j, rfl⟩ := hb
  exact Nat.pow_dvd_pow 2 ((Nat.pow_le_pow_iff_right (by decide)).mp hab)

end KrFs
