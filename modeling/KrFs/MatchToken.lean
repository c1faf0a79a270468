import KrFs.Kernel

/-!
# Tokens of an option string

The functions of `lib/vsprintf.c` and `lib/parser.c` that option parsing calls:
`simple_strtoul` with base 0 on a 64-bit machine, `match_token` for patterns
without any conversion but `%u`, and `match_int`. A C string is the list of its
characters; `strsep` with a comma is `List.splitOn`.
-/

namespace KrFs

/-- The value of a digit in the bases up to 16. -/
def digitVal (c : Char) : Option Nat :=
  if c.isDigit then some (c.toNat - '0'.toNat)
  else if 'a' ≤ c.toLower ∧ c.toLower ≤ 'f' then some (c.toLower.toNat - 'a'.toNat + 10)
  else none

/-- `_parse_integer`: digits of the base as long as there are any. An overflow
wraps, as the callers ignore it. -/
def parseInteger (base : Nat) : Nat → List Char → Nat × List Char
  | acc, [] => (acc, [])
  | acc, c :: s =>
    match digitVal c with
    | some val =>
      if val < base then parseInteger base ((acc * base + val) % 2 ^ 64) s else (acc, c :: s)
    | none => (acc, c :: s)

/-- `_parse_integer_fixup_radix` for base 0. -/
def parseIntegerFixupRadix (s : List Char) : Nat × List Char :=
  match s with
  | '0' :: x :: d :: rest =>
    if x.toLower = 'x' ∧ (digitVal d).isSome then (16, d :: rest) else (8, s)
  | '0' :: _ => (8, s)
  | _ => (10, s)

/-- `simple_strtoul` with base 0: the value and where it ends. -/
def simpleStrtoul (s : List Char) : Nat × List Char :=
  parseInteger (parseIntegerFixupRadix s).1 0 (parseIntegerFixupRadix s).2

/-- `simple_strtol` with base 0. -/
def simpleStrtol (s : List Char) : Int × List Char :=
  match s with
  | '-' :: s => (Int.bmod (-(simpleStrtoul s).1) (2 ^ 64), (simpleStrtoul s).2)
  | s => (Int.bmod (simpleStrtoul s).1 (2 ^ 64), (simpleStrtoul s).2)

/-- `match_int`: an `int`, unless there is none or it is out of range. -/
def matchInt (arg : List Char) : Option Int :=
  let (val, endp) := simpleStrtol arg
  if endp = arg ∨ val < -2 ^ 31 ∨ 2 ^ 31 - 1 < val then none else some val

/-- `match_one`: the substrings that the conversions of the pattern match. -/
def matchOne : List Char → List Char → Option (List (List Char))
  | '%' :: 'u' :: p, s =>
    let endp := (simpleStrtoul s).2
    if endp = s then none
    else (matchOne p endp).map fun args => s.take (s.length - endp.length) :: args
  | c :: p, d :: s => if c = d then matchOne p s else none
  | _ :: _, [] => none
  | [], s => if s = [] then some [] else none

/-- `match_token`: the first entry of the table that matches. -/
def matchToken {Opt : Type} (default : Opt) :
    List (Opt × List Char) → List Char → Opt × List (List Char)
  | [], _ => (default, [])
  | (opt, pattern) :: table, s =>
    match matchOne pattern s with
    | some args => (opt, args)
    | none => matchToken default table s

/-! ## Printed numbers -/

/-- A text that does not go on with a digit or an `x`. -/
def Stops (rest : List Char) : Prop := ∀ c ∈ rest.head?, digitVal c = none ∧ c.toLower ≠ 'x'

theorem stops_nil : Stops [] := by simp [Stops]

theorem stops_comma (rest : List Char) : Stops (',' :: rest) := by
  intro c hc
  rw [List.head?_cons, Option.mem_some_iff] at hc
  subst hc
  decide

theorem digitVal_of_isDigit {c : Char} (h : c.isDigit = true) :
    digitVal c = some (c.toNat - '0'.toNat) ∧ c.toNat - '0'.toNat < 10 := by
  refine ⟨by simp [digitVal, h], ?_⟩
  simp only [Char.isDigit, Bool.and_eq_true, decide_eq_true_eq] at h
  have hle : c.toNat ≤ '9'.toNat := h.2
  simp only [Char.reduceToNat] at hle ⊢
  omega

theorem parseInteger_stops {base acc : Nat} {rest : List Char} (h : Stops rest) :
    parseInteger base acc rest = (acc, rest) := by
  cases rest with
  | nil => rfl
  | cons c rest =>
    simp [parseInteger, (h c (by simp)).1]

theorem le_ofDigitChars (l : List Char) : ∀ acc, acc ≤ Nat.ofDigitChars 10 l acc := by
  induction l with
  | nil => simp
  | cons c l ih =>
    intro acc
    rw [Nat.ofDigitChars_cons]
    exact le_trans (by omega) (ih _)

/-- Decimal digits, with a value that fits into the word. -/
theorem parseInteger_digits {rest : List Char} (hrest : Stops rest) (l : List Char) :
    ∀ {acc : Nat}, (∀ c ∈ l, c.isDigit = true) → Nat.ofDigitChars 10 l acc < 2 ^ 64 →
    parseInteger 10 acc (l ++ rest) = (Nat.ofDigitChars 10 l acc, rest) := by
  induction l with
  | nil =>
    intro acc _ _
    rw [List.nil_append, parseInteger_stops hrest, Nat.ofDigitChars_nil]
  | cons c l ih =>
    intro acc hl hfit
    obtain ⟨hval, hlt⟩ := digitVal_of_isDigit (hl c (by simp))
    rw [Nat.ofDigitChars_cons] at hfit ⊢
    have hstep := le_ofDigitChars l (10 * acc + (c.toNat - '0'.toNat))
    simp only [List.cons_append, parseInteger, hval, hlt, if_true]
    rw [Nat.mul_comm acc, Nat.mod_eq_of_lt (by omega)]
    exact ih (fun d hd => hl d (by simp [hd])) hfit

/-- A number other than 0 is printed without a leading zero. -/
theorem toDigits_head {n : Nat} (hn : 0 < n) : ∃ c l, Nat.toDigits 10 n = c :: l ∧ c ≠ '0' := by
  induction n using Nat.strongRecOn with
  | ind n ih =>
    by_cases hlt : n < 10
    · refine ⟨_, _, Nat.toDigits_of_lt_base hlt, ?_⟩
      rw [Ne, Nat.digitChar_eq_zero]
      omega
    · obtain ⟨c, l, hc, hne⟩ := ih (n / 10) (by omega) (by omega)
      refine ⟨c, l ++ [(n % 10).digitChar], ?_, hne⟩
      rw [Nat.toDigits_of_base_le (by omega) (by omega), hc]
      rfl

/-- What `%lu` prints, `simple_strtoul` reads. -/
theorem simpleStrtoul_toDigits {n : Nat} (hn : n < 2 ^ 64) {rest : List Char} (hrest : Stops rest) :
    simpleStrtoul (Nat.toDigits 10 n ++ rest) = (n, rest) := by
  by_cases hzero : n = 0
  · subst hzero
    have hradix : parseIntegerFixupRadix ('0' :: rest) = (8, '0' :: rest) := by
      cases rest with
      | nil => rfl
      | cons x rest =>
        cases rest with
        | nil => rfl
        | cons d rest =>
          simp [parseIntegerFixupRadix, (hrest x (by simp)).2]
    have hdigit : digitVal '0' = some 0 := by decide
    rw [Nat.toDigits_zero, List.singleton_append, simpleStrtoul, hradix]
    simp only [parseInteger, hdigit]
    exact parseInteger_stops hrest
  · obtain ⟨c, l, hc, hne⟩ := toDigits_head (Nat.pos_of_ne_zero hzero)
    have hdigits : ∀ d ∈ Nat.toDigits 10 n, d.isDigit = true := fun d hd =>
      Nat.isDigit_of_mem_toDigits (by omega) (by omega) hd
    have hradix : parseIntegerFixupRadix (Nat.toDigits 10 n ++ rest) =
        (10, Nat.toDigits 10 n ++ rest) := by
      rw [hc, List.cons_append]
      unfold parseIntegerFixupRadix
      split
      · rename_i heq
        rw [List.cons.injEq] at heq
        exact absurd heq.1 hne
      · rename_i heq
        rw [List.cons.injEq] at heq
        exact absurd heq.1 hne
      · rfl
    rw [simpleStrtoul, hradix]
    have hparse := parseInteger_digits hrest (Nat.toDigits 10 n) hdigits
      (by rwa [Nat.ofDigitChars_ten_toDigits])
    rwa [Nat.ofDigitChars_ten_toDigits] at hparse

/-- What `%u` prints for a number below `INT_MAX + 1`, `match_int` reads. -/
theorem matchInt_toDigits {n : Nat} (hn : n < 2 ^ 31) : matchInt (Nat.toDigits 10 n) = some (n : Int) := by
  have hread := simpleStrtoul_toDigits (n := n) (by omega) stops_nil
  rw [List.append_nil] at hread
  have hlong : simpleStrtol (Nat.toDigits 10 n) = ((n : Int), []) := by
    unfold simpleStrtol
    split
    · rename_i heq
      have hdigit := Nat.isDigit_of_mem_toDigits (b := 10) (n := n) (c := '-') (by omega) (by omega)
        (by rw [heq]; simp)
      exact absurd hdigit (by decide)
    · rw [hread, Int.bmod_eq_of_le (by omega) (by omega)]
  have hne : [] ≠ Nat.toDigits 10 n := Nat.toDigits_ne_nil.symm
  simp only [matchInt, hlong, hne, false_or]
  rw [if_neg (by omega)]

/-- A pattern that ends in `%u`, and a text printed with it. -/
theorem matchOne_number (pattern : List Char) (hplain : '%' ∉ pattern) {n : Nat}
    (hn : n < 2 ^ 64) :
    matchOne (pattern ++ ['%', 'u']) (pattern ++ Nat.toDigits 10 n) =
      some [Nat.toDigits 10 n] := by
  induction pattern with
  | nil =>
    have hread := simpleStrtoul_toDigits hn stops_nil
    rw [List.append_nil] at hread
    have hne : [] ≠ Nat.toDigits 10 n := Nat.toDigits_ne_nil.symm
    simp [matchOne, hread, hne]
  | cons c pattern ih =>
    rw [List.mem_cons, not_or] at hplain
    rw [List.cons_append, List.cons_append, matchOne, if_pos rfl]
    · exact ih hplain.2
    · rintro p rfl _
      exact absurd rfl hplain.1

/-- The entries before the one that matches do not count. -/
theorem matchToken_append {Opt : Type} {default opt : Opt} {front back : List (Opt × List Char)}
    {pattern s : List Char} {args : List (List Char)}
    (hfront : ∀ e ∈ front, matchOne e.2 s = none) (hmatch : matchOne pattern s = some args) :
    matchToken default (front ++ (opt, pattern) :: back) s = (opt, args) := by
  induction front with
  | nil => simp [matchToken, hmatch]
  | cons e front ih =>
    rw [List.forall_mem_cons] at hfront
    rw [List.cons_append, matchToken, hfront.1]
    exact ih hfront.2

end KrFs
