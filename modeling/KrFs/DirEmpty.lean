import KrFs.DirRecord

/-!
# Directories taken for empty

What `kr_empty_dir` lets through. It passes over a page that `kr_get_page` does not
give, and takes a record without a name for `.` when the byte after the header is a
dot; everything else in use stops it.
-/

namespace KrFs

open Bytes Tiling

/-- A record in use at `de` of page `n`, accepted or not: the lengths lead to it from
the start of the page, and its name ends before the end of the directory. -/
def Dir.Holds (g : DirGeom) (d : Dir) (n de : Nat) : Prop :=
  n < d.pages g ∧ Reached (deRecLen g (d.page n)) 0 de ∧
    de + 8 + deNameLen (d.page n) de ≤ d.used g n ∧ deInode (d.page n) de ≠ 0

/-- A record named `.` that points to the directory itself, or one named `..`. -/
def Dir.Own (d : Dir) (p : Nat → UInt8) (de : Nat) : Prop :=
  (deName p de = [46] ∧ deInode p de = d.iIno) ∨ deName p de = [46, 46]

/-- A record without a name that passes for `.`. -/
def Dir.Nameless (d : Dir) (p : Nat → UInt8) (de : Nat) : Prop :=
  deNameLen p de = 0 ∧ p (de + 8) = 46 ∧ deInode p de = d.iIno

/-- Where the scan of `kr_empty_dir` gives up: the page is read and accepted, the
lengths lead to `de`, and the record there has length zero or is in use and is
neither `.` nor `..` nor nameless. -/
structure Dir.Stops (g : DirGeom) (d : Dir) (n de : Nat) : Prop where
  page : n < d.pages g
  read : d.readable n = true ∧ krCheckPage g d n = none
  reached : Reached (deRecLen g (d.page n)) 0 de
  before : de ≤ sub32 (krLastByte g d n) (krDirRecLen 1)
  record : deRecLen g (d.page n) de = 0 ∨
    (deInode (d.page n) de ≠ 0 ∧ ¬ d.Own (d.page n) de ∧ ¬ d.Nameless (d.page n) de)

section Empty

variable {g : DirGeom} {d : Dir} {p : Nat → UInt8} {n de : Nat}

/-- The test of one record. -/
theorem notEmptyEntry_iff : notEmptyEntry d p de = true ↔
    deInode p de ≠ 0 ∧ ¬ d.Own p de ∧ ¬ d.Nameless p de := by
  unfold notEmptyEntry Dir.Own Dir.Nameless
  rw [deName_eq_one, deName_eq_two, Bool.and_eq_true, bne_iff_ne, Bool.or_eq_true, Bool.or_eq_true,
    bne_iff_ne, decide_eq_true_iff]
  refine and_congr_right fun hlive => ?_
  by_cases hshort : deNameLen p de < 2
  · rw [if_pos hshort, bne_iff_ne]
    constructor
    · rintro ((hdot | hlong) | hino)
      · exact ⟨by tauto, by tauto⟩
      · omega
      · exact ⟨by rintro (h | h) <;> [exact hino h.2; omega], by tauto⟩
    · rintro ⟨hown, hnameless⟩
      by_contra hno
      push Not at hno
      have hlen : deNameLen p de = 0 ∨ deNameLen p de = 1 := by omega
      tauto
  · rw [if_neg hshort, bne_iff_ne]
    constructor
    · rintro ((hdot | hlong) | hsecond)
      · exact ⟨by tauto, by tauto⟩
      · exact ⟨by rintro (h | h) <;> omega, by rintro ⟨h, -⟩; omega⟩
      · exact ⟨by rintro (h | h) <;> [omega; exact hsecond h.2.2], by rintro ⟨h, -⟩; omega⟩
    · rintro ⟨hown, -⟩
      by_contra hno
      push Not at hno
      have hlen : deNameLen p de = 2 := by omega
      tauto

theorem emptyPage_read (hread : d.readable n = true ∧ krCheckPage g d n = none) :
    (emptyPage g d n).1 = true ↔
      ∃ e, (emptyInPage g d (d.page n) (krLastByte g d n)).2 = .past () e := by
  have hget : krGetPage g d n = some (d.page n) := if_pos hread
  unfold emptyPage
  split
  · rename_i hnone
    rw [hget] at hnone
    cases hnone
  · rename_i p hsome
    rw [hget] at hsome
    cases hsome
    generalize emptyInPage g d (d.page n) (krLastByte g d n) = w
    obtain ⟨visited, result⟩ := w
    cases result with
    | past s e => simp
    | left result => simp
    | stuck s e => simp

/-- One page is passed when the scan does not give up in it. -/
theorem emptyPage_eq_true (hn : n < d.pages g) :
    (emptyPage g d n).1 = true ↔ ∀ de, ¬ d.Stops g n de := by
  by_cases hread : d.readable n = true ∧ krCheckPage g d n = none
  · rw [emptyPage_read hread, emptyInPage, walk_search_past_iff]
    constructor
    · intro h de hstop
      obtain ⟨hlen, hentry⟩ := h de hstop.reached (Nat.lt_add_one_of_le hstop.before)
      rcases hstop.record with hzero | hrecord
      · exact hlen hzero
      · rw [notEmptyEntry_iff.mpr hrecord] at hentry
        cases hentry
    · intro h de hreach hlt
      have hle := Nat.le_of_lt_add_one hlt
      refine ⟨fun hzero => h de ⟨hn, hread, hreach, hle, Or.inl hzero⟩, ?_⟩
      by_contra hentry
      rw [Bool.not_eq_false] at hentry
      exact h de ⟨hn, hread, hreach, hle, Or.inr (notEmptyEntry_iff.mp hentry)⟩
  · unfold emptyPage krGetPage
    rw [if_neg hread]
    exact ⟨fun _ de hstop => hread hstop.read, fun _ => rfl⟩

theorem emptyPages_eq_true (pages : List Nat) :
    (emptyPages g d pages).1 = true ↔ ∀ n ∈ pages, (emptyPage g d n).1 = true := by
  induction pages with
  | nil => simp [emptyPages]
  | cons n pages ih =>
    rw [emptyPages, List.forall_mem_cons, ← ih]
    split
    · rename_i scans heq
      simp [heq]
    · rename_i scans heq
      simp [heq]

/-- `kr_empty_dir` takes a directory for empty just when nothing stops its scan. -/
theorem krEmptyDir_eq_true : (krEmptyDir g d).1 = true ↔ ∀ n de, ¬ d.Stops g n de := by
  rw [krEmptyDir, emptyPages_eq_true]
  constructor
  · intro h n de hstop
    exact (emptyPage_eq_true hstop.page).mp (h n (List.mem_range.mpr hstop.page)) de hstop
  · intro h n hn
    exact (emptyPage_eq_true (List.mem_range.mp hn)).mpr (h n)

end Empty

/-- What `kr_empty_dir` takes for empty holds nothing but `.` and `..` just when a
directory that holds something else has a place where the scan gives up. -/
theorem krEmptyDir_empty_iff (g : DirGeom) (d : Dir) :
    ((krEmptyDir g d).1 = true → ∀ n de, d.Holds g n de → d.Own (d.page n) de) ↔
      ((∃ n de, d.Holds g n de ∧ ¬ d.Own (d.page n) de) → ∃ n de, d.Stops g n de) := by
  rw [krEmptyDir_eq_true]
  constructor
  · rintro h ⟨n, de, hholds, hown⟩
    by_contra hno
    push Not at hno
    exact hown (h hno n de hholds)
  · intro h hno n de hholds
    by_contra hown
    obtain ⟨m, e, hstop⟩ := h ⟨n, de, hholds, hown⟩
    exact hno m e hstop

/-- A directory of two pages; the second one, which cannot be read, holds a file. -/
def lostPageDir : Dir :=
  { smallDir with
    iSize := 5120
    page := Function.update smallDir.page 1
      (Bytes.apply (fun _ => 0) [⟨0, [12, 0, 0, 0, 0, 4, 1, 1, 97]⟩])
    readable := fun n => n == 0 }

/-- It is taken for empty. -/
theorem krEmptyDir_lost_page :
    ¬ ((krEmptyDir smallGeom lostPageDir).1 = true → ∀ n de, lostPageDir.Holds smallGeom n de →
      lostPageDir.Own (lostPageDir.page n) de) := by
  intro h
  have hempty : (krEmptyDir smallGeom lostPageDir).1 = true := by decide +kernel
  have hholds : lostPageDir.Holds smallGeom 1 0 :=
    ⟨by decide +kernel, .start 0, by decide +kernel, by decide +kernel⟩
  have hname : deName (lostPageDir.page 1) 0 = [97] := by decide +kernel
  rcases h hempty 1 0 hholds with ⟨hdot, -⟩ | hdot
  · rw [hname] at hdot
    cases hdot
  · rw [hname] at hdot
    cases hdot

end KrFs
