import KrFs.DirOps
import KrFs.Lib.Sweep

/-!
# Enumerating a directory

Calls of `kr_readdir` on one open directory, with changes of the directory between them.
Each call is a sweep over the records from the position of the file to the position that it
leaves; a position is a place where a record begins, or the version of the directory tells that
it may not be one any more, and then `kr_validate_entry` goes on to the next record.
-/

namespace KrFs

open Bytes Tiling

section Emits

variable {g : DirGeom} {d : Dir} {m n de a b stop : Nat} {xs ys zs offs : List Nat}

/-- What `dir_emit` gets for a record. -/
def Dir.emit (g : DirGeom) (d : Dir) (n de : Nat) : DirEmit :=
  ⟨deName (d.page n) de, n * g.pageSize + de, deInode (d.page n) de,
    dTypeOf g (deFileType (d.page n) de)⟩

/-- It is emitted for a record in use. -/
def Dir.Emits (g : DirGeom) (d : Dir) (e : DirEmit) : Prop :=
  ∃ n de, de ∈ pageRecords g (d.page n) (d.used g n) ∧ deInode (d.page n) de ≠ 0 ∧
    e = d.emit g n de

/-- What is emitted for some records of a page. -/
def pageEmits (g : DirGeom) (d : Dir) (n : Nat) (offs : List Nat) : List DirEmit :=
  (offs.filter fun de => deInode (d.page n) de != 0).map (d.emit g n)

/-- A record of the page begins at the offset, or its used part ends there. -/
def Dir.Cut (g : DirGeom) (d : Dir) (n offset : Nat) : Prop :=
  ∃ xs ys, pageRecords g (d.page n) (d.used g n) = xs ++ ys ∧ offset = ys.headD (d.used g n)

theorem pageEmits_cons : pageEmits g d n (de :: offs) =
    (if deInode (d.page n) de ≠ 0 then [d.emit g n de] else []) ++ pageEmits g d n offs := by
  unfold pageEmits
  by_cases hlive : deInode (d.page n) de = 0
  · simp [hlive]
  · simp [hlive]

theorem Dir.Ok.records_lt (h : d.Ok g) (hmem : de ∈ pageRecords g (d.page n) (d.used g n)) :
    de + 12 ≤ d.used g n := by
  have hend := ((h.laidOut.records n).bounds hmem).2
  have hmin := h.long n de hmem
  omega

theorem GoodPage.records (h : GoodPage g d n offs) :
    pageRecords g (d.page n) (d.used g n) = offs := h.tiled.fits.records

/-- A position is in one page. -/
theorem page_eq (hleft : n * g.pageSize ≤ m * g.pageSize + a)
    (hright : m * g.pageSize + a < n * g.pageSize + g.pageSize) (ha : a < g.pageSize) : m = n := by
  have hle : n < m + 1 := by
    refine Nat.lt_of_mul_lt_mul_right (a := g.pageSize) ?_
    rw [Nat.add_mul, Nat.one_mul]
    omega
  have hge : m < n + 1 := by
    refine Nat.lt_of_mul_lt_mul_right (a := g.pageSize) ?_
    rw [Nat.add_mul, Nat.one_mul]
    omega
  omega

theorem Dir.Ok.cut_zero (h : d.Ok g) (n : Nat) : d.Cut g n 0 :=
  ⟨[], _, rfl, (h.laidOut.records n).headD_eq.symm⟩

theorem Dir.Cut.le (h : d.Ok g) (hcut : d.Cut g n a) : a ≤ d.used g n := by
  obtain ⟨xs, ys, hrecords, rfl⟩ := hcut
  cases ys with
  | nil => exact Nat.le_refl _
  | cons y ys =>
    have hend := @Dir.Ok.records_lt _ _ n y h (by simp [hrecords])
    rw [List.headD_cons]
    omega

/-- The records of a page between two of its cuts. -/
theorem pageEmits_sweep (h : d.Ok g) (hgood : GoodPage g d n (xs ++ (ys ++ zs))) :
    Sweep DirEmit.pos (d.Emits g) (n * g.pageSize + (ys ++ zs).headD (d.used g n))
      (n * g.pageSize + zs.headD (d.used g n)) (pageEmits g d n ys) := by
  obtain ⟨hxs, hrest⟩ := hgood.tiled.cut
  obtain ⟨hys, hzs⟩ := hrest.cut
  have hrecords := hgood.records
  refine ⟨?_, ?_, ?_, ?_⟩
  · have := hys.le
    omega
  · refine List.Pairwise.map (d.emit g n) (R := fun x y => x < y) ?_ ?_
    · intro x y hlt
      exact Nat.add_lt_add_left hlt _
    · refine List.Pairwise.sublist List.filter_sublist (List.Pairwise.imp_of_mem ?_ hys.sorted)
      intro x y hx _ hle
      have hpos := (hys.ok_of_mem hx).pos
      omega
  · intro e he
    obtain ⟨de, hde, rfl⟩ := List.mem_map.mp he
    obtain ⟨hmem, hlive⟩ := List.mem_filter.mp hde
    have hin := hys.bounds hmem
    have hpos := (hys.ok_of_mem hmem).pos
    refine ⟨⟨n, de, ?_, by simpa using hlive, rfl⟩, Nat.add_le_add_left hin.1 _,
      Nat.add_lt_add_left (by omega) _⟩
    rw [hrecords]
    exact List.mem_append_right xs (List.mem_append_left zs hmem)
  · rintro e ⟨m, de, hmem, hlive, rfl⟩ hleft hright
    have hend := h.records_lt hmem
    have hused := Dir.used_le g d m
    have hused' := Dir.used_le g d n
    have hle := hzs.le
    change _ ≤ m * g.pageSize + de at hleft
    change m * g.pageSize + de < _ at hright
    obtain rfl : m = n := page_eq (g := g) (a := de) (by omega) (by omega) (by omega)
    rw [hrecords] at hmem
    refine List.mem_map.mpr ⟨de, List.mem_filter.mpr ⟨?_, by simpa using hlive⟩, rfl⟩
    rcases List.mem_append.mp hmem with hmem | hmem
    · have hbefore := (hxs.bounds hmem).2
      have hpos := (hxs.ok_of_mem hmem).pos
      omega
    · rcases List.mem_append.mp hmem with hmem | hmem
      · exact hmem
      · have hafter := (hzs.bounds hmem).1
        omega

/-! ### One call -/

/-- The loop over the records of a page stops at a record, or goes to the end. -/
theorem readdirList_ends {b : Nat} (htiled : PageTiled g (d.page n) a b offs)
    (hstop : b ≤ stop + 11) (st : ReadState) (hpos : st.pos = n * g.pageSize + a) :
    ∃ mid zs st', offs = mid ++ zs ∧ st'.pos = n * g.pageSize + zs.headD b ∧
      st'.emitted = st.emitted ++ pageEmits g d n mid ∧
      ((zs = [] ∧ ∃ de, (walkList (readdirEntry g (d.page n)) stop b st offs).2 = .past st' de) ∨
        (walkList (readdirEntry g (d.page n)) stop b st offs).2 = .left st') := by
  induction htiled generalizing st with
  | nil b => exact ⟨[], [], st, rfl, hpos, (List.append_nil _).symm, Or.inl ⟨rfl, b, rfl⟩⟩
  | @cons a b offs ok rest ih =>
    have hmin := ok.min
    have hle := rest.le
    have hlt : a < stop := by omega
    rw [walkList, if_pos hlt]
    by_cases hlive : deInode (d.page n) a = 0
    · obtain ⟨mid, zs, st', rfl, hend, hemitted, hres⟩ :=
        ih hstop { st with pos := st.pos + deRecLen g (d.page n) a } (by dsimp only; omega)
      refine ⟨a :: mid, zs, st', rfl, hend, ?_, ?_⟩
      · rw [pageEmits_cons, if_neg (by simp [hlive]), List.nil_append]
        exact hemitted
      · simpa [readdirEntry, hlive] using hres
    · by_cases hroom : st.room = 0
      · refine ⟨[], a :: offs, st, rfl, hpos, (List.append_nil _).symm, Or.inr ?_⟩
        simp [readdirEntry, hlive, hroom]
      · obtain ⟨mid, zs, st', rfl, hend, hemitted, hres⟩ :=
          ih hstop ⟨st.pos + deRecLen g (d.page n) a, st.emitted ++ [d.emit g n a], st.room - 1⟩
            (by dsimp only; omega)
        refine ⟨a :: mid, zs, st', rfl, hend, ?_, ?_⟩
        · rw [pageEmits_cons, if_pos hlive, hemitted, List.append_assoc]
        · have hemit : (⟨deName (d.page n) a, st.pos, deInode (d.page n) a,
              dTypeOf g (deFileType (d.page n) a)⟩ : DirEmit) = d.emit g n a := by
            rw [hpos]
            rfl
          simpa [readdirEntry, hlive, hroom, hemit] using hres

theorem readdirWalk_ends (hsize : d.iSize < 2 ^ 32) (h : GoodPage g d n (xs ++ ys)) (st : ReadState)
    (hpos : st.pos = n * g.pageSize + ys.headD (d.used g n)) :
    ∃ mid zs st', ys = mid ++ zs ∧ st'.pos = n * g.pageSize + zs.headD (d.used g n) ∧
      st'.emitted = st.emitted ++ pageEmits g d n mid ∧
      ((zs = [] ∧ ∃ de, (readdirWalk g (d.page n) (krLastByte g d n) (ys.headD (d.used g n)) st).2 =
          .past st' de) ∨
        (readdirWalk g (d.page n) (krLastByte g d n) (ys.headD (d.used g n)) st).2 = .left st') := by
  have htiled := h.tiled.cut.2
  rw [krLastByte_eq hsize h.inside, readdirWalk, krDirRecLen_one,
    walk_tiled (fun _ ok => ok.pos) htiled (by omega)]
  exact readdirList_ends htiled (by omega) st hpos

/-- Where `kr_readdir` starts in a page: at the first record from the offset on. -/
theorem readdir_begin (h : d.Ok g) (hgood : GoodPage g d n offs) (ha : a ≤ d.used g n)
    {needRevalidate : Bool} (hcut : needRevalidate = false → d.Cut g n a) :
    ∃ xs ys, offs = xs ++ ys ∧ (if (needRevalidate && a != 0) = true then
        krValidateEntry g (d.page n) a else a) = ys.headD (d.used g n) ∧
      Sweep DirEmit.pos (d.Emits g) (n * g.pageSize + a)
        (n * g.pageSize + ys.headD (d.used g n)) [] := by
  split
  · obtain ⟨xs, ys, hoffs, hbefore, hle, heq⟩ := krValidateEntry_eq hgood ha
    rw [heq] at hle
    refine ⟨xs, ys, hoffs, heq, .gap (Nat.add_le_add_left hle _) ?_⟩
    rintro e ⟨m, de, hmem, -, rfl⟩ hleft hright
    have hend := h.records_lt hmem
    have hused := Dir.used_le g d m
    have hused' := Dir.used_le g d n
    have htiled := hgood.tiled
    rw [hoffs] at htiled
    have hrest := htiled.cut.2.le
    change _ ≤ m * g.pageSize + de at hleft
    change m * g.pageSize + de < _ at hright
    obtain rfl : m = n := page_eq (g := g) (a := de) (by omega) (by omega) (by omega)
    rw [hgood.records, hoffs] at hmem
    rcases List.mem_append.mp hmem with hmem | hmem
    · have := hbefore de hmem
      omega
    · have := (htiled.cut.2.bounds hmem).1
      omega
  · rename_i hagain
    have hhere : d.Cut g n a := by
      cases needRevalidate with
      | false => exact hcut rfl
      | true =>
        obtain rfl : a = 0 := by simpa using hagain
        exact h.cut_zero n
    obtain ⟨xs, ys, hrecords, heq⟩ := hhere
    rw [hgood.records] at hrecords
    refine ⟨xs, ys, hrecords, heq, ?_⟩
    rw [← heq]
    exact .nil _

/-- One page: the loop goes on to the next page at its end, or leaves at a record. -/
theorem readdirPages_cons (h : d.Ok g) (hm : m < d.pages g) (pages : List Nat)
    {needRevalidate : Bool} {fVersion : Nat} (st : ReadState) (ha : a ≤ d.used g m)
    (hcut : needRevalidate = false → d.Cut g m a) (hpos : st.pos = m * g.pageSize + a) :
    let r := readdirPages g d (m :: pages) a needRevalidate fVersion st
    let version := if needRevalidate then d.iVersion else fVersion
    ∃ st' es b, st'.emitted = st.emitted ++ es ∧ st'.pos = m * g.pageSize + b ∧ d.Cut g m b ∧
      Sweep DirEmit.pos (d.Emits g) (m * g.pageSize + a) (m * g.pageSize + b) es ∧
      ((b = d.used g m ∧ r.file = (readdirPages g d pages 0 false version st').file ∧
          r.emitted = (readdirPages g d pages 0 false version st').emitted) ∨
        (r.file = ⟨version, st'.pos⟩ ∧ r.emitted = st'.emitted)) := by
  obtain ⟨offs, hgood⟩ := h.good hm
  obtain ⟨xs, ys, rfl, hstart, hgap⟩ := readdir_begin h hgood ha hcut
  rw [readdirPages, h.getPage hm]
  dsimp only
  rw [hstart]
  have hbegin : (if (needRevalidate && a != 0) = true then
      { st with pos := m * g.pageSize + ys.headD (d.used g m) } else st).pos =
        m * g.pageSize + ys.headD (d.used g m) ∧
      (if (needRevalidate && a != 0) = true then
        { st with pos := m * g.pageSize + ys.headD (d.used g m) } else st).emitted = st.emitted := by
    split
    · exact ⟨rfl, rfl⟩
    · rename_i hagain
      rw [if_neg hagain] at hstart
      rw [← hstart]
      exact ⟨hpos, rfl⟩
  generalize (if (needRevalidate && a != 0) = true then
    { st with pos := m * g.pageSize + ys.headD (d.used g m) } else st) = st₀ at hbegin ⊢
  obtain ⟨mid, zs, st', rfl, hend, hemitted, hres⟩ :=
    readdirWalk_ends h.size hgood st₀ hbegin.1
  rw [hbegin.2] at hemitted
  have hcut' : d.Cut g m (zs.headD (d.used g m)) :=
    ⟨xs ++ mid, zs, by rw [hgood.records, List.append_assoc], rfl⟩
  refine ⟨st', pageEmits g d m mid, zs.headD (d.used g m), hemitted, hend, hcut',
    hgap.append (pageEmits_sweep h hgood), ?_⟩
  rcases hres with ⟨rfl, de, hpast⟩ | hleft
  · refine Or.inl ⟨rfl, ?_, ?_⟩
    · simp only [hpast]
    · simp only [hpast]
  · refine Or.inr ⟨?_, ?_⟩
    · simp only [hleft]
    · simp only [hleft]

/-- The loop over the pages is a sweep that ends at a record or at the end of a page. -/
theorem readdirPages_sweep (h : d.Ok g) (count : Nat) {needRevalidate : Bool} {fVersion : Nat}
    (st : ReadState) (hpages : m + (count + 1) = d.pages g) (ha : a ≤ d.used g m)
    (hcut : needRevalidate = false → d.Cut g m a) (hpos : st.pos = m * g.pageSize + a) :
    let r := readdirPages g d (List.range' m (count + 1)) a needRevalidate fVersion st
    r.file.fVersion = (if needRevalidate then d.iVersion else fVersion) ∧
      ∃ es n b, r.emitted = st.emitted ++ es ∧ r.file.pos = n * g.pageSize + b ∧ n < d.pages g ∧
        d.Cut g n b ∧ Sweep DirEmit.pos (d.Emits g) (m * g.pageSize + a) r.file.pos es := by
  intro r
  induction count generalizing m a needRevalidate fVersion st with
  | zero =>
    obtain ⟨st', es, b, hemitted, hend, hcut', hsweep, hres⟩ :=
      @readdirPages_cons g d m a h (by omega) [] needRevalidate fVersion st ha hcut hpos
    have hfile : r.file = ⟨if needRevalidate then d.iVersion else fVersion, st'.pos⟩ ∧
        r.emitted = st'.emitted := by
      rcases hres with ⟨-, hres⟩ | hres
      · exact hres
      · exact hres
    refine ⟨by rw [hfile.1], es, m, b, hfile.2.trans hemitted, ?_, by omega, hcut', ?_⟩
    · rw [hfile.1]
      exact hend
    · rw [hfile.1, hend]
      exact hsweep
  | succ count ih =>
    obtain ⟨st', es, b, hemitted, hend, hcut', hsweep, hres⟩ :=
      @readdirPages_cons g d m a h (by omega) (List.range' (m + 1) (count + 1)) needRevalidate
        fVersion st ha hcut hpos
    rcases hres with ⟨hb, hfile, hemitted'⟩ | ⟨hfile, hemitted'⟩
    · -- the page is full, since there is another one
      have hnext : m + 1 < d.pages g := by omega
      have hfull : d.used g m = g.pageSize := by
        have hlt := Dir.lt_pages.mp hnext
        rw [Nat.add_mul, Nat.one_mul] at hlt
        unfold Dir.used
        omega
      have hpos' : st'.pos = (m + 1) * g.pageSize + 0 := by
        rw [Nat.add_mul, Nat.one_mul]
        omega
      obtain ⟨hversion, es', n, b', hmore, hend', hn, hcut'', hsweep'⟩ :=
        @ih (m + 1) 0 false (if needRevalidate then d.iVersion else fVersion) st' (by omega)
          (Nat.zero_le _) (fun _ => h.cut_zero _) hpos'
      have hr : r.file = _ := hfile
      have hr' : r.emitted = _ := hemitted'
      refine ⟨by rw [hr, hversion]; rfl, es ++ es', n, b', ?_, ?_, hn, hcut'', ?_⟩
      · rw [hr', hmore, hemitted, List.append_assoc]
      · rw [hr]
        exact hend'
      · rw [hr]
        rw [← hpos', hend] at hsweep'
        exact hsweep.append hsweep'
    · have hr : r.file = _ := hfile
      have hr' : r.emitted = _ := hemitted'
      refine ⟨by rw [hr], es, m, b, hr'.trans hemitted, ?_, by omega, hcut', ?_⟩
      · rw [hr]
        exact hend
      · rw [hr, hend]
        exact hsweep

/-- A position of an open file from which the directory can be read on: a record begins there,
if the version is the one that was read. -/
structure DirFile.Ready (g : DirGeom) (d : Dir) (file : DirFile) : Prop where
  le : file.pos ≤ d.iSize
  cut : file.pos % g.pageSize ≠ 0 → file.fVersion < d.iVersion ∨
    file.fVersion = d.iVersion ∧ d.Cut g (file.pos / g.pageSize) (file.pos % g.pageSize)

/-- A call emits what lies between the position before and the position after it. -/
theorem krReaddir_sweep (h : d.Ok g) {file : DirFile} (hready : file.Ready g d) (room : Nat) :
    (krReaddir g d file room).file.Ready g d ∧
      Sweep DirEmit.pos (d.Emits g) file.pos (krReaddir g d file room).file.pos
        (krReaddir g d file room).emitted := by
  unfold krReaddir
  split
  · exact ⟨hready, .nil _⟩
  · rename_i hroom
    rw [krDirRecLen_one] at hroom
    have hpos := g.pageSize_pos
    have hmod := Nat.mod_add_div file.pos g.pageSize
    rw [Nat.mul_comm] at hmod
    have hlt := Nat.mod_lt file.pos hpos
    have hpages : file.pos / g.pageSize < d.pages g := by
      rw [Dir.lt_pages]
      omega
    obtain ⟨count, hcount⟩ := Nat.exists_eq_add_of_lt hpages
    have hstart : file.pos % g.pageSize ≤ d.used g (file.pos / g.pageSize) := by
      unfold Dir.used
      omega
    have hcut : (file.fVersion != d.iVersion) = false →
        d.Cut g (file.pos / g.pageSize) (file.pos % g.pageSize) := by
      intro hsame
      by_cases hzero : file.pos % g.pageSize = 0
      · rw [hzero]
        exact h.cut_zero _
      · rcases hready.cut hzero with hold | ⟨-, hcut⟩
        · have := bne_eq_false_iff_eq.mp hsame
          omega
        · exact hcut
    obtain ⟨hversion, es, n, b, hemitted, hend, hn, hcut', hsweep⟩ :=
      @readdirPages_sweep g d (file.pos / g.pageSize) (file.pos % g.pageSize) h count
        (file.fVersion != d.iVersion) file.fVersion ⟨file.pos, [], room⟩ (by omega) hstart hcut
        (by dsimp only; omega)
    rw [show d.pages g - file.pos / g.pageSize = count + 1 by omega]
    rw [List.nil_append] at hemitted
    have hsame : file.pos / g.pageSize * g.pageSize + file.pos % g.pageSize = file.pos := by omega
    rw [hsame, ← hemitted] at hsweep
    refine ⟨⟨?_, fun hne => Or.inr ⟨?_, ?_⟩⟩, hsweep⟩
    · have hin := Dir.used_end (Dir.lt_pages.mp hn).le
      have hle := hcut'.le h
      rw [hend]
      omega
    · rw [hversion]
      by_cases hold : file.fVersion = d.iVersion
      · simp [hold]
      · simp [hold]
    · have hle := hcut'.le h
      have hused := Dir.used_le g d n
      rw [hend] at hne ⊢
      have hb : b < g.pageSize := by
        by_contra hge
        obtain rfl : b = g.pageSize := by omega
        rw [Nat.add_mod_right, Nat.mul_mod_left] at hne
        exact hne rfl
      have hdiv : (n * g.pageSize + b) / g.pageSize = n := by
        rw [Nat.mul_comm, Nat.mul_add_div hpos, Nat.div_eq_of_lt hb, Nat.add_zero]
      have hmod' : (n * g.pageSize + b) % g.pageSize = b := by
        rw [Nat.mul_comm, Nat.mul_add_mod, Nat.mod_eq_of_lt hb]
      rw [hdiv, hmod']
      exact hcut'

end Emits

/-! ### Calls in any order -/

/-- An open directory. -/
structure OpenDir where
  dir : Dir
  file : DirFile

/-- A call of `kr_readdir` for so many entries, or a change of the directory. -/
inductive ScanOp where
  | read (room : Nat)
  | add (name : List UInt8) (inode : LinkTarget) (env : ChunkEnv)
  | delete (n de : Nat) (env : ChunkEnv)
  | set (n de : Nat) (inode : LinkTarget) (env : ChunkEnv)

/-- The call, and what it emits. -/
def ScanOp.call (g : DirGeom) (s : OpenDir) : ScanOp → OpenDir × List DirEmit
  | read room =>
    let r := krReaddir g s.dir s.file room
    (⟨s.dir, r.file⟩, r.emitted)
  | add name inode env => (⟨(krAddLink g s.dir name inode env).dir, s.file⟩, [])
  | delete n de env => (⟨(krDeleteEntry g s.dir n de env).dir, s.file⟩, [])
  | set n de inode env => (⟨(krSetLink g s.dir n de inode env).dir, s.file⟩, [])

/-- Names have at most 255 bytes. -/
def ScanOp.Short : ScanOp → Prop
  | add name _ _ => name.length ≤ 255
  | _ => True

namespace OpenDir

/-- A run of calls, and what they emit. -/
def run (g : DirGeom) : OpenDir → List ScanOp → OpenDir × List DirEmit
  | s, [] => (s, [])
  | s, op :: ops =>
    let r := op.call g s
    let rest := run g r.1 ops
    (rest.1, r.2 ++ rest.2)

/-- What holds of the directory before each call and at the end. -/
def Always (g : DirGeom) (P : Dir → Prop) : OpenDir → List ScanOp → Prop
  | s, [] => P s.dir
  | s, op :: ops => P s.dir ∧ Always g P (op.call g s).1 ops

end OpenDir

section Changes

variable {g : DirGeom} {d d' : Dir} {file : DirFile}

/-- A directory after a change: it does not shrink, and its records are the same unless it
has a new version. -/
structure Dir.Newer (g : DirGeom) (d d' : Dir) : Prop where
  size : d.iSize ≤ d'.iSize
  version : d.iVersion < d'.iVersion ∨ d'.iVersion = d.iVersion ∧ ∀ n, d'.used g n = d.used g n ∧
    pageRecords g (d'.page n) (d'.used g n) = pageRecords g (d.page n) (d.used g n)

theorem Dir.Newer.refl : d.Newer g d := ⟨le_rfl, Or.inr ⟨rfl, fun _ => ⟨rfl, rfl⟩⟩⟩

theorem krCommitChunk_newer {pos len : Nat} (hsize : d'.iSize = d.iSize)
    (hversion : d'.iVersion = d.iVersion) : d.Newer g (krCommitChunk d' pos len) := by
  refine ⟨?_, Or.inl ?_⟩
  · unfold krCommitChunk
    dsimp only
    split
    · omega
    · omega
  · exact Nat.lt_succ_of_le hversion.ge

theorem krSetLink_newer (n de : Nat) (inode : LinkTarget) (env : ChunkEnv) :
    d.Newer g (krSetLink g d n de inode env).dir := by
  unfold krSetLink
  cases env.prepare with
  | some err => exact .refl
  | none => exact krCommitChunk_newer rfl rfl

theorem krDeleteEntry_newer (n de : Nat) (env : ChunkEnv) :
    d.Newer g (krDeleteEntry g d n de env).dir := by
  unfold krDeleteEntry
  dsimp only
  split
  · cases env.prepare with
    | some err => exact .refl
    | none => exact krCommitChunk_newer rfl rfl
  · exact .refl

theorem addLinkAt_newer {name : List UInt8} {inode : LinkTarget} {env : ChunkEnv} {n de : Nat}
    {recLen nameLen : Nat} {first : List Store} {scans : List Scan}
    (hkept : ∀ err, env.prepare = some err →
      d.Newer g (addLinkAt g d name inode env n de recLen nameLen first scans).dir) :
    d.Newer g (addLinkAt g d name inode env n de recLen nameLen first scans).dir := by
  cases hprepare : env.prepare with
  | some err => exact hkept err hprepare
  | none =>
    unfold addLinkAt
    rw [hprepare]
    exact krCommitChunk_newer rfl rfl

theorem krAddLink_newer (h : d.Ok g) {name : List UInt8} (hname : name.length ≤ 255)
    (inode : LinkTarget) (env : ChunkEnv) : d.Newer g (krAddLink g d name inode env).dir := by
  have houtcome : AddOutcome g d name inode env (krAddLink g d name inode env) :=
    krAddLink_outcome h hname
  cases houtcome with
  | fresh n scans hn hread hroom hfull heq =>
    rw [heq]
    refine addLinkAt_newer fun err hprepare => ?_
    obtain ⟨hsize, hversion, hbytes⟩ := addLinkAt_unprepared g d name inode hprepare n
      (g.chunkSize % 2 ^ 16) 0 (krRecLenToDisk g g.chunkSize) scans
    refine ⟨hsize.ge, Or.inr ⟨hversion, fun m => ?_⟩⟩
    obtain ⟨hused, hfits, -⟩ := h.laidOut.records_congr hsize hbytes m
    rw [hused]
    exact ⟨rfl, hfits.records⟩
  | room n de recLen nameLen scans hmem hroom hpassed heq =>
    rw [heq]
    refine addLinkAt_newer fun err hprepare => ?_
    unfold addLinkAt
    rw [hprepare]
    have hsame : d.setPage n (apply (d.page n) []) = d := by
      unfold Dir.setPage
      rw [apply_nil, Function.update_eq_self]
    dsimp only
    rw [hsame]
    exact .refl
  | found n de hmem hmatch hdir hret =>
    rw [hdir]
    exact .refl
  | unread hread hfull hdir hret =>
    rw [hdir]
    exact .refl
  | loops n de hmem hlen hpassed hdir hret =>
    rw [hdir]
    exact .refl

theorem DirFile.Ready.newer (h : file.Ready g d) (hnewer : d.Newer g d') : file.Ready g d' := by
  refine ⟨h.le.trans hnewer.size, fun hne => ?_⟩
  rcases h.cut hne with hold | ⟨heq, hcut⟩
  · rcases hnewer.version with hlt | ⟨hsame, -⟩
    · exact Or.inl (hold.trans hlt)
    · exact Or.inl (by omega)
  · rcases hnewer.version with hlt | ⟨hsame, hrecords⟩
    · exact Or.inl (by omega)
    · refine Or.inr ⟨by omega, ?_⟩
      obtain ⟨hused, hlist⟩ := hrecords (file.pos / g.pageSize)
      unfold Dir.Cut
      rw [hlist, hused]
      exact hcut

end Changes

section Runs

variable {g : DirGeom} {d : Dir} {s : OpenDir} {ops ops' : List ScanOp} {n de : Nat}
  {name : List UInt8}

/-- All pages are read and accepted, and no name is twice in the directory. -/
structure Dir.Valid (g : DirGeom) (d : Dir) : Prop where
  readable : ∀ n, d.readable n = true
  pages : ∀ n < d.pages g, krCheckPage g d n = none
  distinct : Slots.Distinct (d.slots g)

theorem Dir.Valid.ok (h : d.Valid g) (hsize : d.iSize < 2 ^ 32) : d.Ok g :=
  ⟨hsize, fun n hn => ⟨h.readable n, h.pages n hn⟩⟩

/-- An entry for `name` is at a place. -/
def Dir.Has (g : DirGeom) (n de : Nat) (name : List UInt8) (d : Dir) : Prop :=
  ∃ v, d.slots g (n, de) = some (name, v)

theorem OpenDir.Always.append {P : Dir → Prop} (h : s.Always g P (ops ++ ops')) :
    s.Always g P ops ∧ (s.run g ops).1.Always g P ops' := by
  induction ops generalizing s with
  | nil =>
    refine ⟨?_, h⟩
    cases ops' with
    | nil => exact h
    | cons op ops' => exact h.1
  | cons op ops ih =>
    obtain ⟨hhere, hrest⟩ := h
    obtain ⟨hops, hops'⟩ := ih hrest
    exact ⟨⟨hhere, hops⟩, hops'⟩

theorem OpenDir.Always.last {P : Dir → Prop} (h : s.Always g P ops) :
    P (s.run g ops).1.dir := by
  induction ops generalizing s with
  | nil => exact h
  | cons op ops ih => exact ih h.2

/-- How often a name is emitted. -/
def emissions (name : List UInt8) (es : List DirEmit) : Nat := es.countP fun e => e.name == name

/-- A call emits an entry just when it passes its place. -/
theorem sweep_emissions {a b : Nat} {es : List DirEmit}
    (hdistinct : Slots.Distinct (d.slots g)) (hhas : d.Has g n de name)
    (hsweep : Sweep DirEmit.pos (d.Emits g) a b es) :
    emissions name es = if a ≤ n * g.pageSize + de ∧ n * g.pageSize + de < b then 1 else 0 := by
  obtain ⟨v, hslot⟩ := hhas
  obtain ⟨hmem, hlive, hentry⟩ := Dir.slots_eq_some.mp hslot
  have hname : deName (d.page n) de = name := congrArg Prod.fst hentry
  refine hsweep.countP_eq (e := d.emit g n de) ⟨n, de, hmem, hlive, rfl⟩ ?_ ?_
  · exact beq_iff_eq.mpr hname
  · rintro e ⟨n', de', hmem', hlive', rfl⟩ hname'
    have hslot' : d.slots g (n', de') = some (name, (entryAt (d.page n') de').2) :=
      Dir.slots_eq_some.mpr ⟨hmem', hlive', Prod.ext (beq_iff_eq.mp hname') rfl⟩
    have hplace := hdistinct _ _ _ _ _ hslot hslot'
    cases hplace
    rfl

/-- A step moves the position on and emits what it passes. -/
theorem ScanOp.call_sweep (op : ScanOp) (h : s.dir.Ok g) (hshort : op.Short)
    (hready : s.file.Ready g s.dir) :
    (op.call g s).1.file.Ready g (op.call g s).1.dir ∧
      Sweep DirEmit.pos (s.dir.Emits g) s.file.pos (op.call g s).1.file.pos (op.call g s).2 := by
  cases op with
  | read room => exact krReaddir_sweep h hready room
  | add name inode env => exact ⟨hready.newer (krAddLink_newer h hshort inode env), .nil _⟩
  | delete n de env => exact ⟨hready.newer (krDeleteEntry_newer n de env), .nil _⟩
  | set n de inode env => exact ⟨hready.newer (krSetLink_newer n de inode env), .nil _⟩

theorem OpenDir.run_ready (ops : List ScanOp) (hready : s.file.Ready g s.dir)
    (hvalid : s.Always g (fun d => d.Valid g ∧ d.iSize < 2 ^ 32) ops)
    (hshort : ∀ op ∈ ops, op.Short) :
    (s.run g ops).1.file.Ready g (s.run g ops).1.dir := by
  induction ops generalizing s with
  | nil => exact hready
  | cons op ops ih =>
    rw [List.forall_mem_cons] at hshort
    obtain ⟨⟨hv, hsize⟩, hvalid⟩ := hvalid
    exact ih (op.call_sweep (hv.ok hsize) hshort.1 hready).1 hvalid hshort.2

/-- What a run emits of an entry that stays in its place. -/
theorem OpenDir.run_emissions (ops : List ScanOp) (hready : s.file.Ready g s.dir)
    (hvalid : s.Always g (fun d => d.Valid g ∧ d.iSize < 2 ^ 32) ops)
    (hshort : ∀ op ∈ ops, op.Short) (hhas : s.Always g (Dir.Has g n de name) ops) :
    s.file.pos ≤ (s.run g ops).1.file.pos ∧
      emissions name (s.run g ops).2 =
        if s.file.pos ≤ n * g.pageSize + de ∧
          n * g.pageSize + de < (s.run g ops).1.file.pos then 1 else 0 := by
  induction ops generalizing s with
  | nil =>
    refine ⟨le_rfl, ?_⟩
    rw [if_neg]
    · rfl
    · dsimp only [run]
      omega
  | cons op ops ih =>
    rw [List.forall_mem_cons] at hshort
    obtain ⟨⟨hv, hsize⟩, hvalid⟩ := hvalid
    obtain ⟨hhere, hhas⟩ := hhas
    obtain ⟨hready', hsweep⟩ := op.call_sweep (hv.ok hsize) hshort.1 hready
    obtain ⟨hle, hrest⟩ := ih hready' hvalid hshort.2 hhas
    have hfirst := sweep_emissions hv.distinct hhere hsweep
    have hle' := hsweep.le
    have happend : emissions name (s.run g (op :: ops)).2 = emissions name (op.call g s).2 +
        emissions name ((op.call g s).1.run g ops).2 := List.countP_append
    have hend : (s.run g (op :: ops)).1 = ((op.call g s).1.run g ops).1 := rfl
    rw [happend, hfirst, hrest, hend]
    refine ⟨hle'.trans hle, ?_⟩
    split_ifs <;> omega

/-- The end of an enumeration: the next call returns at once. -/
def OpenDir.AtEnd (s : OpenDir) : Prop := s.dir.iSize < s.file.pos + krDirRecLen 1

/-- While a directory stays below 4 GiB, calls of `kr_readdir` in any portions emit an entry that
stays where it is at most once, whatever happens to the other entries; and once, when the
directory is read from its start to its end. -/
theorem readdir_once {fVersion : Nat} (ops ops' : List ScanOp) (hstart : s.file = ⟨fVersion, 0⟩)
    (hvalid : s.Always g (fun d => d.Valid g ∧ d.iSize < 2 ^ 32) (ops ++ ops'))
    (hshort : ∀ op ∈ ops ++ ops', op.Short) :
    ∀ n de name, (s.run g ops).1.Always g (Dir.Has g n de name) ops' →
      emissions name ((s.run g ops).1.run g ops').2 ≤ 1 ∧
      (ops = [] → ((s.run g ops).1.run g ops').1.AtEnd →
        emissions name ((s.run g ops).1.run g ops').2 = 1) := by
  intro n de name hhas
  have hready : s.file.Ready g s.dir := by
    rw [hstart]
    refine ⟨Nat.zero_le _, fun hne => ?_⟩
    exact absurd (Nat.zero_mod _) hne
  obtain ⟨hbefore, hafter⟩ := hvalid.append
  rw [List.forall_mem_append] at hshort
  have hready' := s.run_ready ops hready hbefore hshort.1
  obtain ⟨hle, hcount⟩ := OpenDir.run_emissions ops' hready' hafter hshort.2 hhas
  rw [hcount]
  refine ⟨by split_ifs <;> omega, ?_⟩
  rintro rfl hend
  -- the entry lies before the end of the directory, and the position does not
  obtain ⟨hv, hsize⟩ := hafter.last
  obtain ⟨v, hslot⟩ := hhas.last
  obtain ⟨hmem, -, -⟩ := Dir.slots_eq_some.mp hslot
  have hin := (hv.ok hsize).laidOut.inside hmem
  have hmin := (hv.ok hsize).long n de hmem
  have hpos : s.file.pos = 0 := by rw [hstart]
  unfold OpenDir.AtEnd at hend
  rw [krDirRecLen_one] at hend
  refine if_pos ⟨?_, ?_⟩
  · unfold OpenDir.run
    dsimp only
    omega
  · omega

end Runs

/-- A new directory is read in two calls. -/
theorem readdir_once_small :
    let s : OpenDir := ⟨smallDir, ⟨0, 0⟩⟩
    let ops : List ScanOp := [.read 1, .read 5]
    (s.run smallGeom ops).2.map DirEmit.name = [[46], [46, 46]] ∧
      emissions [46] (s.run smallGeom ops).2 = 1 := by
  intro s ops
  obtain ⟨⟨hok, hread, hdistinct⟩, -⟩ := smallDir_good
  have hvalid : smallDir.Valid smallGeom ∧ smallDir.iSize < 2 ^ 32 :=
    ⟨⟨hread, fun n hn => (hok.pages n hn).2, hdistinct⟩, hok.size⟩
  have hhas : smallDir.Has smallGeom 0 0 [46] :=
    ⟨(11, 2), Dir.slots_eq_some.mpr ⟨by decide +kernel, by decide +kernel, by decide +kernel⟩⟩
  refine ⟨by decide +kernel, ?_⟩
  exact (readdir_once (s := s) [] ops rfl ⟨hvalid, hvalid, hvalid⟩ (by simp [ops, ScanOp.Short]) 0 0
    [46] ⟨hhas, hhas, hhas⟩).2 rfl (by unfold OpenDir.AtEnd; decide +kernel)

/-- Blocks of 4 KiB. -/
def pageGeom : DirGeom := ⟨12, 12, 100, true, smallGeom.chunk_page, le_rfl, smallGeom.page_max⟩

/-- A directory of 4 GiB with entries for `a` and `b` in its second and third page. -/
def wideDir : Dir where
  iIno := 11
  iSize := 2 ^ 32
  iBlocks := 2 ^ 23
  iVersion := 1
  iDirStartLookup := 0
  page := fun n => Bytes.apply (fun _ => 0)
    [⟨0, if n = 1 then [12, 0, 0, 0, 0, 16, 1, 1, 97] else
      if n = 2 then [13, 0, 0, 0, 0, 16, 1, 1, 98] else [0, 0, 0, 0, 0, 16, 0, 0]⟩]
  readable := fun _ => true

theorem wideDir_page (n : Nat) : checkEntries pageGeom (wideDir.page n) 4096 0 = none ∧
    pageRecords pageGeom (wideDir.page n) 4096 = [0] ∧
    (deInode (wideDir.page n) 0 ≠ 0 → n = 1 ∧ deName (wideDir.page n) 0 = [97] ∨
      n = 2 ∧ deName (wideDir.page n) 0 = [98]) := by
  by_cases hone : n = 1
  · subst hone
    exact ⟨by decide +kernel, by decide +kernel, by decide +kernel⟩
  · by_cases htwo : n = 2
    · subst htwo
      exact ⟨by decide +kernel, by decide +kernel, by decide +kernel⟩
    · have hpage : wideDir.page n = wideDir.page 0 := by
        unfold wideDir
        simp [hone, htwo]
      rw [hpage]
      refine ⟨by decide +kernel, by decide +kernel, fun hlive => ?_⟩
      exact absurd (show deInode (wideDir.page 0) 0 = 0 by decide +kernel) hlive

theorem wideDir_valid : wideDir.Valid pageGeom := by
  have hsize : pageGeom.pageSize = 4096 := by decide
  have hplace : ∀ n de e, wideDir.slots pageGeom (n, de) = some e →
      de = 0 ∧ (n = 1 ∧ e.1 = [97] ∨ n = 2 ∧ e.1 = [98]) := by
    intro n de e hslot
    obtain ⟨hmem, hlive, rfl⟩ := Dir.slots_eq_some.mp hslot
    obtain ⟨-, hrecords, hname⟩ := wideDir_page n
    have hused : wideDir.used pageGeom n = 0 ∨ wideDir.used pageGeom n = 4096 := by
      have hiSize : wideDir.iSize = 2 ^ 32 := rfl
      unfold Dir.used
      rw [hsize, hiSize]
      omega
    rcases hused with hused | hused
    · rw [hused, pageRecords, walk] at hmem
      cases hmem
    · rw [hused, hrecords] at hmem
      obtain rfl : de = 0 := by simpa using hmem
      exact ⟨rfl, hname hlive⟩
  refine ⟨fun _ => rfl, fun n hn => ?_, ?_⟩
  · have hpages : wideDir.pages pageGeom = 2 ^ 20 := by decide
    have hlast : wideDir.iSize / pageGeom.pageSize ≠ n := by
      have hdiv : wideDir.iSize / pageGeom.pageSize = 2 ^ 20 := by decide
      omega
    rw [krCheckPage, if_neg hlast, hsize]
    exact (wideDir_page n).1
  · rintro ⟨n, de⟩ ⟨n', de'⟩ k v w hslot hslot'
    obtain ⟨rfl, hname⟩ := hplace n de _ hslot
    obtain ⟨rfl, hname'⟩ := hplace n' de' _ hslot'
    rcases hname with ⟨rfl, rfl⟩ | ⟨rfl, rfl⟩
    · rcases hname' with ⟨rfl, hname'⟩ | ⟨rfl, hname'⟩
      · rfl
      · cases hname'
    · rcases hname' with ⟨rfl, hname'⟩ | ⟨rfl, hname'⟩
      · cases hname'
      · rfl

/-- `kr_last_byte` finds the first page of it empty and does not count it: with room for one entry
each call emits `a`. -/
theorem readdir_again :
    let s : OpenDir := ⟨wideDir, ⟨0, 0⟩⟩
    let ops : List ScanOp := [.read 1, .read 1]
    s.Always pageGeom (Dir.Valid pageGeom) ops ∧ s.Always pageGeom (Dir.Has pageGeom 1 0 [97]) ops ∧
      emissions [97] (s.run pageGeom ops).2 = 2 := by
  intro s ops
  have hhas : wideDir.Has pageGeom 1 0 [97] :=
    ⟨(12, 1), Dir.slots_eq_some.mpr ⟨by decide +kernel, by decide +kernel, by decide +kernel⟩⟩
  exact ⟨⟨wideDir_valid, wideDir_valid, wideDir_valid⟩, ⟨hhas, hhas, hhas⟩, by decide +kernel⟩

end KrFs
