import KrFs.Dir

/-!
# Walking directories

`kr_check_page` accepts a page just when its used part is tiled by records that
stay inside their chunks. Every loop of `dir.c` over a page that it accepts visits
starts of such records only, goes forward by at least the shortest record, and reads
nothing outside the used part; this holds for pages of any content, since a page
that is not accepted is not walked.
-/

namespace KrFs

open Bytes Tiling

/-! ## Geometry -/

section Geometry

variable {g : DirGeom} {d : Dir} {n : Nat}

theorem DirGeom.chunkSize_pos (g : DirGeom) : 0 < g.chunkSize := Nat.two_pow_pos _

theorem DirGeom.pageSize_pos (g : DirGeom) : 0 < g.pageSize := Nat.two_pow_pos _

theorem DirGeom.chunkSize_min (g : DirGeom) : 1024 ≤ g.chunkSize := by
  have hpow : 2 ^ 10 ≤ g.chunkSize := Nat.pow_le_pow_right (Nat.succ_pos 1) g.chunk_min
  omega

theorem DirGeom.chunkSize_dvd (g : DirGeom) : g.chunkSize ∣ g.pageSize :=
  Nat.pow_dvd_pow 2 g.chunk_page

theorem DirGeom.chunkSize_le (g : DirGeom) : g.chunkSize ≤ g.pageSize :=
  Nat.le_of_dvd g.pageSize_pos g.chunkSize_dvd

theorem DirGeom.pageSize_lt (g : DirGeom) : g.pageSize < 2 ^ 31 :=
  Nat.pow_lt_pow_right (by decide) g.page_max

theorem krDirRecLen_one : krDirRecLen 1 = 12 := by decide

theorem krDirRecLen_max {nameLen : Nat} (h : nameLen ≤ 255) : krDirRecLen nameLen ≤ 264 := by
  unfold krDirRecLen KR_DIR_ROUND KR_DIR_PAD
  omega

theorem krDirRecLen_dvd (nameLen : Nat) : 4 ∣ krDirRecLen nameLen := Nat.dvd_mul_left 4 _

/-- The bytes of page `n` that belong to the directory. -/
def Dir.used (g : DirGeom) (d : Dir) (n : Nat) : Nat := min g.pageSize (d.iSize - n * g.pageSize)

theorem krLastByte_eq (hsize : d.iSize < 2 ^ 32) (hn : n * g.pageSize ≤ d.iSize) :
    krLastByte g d n = d.used g n := by
  rw [krLastByte, Dir.used, Nat.mod_eq_of_lt hsize, sub32_of_le hn hsize]

theorem Dir.lt_pages : n < d.pages g ↔ n * g.pageSize < d.iSize := by
  have hpos := g.pageSize_pos
  rw [Dir.pages, Nat.lt_iff_add_one_le, Nat.le_div_iff_mul_le hpos, Nat.add_mul, Nat.one_mul]
  omega

theorem Dir.used_le (g : DirGeom) (d : Dir) (n : Nat) : d.used g n ≤ g.pageSize :=
  Nat.min_le_left _ _

theorem Dir.used_end (hn : n * g.pageSize ≤ d.iSize) :
    n * g.pageSize + d.used g n ≤ d.iSize := by
  have hmin : d.used g n ≤ d.iSize - n * g.pageSize := Nat.min_le_right _ _
  omega

end Geometry

/-! ## Accepted pages -/

section Check

variable {g : DirGeom} {d : Dir} {p : Nat → UInt8} {n a limit offs de : Nat}

/-- A record that `kr_check_page` has nothing against. -/
structure EntryOk (g : DirGeom) (p : Nat → UInt8) (de : Nat) : Prop where
  min : 12 ≤ deRecLen g p de
  align : 4 ∣ deRecLen g p de
  name : krDirRecLen (deNameLen p de) ≤ deRecLen g p de
  span : (de + deRecLen g p de - 1) / g.chunkSize = de / g.chunkSize
  inumber : deInode p de ≤ g.sInodesCount

/-- The used part of a page is cut into records. -/
def PageTiled (g : DirGeom) (p : Nat → UInt8) : Nat → Nat → List Nat → Prop :=
  Tiled (deRecLen g p) (EntryOk g p)

theorem EntryOk.pos (h : EntryOk g p de) : 0 < deRecLen g p de := by
  have := h.min
  omega

theorem span_iff (x y : Nat) : (x ^^^ y) >>> g.chunkBits = 0 ↔ x / g.chunkSize = y / g.chunkSize := by
  rw [Nat.shiftRight_xor_distrib, Nat.xor_eq_zero_iff, Nat.shiftRight_eq_div_pow,
    Nat.shiftRight_eq_div_pow, DirGeom.chunkSize]

theorem checkEntry_eq_none : checkEntry g p offs = none ↔ EntryOk g p offs := by
  unfold checkEntry
  dsimp only
  rw [krDirRecLen_one]
  constructor
  · intro h
    split at h
    · cases h
    · rename_i hmin
      split at h
      · cases h
      · rename_i halign
        split at h
        · cases h
        · rename_i hname
          split at h
          · cases h
          · rename_i hspan
            split at h
            · cases h
            · rename_i hinumber
              rw [ne_eq, not_not] at halign hspan
              exact ⟨by omega, Nat.dvd_of_mod_eq_zero halign, by omega, (span_iff _ _).mp hspan,
                by omega⟩
  · intro h
    have hmin := h.min
    have halign := Nat.mod_eq_zero_of_dvd h.align
    have hname := h.name
    have hspan := (span_iff _ _).mpr h.span
    have hinumber := h.inumber
    rw [if_neg (by omega), if_neg (by omega), if_neg (by omega), if_neg (by simp [hspan]),
      if_neg (by omega)]

theorem checkEntries_eq_none :
    checkEntries g p limit a = none ↔ ∃ offs, PageTiled g p a limit offs := by
  fun_induction checkEntries g p limit a with
  | case1 a hroom fault hfault =>
    constructor
    · intro h
      cases h
    · rintro ⟨offs, htiled⟩
      rw [krDirRecLen_one] at hroom
      cases htiled with
      | nil => omega
      | cons ok rest =>
        rw [checkEntry_eq_none.mpr ok] at hfault
        cases hfault
  | case2 a hroom hnone ih =>
    rw [ih]
    constructor
    · rintro ⟨offs, htiled⟩
      exact ⟨a :: offs, Tiled.cons (checkEntry_eq_none.mp hnone) htiled⟩
    · rintro ⟨offs, htiled⟩
      rw [krDirRecLen_one] at hroom
      cases htiled with
      | nil => omega
      | cons ok rest => exact ⟨_, rest⟩
  | case3 a hroom hne =>
    rw [krDirRecLen_one] at hroom
    constructor
    · intro h
      cases h
    · rintro ⟨offs, htiled⟩
      cases htiled with
      | nil => exact absurd rfl hne
      | cons ok rest =>
        have := ok.min
        have := rest.le
        omega
  | case4 a hroom heq =>
    rw [ne_eq, not_not] at heq
    subst heq
    exact ⟨fun _ => ⟨[], Tiled.nil _⟩, fun _ => rfl⟩

/-- What `kr_check_page` accepts, for the pages up to the end of the directory. -/
theorem krCheckPage_eq_none (hn : n * g.pageSize ≤ d.iSize) :
    krCheckPage g d n = none ↔
      g.chunkSize ∣ d.used g n ∧ ∃ offs, PageTiled g (d.page n) 0 (d.used g n) offs := by
  have hpos := g.pageSize_pos
  unfold krCheckPage
  split
  · rename_i hlast
    have hused : d.used g n = d.iSize % g.pageSize := by
      have hmod := Nat.mod_add_div d.iSize g.pageSize
      have hlt := Nat.mod_lt d.iSize hpos
      rw [hlast, Nat.mul_comm] at hmod
      unfold Dir.used
      omega
    rw [← hused]
    dsimp only
    split
    · rename_i hbad
      have hdvd : ¬ g.chunkSize ∣ d.used g n := fun h => hbad (Nat.mod_eq_zero_of_dvd h)
      simp [hdvd]
    · rename_i hgood
      rw [ne_eq, not_not] at hgood
      have hdvd := Nat.dvd_of_mod_eq_zero hgood
      split
      · rename_i hzero
        rw [hzero]
        exact ⟨fun _ => ⟨Nat.dvd_zero _, [], Tiled.nil 0⟩, fun _ => rfl⟩
      · rw [checkEntries_eq_none]
        exact ⟨fun h => ⟨hdvd, h⟩, fun h => h.2⟩
  · rename_i hlast
    have hle : n ≤ d.iSize / g.pageSize := (Nat.le_div_iff_mul_le hpos).mpr hn
    have hused : d.used g n = g.pageSize := by
      have hnext : (n + 1) * g.pageSize ≤ d.iSize :=
        (Nat.le_div_iff_mul_le hpos).mp (by omega)
      rw [Nat.add_mul, Nat.one_mul] at hnext
      unfold Dir.used
      omega
    rw [hused, checkEntries_eq_none]
    exact ⟨fun h => ⟨g.chunkSize_dvd, h⟩, fun h => h.2⟩

/-- A page that `kr_get_page` gives. -/
structure GoodPage (g : DirGeom) (d : Dir) (n : Nat) (offs : List Nat) : Prop where
  inside : n * g.pageSize ≤ d.iSize
  chunks : g.chunkSize ∣ d.used g n
  tiled : PageTiled g (d.page n) 0 (d.used g n) offs

theorem krGetPage_good (hn : n * g.pageSize ≤ d.iSize) (h : krGetPage g d n = some p) :
    p = d.page n ∧ ∃ offs, GoodPage g d n offs := by
  unfold krGetPage at h
  split at h
  · rename_i hgood
    cases h
    obtain ⟨hdvd, offs, htiled⟩ := (krCheckPage_eq_none hn).mp hgood.2
    exact ⟨rfl, offs, hn, hdvd, htiled⟩
  · cases h

/-- Every chunk begins with a record, when no record leaves its chunk. -/
theorem tiled_cut_chunk {Ok : Nat → Prop}
    (hok : ∀ x, Ok x → 0 < deRecLen g p x ∧ (x + deRecLen g p x - 1) / g.chunkSize = x / g.chunkSize)
    {b c : Nat} {offs : List Nat} (h : Tiled (deRecLen g p) Ok a b offs) (ha : a ≤ c)
    (hb : c ≤ b) (hc : g.chunkSize ∣ c) :
    ∃ xs ys, offs = xs ++ ys ∧ Tiled (deRecLen g p) Ok a c xs ∧ Tiled (deRecLen g p) Ok c b ys := by
  induction h with
  | nil a =>
    have heq : a = c := by omega
    subst heq
    exact ⟨[], [], rfl, Tiled.nil _, Tiled.nil _⟩
  | @cons a b offs ok rest ih =>
    by_cases heq : a = c
    · subst heq
      exact ⟨[], a :: offs, rfl, Tiled.nil _, Tiled.cons ok rest⟩
    · -- the record does not reach over the start of the chunk
      have hnext : a + deRecLen g p a ≤ c := by
        obtain ⟨k, rfl⟩ := hc
        obtain ⟨hlen, hspan⟩ := hok a ok
        have hbefore : a / g.chunkSize < k := Nat.div_lt_of_lt_mul (by omega)
        rw [← hspan] at hbefore
        have hlt := (Nat.div_lt_iff_lt_mul g.chunkSize_pos).mp hbefore
        rw [Nat.mul_comm] at hlt
        omega
      obtain ⟨xs, ys, rfl, hxs, hys⟩ := ih hnext hb
      exact ⟨a :: xs, ys, rfl, Tiled.cons ok hxs, hys⟩

theorem PageTiled.cut_chunk {b c : Nat} {offs : List Nat} (h : PageTiled g p a b offs) (ha : a ≤ c)
    (hb : c ≤ b) (hc : g.chunkSize ∣ c) :
    ∃ xs ys, offs = xs ++ ys ∧ PageTiled g p a c xs ∧ PageTiled g p c b ys :=
  tiled_cut_chunk (fun _ ok => ⟨ok.pos, ok.span⟩) h ha hb hc

end Check

/-! ## Scans -/

section Scan

variable {g : DirGeom} {d : Dir} {n de : Nat} {offs : List Nat} {σ β : Type}

/-- A record of an accepted page begins at `de`. -/
def Dir.Boundary (g : DirGeom) (d : Dir) (n de : Nat) : Prop :=
  ∃ offs, GoodPage g d n offs ∧ de ∈ offs

/-- A loop that visits records only, goes forward, reads what is inside the page and
before the end of the directory, and finds no record of length zero. -/
structure Scan.Safe (g : DirGeom) (d : Dir) (s : Scan) : Prop where
  visited : ∀ de ∈ s.visited, d.Boundary g s.page de
  forward : s.visited.Pairwise fun x y => x + krDirRecLen 1 ≤ y
  reads : ∀ r ∈ s.reads, r.1 + r.2 ≤ g.pageSize ∧ s.page * g.pageSize + r.1 + r.2 ≤ d.iSize
  zeroLength : s.zeroLength = false

/-- A page of whole chunks has one at least. -/
theorem Dir.used_min (hdvd : g.chunkSize ∣ d.used g n) (hn : n < d.pages g) :
    1024 ≤ d.used g n := by
  have hlt := Dir.lt_pages.mp hn
  have hpos : 0 < d.used g n := by
    have := g.pageSize_pos
    unfold Dir.used
    omega
  have hle := Nat.le_of_dvd hpos hdvd
  have := g.chunkSize_min
  omega

theorem GoodPage.used_min (h : GoodPage g d n offs) (hn : n < d.pages g) : 1024 ≤ d.used g n :=
  Dir.used_min h.chunks hn

/-- What lies inside a record lies inside the directory. -/
theorem GoodPage.inside_record (h : GoodPage g d n offs) (hde : de ∈ offs) {r : Nat × Nat}
    (hr : r.1 + r.2 ≤ de + deRecLen g (d.page n) de) :
    r.1 + r.2 ≤ g.pageSize ∧ n * g.pageSize + r.1 + r.2 ≤ d.iSize := by
  have hend := (h.tiled.bounds hde).2
  have hused := Dir.used_le g d n
  have hsize := Dir.used_end h.inside
  omega

/-- A loop that visits a run of the records and reads inside of them. -/
theorem scan_safe (h : GoodPage g d n offs) {visited : List Nat} (hsub : visited.Sublist offs)
    {reads : Nat → List (Nat × Nat)}
    (hreads : ∀ de ∈ visited, ∀ r ∈ reads de, r.1 + r.2 ≤ de + deRecLen g (d.page n) de)
    {zeroLength : Bool} (hzero : zeroLength = false) :
    Scan.Safe g d ⟨n, visited, visited.flatMap fun de => (de, 8) :: reads de, zeroLength⟩ where
  visited := fun de hde => ⟨offs, h, hsub.subset hde⟩
  forward := by
    refine List.Pairwise.sublist hsub (List.Pairwise.imp_of_mem ?_ h.tiled.sorted)
    intro x y hx _ hxy
    have hmin := (h.tiled.ok_of_mem hx).min
    rw [krDirRecLen_one]
    omega
  reads := by
    intro r hr
    obtain ⟨de, hde, hr⟩ := List.mem_flatMap.mp hr
    have hmem := hsub.subset hde
    have hmin := (h.tiled.ok_of_mem hmem).min
    rcases List.mem_cons.mp hr with rfl | hr
    · exact h.inside_record hmem (by dsimp only; omega)
    · exact h.inside_record hmem (hreads de hde r hr)
  zeroLength := hzero

theorem zeroLength_of_not_stuck (n : Nat) (reads : Nat → List (Nat × Nat))
    {w : List Nat × WalkEnd σ β} (h : ∀ s de, w.2 ≠ .stuck s de) :
    (scanOf n reads w).zeroLength = false := by
  obtain ⟨visited, e⟩ := w
  cases e with
  | past s de => rfl
  | left result => rfl
  | stuck s de => exact absurd rfl (h s de)

/-- A walk from one record on to a place in the used part is safe. -/
theorem walk_safe (h : GoodPage g d n offs) {xs ys : List Nat} (hoffs : offs = xs ++ ys) {a : Nat}
    (hys : PageTiled g (d.page n) a (d.used g n) ys) {body : σ → Nat → β ⊕ σ} {stop : Nat} {s : σ}
    (hstop : stop ≤ d.used g n) {reads : Nat → List (Nat × Nat)}
    (hreads : ∀ de ∈ ys, de < stop → ∀ r ∈ reads de,
      r.1 + r.2 ≤ de + deRecLen g (d.page n) de) :
    (scanOf n reads (walk (deRecLen g (d.page n)) body stop s a)).Safe g d := by
  have heq : walk (deRecLen g (d.page n)) body stop s a =
      walkList body stop (d.used g n) s ys := walk_tiled (fun _ ok => ok.pos) hys hstop
  obtain ⟨hfront, hbefore⟩ := walkList_visited body stop (d.used g n) s ys
  rw [heq]
  refine scan_safe h ?_ ?_ (zeroLength_of_not_stuck n reads (walkList_not_stuck body stop _ s ys))
  · rw [hoffs]
    exact hfront.sublist.trans (List.sublist_append_right xs ys)
  · intro de hde
    exact hreads de (hfront.subset hde) (hbefore de hde)

/-! ### The loops -/

variable {name : List UInt8}

theorem matchReads_inside {p : Nat → UInt8} (h : EntryOk g p de) {r : Nat × Nat}
    (hr : r ∈ matchReads name p de) : r.1 + r.2 ≤ de + deRecLen g p de := by
  unfold matchReads at hr
  split at hr
  · rename_i hmatch
    rw [List.mem_singleton] at hr
    have hname := h.name
    have hlen := krDirRecLen_le (deNameLen p de)
    rw [hr, hmatch.1]
    dsimp only
    omega
  · simp at hr

theorem emitReads_inside {p : Nat → UInt8} (h : EntryOk g p de) {r : Nat × Nat}
    (hr : r ∈ emitReads p de) : r.1 + r.2 ≤ de + deRecLen g p de := by
  unfold emitReads at hr
  split at hr
  · rw [List.mem_singleton] at hr
    have hname := h.name
    have hlen := krDirRecLen_le (deNameLen p de)
    rw [hr]
    dsimp only
    omega
  · simp at hr

theorem emptyReads_inside {p : Nat → UInt8} (h : EntryOk g p de) {r : Nat × Nat}
    (hr : r ∈ emptyReads p de) : r.1 + r.2 ≤ de + deRecLen g p de := by
  unfold emptyReads at hr
  split at hr
  · rw [List.mem_singleton] at hr
    have hmin := h.min
    rw [hr]
    dsimp only
    split <;> omega
  · simp at hr

/-- The last start at which a record of the given length may lie. -/
theorem Dir.stop_le (hdvd : g.chunkSize ∣ d.used g n) (hn : n < d.pages g) {reclen : Nat}
    (hlow : 1 ≤ reclen) (hhigh : reclen ≤ 264) :
    sub32 (d.used g n) reclen + 1 ≤ d.used g n := by
  have hmin := Dir.used_min hdvd hn
  have hused := Dir.used_le g d n
  have hpage := g.pageSize_lt
  rw [sub32_of_le (by omega) (by omega)]
  omega

theorem stop_le (h : GoodPage g d n offs) (hn : n < d.pages g) {reclen : Nat}
    (hlow : 1 ≤ reclen) (hhigh : reclen ≤ 264) :
    sub32 (d.used g n) reclen + 1 ≤ d.used g n :=
  Dir.stop_le h.chunks hn hlow hhigh

theorem findInPage_safe (hsize : d.iSize < 2 ^ 32) (hn : n < d.pages g) (h : GoodPage g d n offs)
    (hname : name.length ≤ 255) :
    (scanOf n (matchReads name (d.page n))
      (findInPage g name (d.page n) (krLastByte g d n))).Safe g d := by
  have hmin := krDirRecLen_le name.length
  rw [krLastByte_eq hsize h.inside, findInPage]
  exact walk_safe h (List.nil_append offs).symm h.tiled
    (stop_le h hn (by omega) (krDirRecLen_max hname))
    fun de hde _ r hr => matchReads_inside (h.tiled.ok_of_mem hde) hr

theorem emptyInPage_safe (hsize : d.iSize < 2 ^ 32) (hn : n < d.pages g)
    (h : GoodPage g d n offs) :
    (scanOf n (emptyReads (d.page n))
      (emptyInPage g d (d.page n) (krLastByte g d n))).Safe g d := by
  rw [krLastByte_eq hsize h.inside, emptyInPage]
  exact walk_safe h (List.nil_append offs).symm h.tiled (stop_le h hn (by decide) (by decide))
    fun de hde _ r hr => emptyReads_inside (h.tiled.ok_of_mem hde) hr

/-- The loop of `kr_validate_entry` goes to the first record at or after the offset. -/
theorem validateWalk_eq (h : GoodPage g d n offs) {offset : Nat} (hoffset : offset ≤ d.used g n) :
    ∃ xs ys zs, offs = xs ++ (ys ++ zs) ∧
      PageTiled g (d.page n) (offset / g.chunkSize * g.chunkSize) (d.used g n) (ys ++ zs) ∧
      (∀ x ∈ xs ++ ys, x < offset) ∧ offset ≤ zs.headD (d.used g n) ∧
      validateWalk g (d.page n) offset = (ys, .past () (zs.headD (d.used g n))) := by
  have hstart : offset / g.chunkSize * g.chunkSize ≤ offset := Nat.div_mul_le_self _ _
  obtain ⟨xs, rest, hoffs, hxs, hrest⟩ := h.tiled.cut_chunk (Nat.zero_le _)
    (hstart.trans hoffset) (Nat.dvd_mul_left g.chunkSize (offset / g.chunkSize))
  obtain ⟨ys, zs, rfl, hys, hzs, heq⟩ :=
    walkList_past Unit (fun (_ : Unit) _ => ()) offset (d.used g n) () rest hoffset
  refine ⟨xs, ys, zs, hoffs, hrest, ?_, hzs, ?_⟩
  · intro x hx
    rcases List.mem_append.mp hx with hx | hx
    · have hend := (hxs.bounds hx).2
      have hlen := (hxs.ok_of_mem hx).pos
      omega
    · exact hys x hx
  · rw [validateWalk, walk_tiled (fun _ ok => ok.pos) hrest hoffset, heq]

theorem validateWalk_safe (h : GoodPage g d n offs) {offset : Nat} (hoffset : offset ≤ d.used g n) :
    (scanOf n (fun _ => []) (validateWalk g (d.page n) offset)).Safe g d := by
  obtain ⟨xs, ys, zs, hoffs, hrest, -, -, -⟩ := validateWalk_eq h hoffset
  exact walk_safe h hoffs hrest hoffset (by simp)

/-- `kr_validate_entry` gives the first record at or after the offset, or the end of
the used part. -/
theorem krValidateEntry_eq (h : GoodPage g d n offs) {offset : Nat}
    (hoffset : offset ≤ d.used g n) :
    ∃ xs ys, offs = xs ++ ys ∧ (∀ x ∈ xs, x < offset) ∧
      offset ≤ krValidateEntry g (d.page n) offset ∧
      krValidateEntry g (d.page n) offset = ys.headD (d.used g n) := by
  obtain ⟨xs, ys, zs, hoffs, -, hbefore, hzs, heq⟩ := validateWalk_eq h hoffset
  have hresult : krValidateEntry g (d.page n) offset = zs.headD (d.used g n) := by
    rw [krValidateEntry, heq]
  refine ⟨xs ++ ys, zs, by rw [hoffs, List.append_assoc], hbefore, ?_, hresult⟩
  rw [hresult]
  exact hzs

theorem readdirWalk_safe (hsize : d.iSize < 2 ^ 32) (h : GoodPage g d n offs) {xs ys : List Nat}
    (hoffs : offs = xs ++ ys) (st : ReadState) :
    (scanOf n (emitReads (d.page n))
      (readdirWalk g (d.page n) (krLastByte g d n) (ys.headD (d.used g n)) st)).Safe g d := by
  have htiled := h.tiled
  rw [hoffs] at htiled
  rw [krLastByte_eq hsize h.inside, readdirWalk, krDirRecLen_one]
  exact walk_safe h hoffs htiled.cut.2 (by omega)
    fun de hde _ r hr => emitReads_inside (htiled.cut.2.ok_of_mem hde) hr

/-! ### The pages -/

/-- What the search in a good page ends with. -/
theorem findInPage_left (hsize : d.iSize < 2 ^ 32) (hn : n < d.pages g) (h : GoodPage g d n offs)
    (hname : name.length ≤ 255)
    (hleft : (findInPage g name (d.page n) (krLastByte g d n)).2 = .left de) :
    de ∈ offs ∧ krMatch name (d.page n) de = true := by
  have hmin := krDirRecLen_le name.length
  rw [krLastByte_eq hsize h.inside, findInPage, walk_tiled (fun _ ok => ok.pos) h.tiled
    (stop_le h hn (by omega) (krDirRecLen_max hname))] at hleft
  obtain ⟨x, hmem, -, hmatch, rfl⟩ := walkList_search_left offs hleft
  exact ⟨hmem, hmatch⟩

theorem findPage_safe (hsize : d.iSize < 2 ^ 32) (hname : name.length ≤ 255) (hn : n < d.pages g) :
    ∀ s ∈ (findPage g d name n).2, s.Safe g d := by
  unfold findPage
  cases hget : krGetPage g d n with
  | none => simp
  | some p =>
    obtain ⟨rfl, offs, hgood⟩ := krGetPage_good (Dir.lt_pages.mp hn).le hget
    simpa using findInPage_safe hsize hn hgood hname

theorem findPage_found (hsize : d.iSize < 2 ^ 32) (hname : name.length ≤ 255) (hn : n < d.pages g)
    {m : Nat} (h : (findPage g d name n).1 = some (some (m, de))) :
    m = n ∧ krMatch name (d.page n) de = true ∧ ∃ offs, GoodPage g d n offs ∧ de ∈ offs := by
  unfold findPage at h
  cases hget : krGetPage g d n with
  | none => simp [hget] at h
  | some p =>
    obtain ⟨rfl, offs, hgood⟩ := krGetPage_good (Dir.lt_pages.mp hn).le hget
    rw [hget] at h
    dsimp only at h
    split at h
    · rename_i de' hleft
      cases h
      obtain ⟨hmem, hmatch⟩ := findInPage_left hsize hn hgood hname hleft
      exact ⟨rfl, hmatch, offs, hgood, hmem⟩
    · cases h
    · cases h

theorem findPages_safe (hsize : d.iSize < 2 ^ 32) (hname : name.length ≤ 255) {start : Nat}
    (hstart : start < d.pages g) (hn : n < d.pages g) :
    ∀ s ∈ (findPages g d name (d.pages g) start n hstart hn).2, s.Safe g d := by
  fun_induction findPages g d name (d.pages g) start n hstart hn with
  | case1 n hn result scans heq =>
    have hsafe := findPage_safe (g := g) hsize hname hn
    rwa [heq] at hsafe
  | case2 n hn next scans heq hblocks =>
    have hsafe := findPage_safe (g := g) hsize hname hn
    rwa [heq] at hsafe
  | case3 n hn next scans heq hblocks hne rest ih =>
    have hsafe := findPage_safe (g := g) hsize hname hn
    rw [heq] at hsafe
    intro s hs
    rcases List.mem_append.mp hs with hs | hs
    · exact hsafe s hs
    · exact ih s hs
  | case4 n hn next scans heq hblocks hne =>
    have hsafe := findPage_safe (g := g) hsize hname hn
    rwa [heq] at hsafe

theorem findPages_found (hsize : d.iSize < 2 ^ 32) (hname : name.length ≤ 255) {start m : Nat}
    (hstart : start < d.pages g) (hn : n < d.pages g)
    (h : (findPages g d name (d.pages g) start n hstart hn).1 = some (m, de)) :
    m < d.pages g ∧ krMatch name (d.page m) de = true ∧ ∃ offs, GoodPage g d m offs ∧ de ∈ offs := by
  fun_induction findPages g d name (d.pages g) start n hstart hn with
  | case1 n hn result scans heq =>
    have hleft : (findPage g d name n).1 = some (some (m, de)) := by
      rw [heq]
      exact congrArg some h
    obtain ⟨rfl, hrest⟩ := findPage_found hsize hname hn hleft
    exact ⟨hn, hrest⟩
  | case2 n hn next scans heq hblocks => cases h
  | case3 n hn next scans heq hblocks hne rest ih => exact ih h
  | case4 n hn next scans heq hblocks hne => cases h

theorem krFindEntry_safe (hsize : d.iSize < 2 ^ 32) (hname : name.length ≤ 255) :
    ∀ s ∈ (krFindEntry g d name).2.2, s.Safe g d := by
  unfold krFindEntry
  dsimp only
  split
  · rename_i hpos
    split
    · exact findPages_safe hsize hname _ _
    · exact findPages_safe hsize hname _ _
  · simp

/-- The record that `kr_find_entry` returns. -/
theorem krFindEntry_found (hsize : d.iSize < 2 ^ 32) (hname : name.length ≤ 255)
    (h : (krFindEntry g d name).1 = some (n, de)) :
    n < d.pages g ∧ krMatch name (d.page n) de = true ∧ ∃ offs, GoodPage g d n offs ∧ de ∈ offs := by
  unfold krFindEntry at h
  dsimp only at h
  split at h
  · split at h
    · rename_i hfound
      cases h
      exact findPages_found hsize hname _ _ hfound
    · cases h
  · cases h

theorem emptyPage_safe (hsize : d.iSize < 2 ^ 32) (hn : n < d.pages g) :
    ∀ s ∈ (emptyPage g d n).2, s.Safe g d := by
  unfold emptyPage
  cases hget : krGetPage g d n with
  | none => simp
  | some p =>
    obtain ⟨rfl, offs, hgood⟩ := krGetPage_good (Dir.lt_pages.mp hn).le hget
    simpa using emptyInPage_safe hsize hn hgood

theorem emptyPages_safe (hsize : d.iSize < 2 ^ 32) (pages : List Nat)
    (hpages : ∀ i ∈ pages, i < d.pages g) : ∀ s ∈ (emptyPages g d pages).2, s.Safe g d := by
  induction pages with
  | nil => simp [emptyPages]
  | cons i pages ih =>
    rw [List.forall_mem_cons] at hpages
    have hsafe := emptyPage_safe (g := g) hsize hpages.1
    rw [emptyPages]
    split
    · rename_i scans heq
      rw [heq] at hsafe
      intro s hs
      rcases List.mem_append.mp hs with hs | hs
      · exact hsafe s hs
      · exact ih hpages.2 s hs
    · rename_i scans heq
      rwa [heq] at hsafe

theorem krEmptyDir_safe (hsize : d.iSize < 2 ^ 32) : ∀ s ∈ (krEmptyDir g d).2, s.Safe g d :=
  emptyPages_safe hsize _ fun _ hi => List.mem_range.mp hi

/-- Where `kr_readdir` starts in a page: at a record or at the end of the used part. -/
theorem readdir_start (h : GoodPage g d n offs) {offset : Nat} (hoffset : offset ≤ d.used g n)
    {needRevalidate : Bool} (hvalid : needRevalidate = false → offset = 0) :
    ∃ xs ys, offs = xs ++ ys ∧ (if (needRevalidate && offset != 0) = true then
      krValidateEntry g (d.page n) offset else offset) = ys.headD (d.used g n) := by
  split
  · obtain ⟨xs, ys, hoffs, -, -, heq⟩ := krValidateEntry_eq h hoffset
    exact ⟨xs, ys, hoffs, heq⟩
  · rename_i hagain
    have hzero : offset = 0 := by
      cases needRevalidate with
      | true => simpa using hagain
      | false => exact hvalid rfl
    exact ⟨[], offs, rfl, by rw [h.tiled.headD_eq, hzero]⟩

theorem readdirPages_safe (hsize : d.iSize < 2 ^ 32) (pages : List Nat)
    (hpages : ∀ i ∈ pages, i < d.pages g) {offset : Nat} {needRevalidate : Bool}
    (hfirst : ∀ i ∈ pages.head?, offset ≤ d.used g i) (hvalid : needRevalidate = false → offset = 0)
    {fVersion : Nat} {st : ReadState} :
    ∀ s ∈ (readdirPages g d pages offset needRevalidate fVersion st).scans, s.Safe g d := by
  induction pages generalizing offset needRevalidate fVersion st with
  | nil => simp [readdirPages]
  | cons i pages ih =>
    rw [List.forall_mem_cons] at hpages
    rw [readdirPages]
    cases hget : krGetPage g d i with
    | none => simp
    | some p =>
      obtain ⟨rfl, offs, hgood⟩ := krGetPage_good (Dir.lt_pages.mp hpages.1).le hget
      have hoffset : offset ≤ d.used g i := hfirst i (by simp)
      obtain ⟨xs, ys, hoffs, hstart⟩ := readdir_start hgood hoffset hvalid
      have hvalidated : ∀ s ∈ (if (needRevalidate && offset != 0) = true then
          [scanOf i (fun _ => []) (validateWalk g (d.page i) offset)] else []), s.Safe g d := by
        split
        · simpa using validateWalk_safe hgood hoffset
        · simp
      have hhere := fun st' => List.forall_mem_append.mpr
        ⟨hvalidated, List.forall_mem_singleton.mpr (readdirWalk_safe hsize hgood hoffs st')⟩
      dsimp only
      rw [hstart]
      split
      · exact hhere _
      · exact hhere _
      · intro s hs
        rcases List.mem_append.mp hs with hs | hs
        · exact hhere _ s hs
        · exact ih hpages.2 (fun _ _ => Nat.zero_le _) (fun _ => rfl) s hs

theorem krReaddir_safe (hsize : d.iSize < 2 ^ 32) {file : DirFile}
    (hversion : file.fVersion ≠ d.iVersion) (room : Nat) :
    ∀ s ∈ (krReaddir g d file room).scans, s.Safe g d := by
  unfold krReaddir
  split
  · simp
  · rename_i hpos
    rw [krDirRecLen_one] at hpos
    refine readdirPages_safe hsize _ ?_ ?_ ?_
    · intro i hi
      have := List.mem_range'_1.mp hi
      omega
    · intro i hi
      have hmod := Nat.mod_add_div file.pos g.pageSize
      have hlt := Nat.mod_lt file.pos g.pageSize_pos
      rw [List.head?_range'] at hi
      split at hi
      · simp at hi
      · rw [Option.mem_some] at hi
        subst hi
        rw [Nat.mul_comm] at hmod
        unfold Dir.used
        omega
    · intro h
      simp [hversion] at h

end Scan

end KrFs
