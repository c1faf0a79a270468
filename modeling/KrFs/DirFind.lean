import KrFs.DirSafe

/-!
# Finding names

The records of a directory in which every page is in order, and the search of
`kr_find_entry` in it. The loop goes once around all pages from any hint, and
passes a page only when no record of the name is in it.
-/

namespace KrFs

open Bytes Tiling

/-- A directory of less than 4 GiB, all pages of which are read and accepted. -/
structure Dir.Ok (g : DirGeom) (d : Dir) : Prop where
  size : d.iSize < 2 ^ 32
  pages : ∀ n < d.pages g, d.readable n = true ∧ krCheckPage g d n = none

/-- A record in use at `de` of page `n`. -/
def Dir.Live (g : DirGeom) (d : Dir) (n de : Nat) : Prop :=
  n < d.pages g ∧ d.Boundary g n de ∧ deInode (d.page n) de ≠ 0

/-- No name has two records. -/
def Dir.Distinct (g : DirGeom) (d : Dir) : Prop :=
  ∀ n de n' de', d.Live g n de → d.Live g n' de' →
    deName (d.page n) de = deName (d.page n') de' → n = n' ∧ de = de'

section Find

variable {g : DirGeom} {d : Dir} {name : List UInt8} {p : Nat → UInt8} {n de : Nat}

/-- The hint is no part of the contents. -/
theorem live_hint (hint : Nat) :
    ({ d with iDirStartLookup := hint } : Dir).Live g n de ↔ d.Live g n de := by
  constructor
  · rintro ⟨hn, ⟨offs, h, hmem⟩, hlive⟩
    exact ⟨hn, ⟨offs, ⟨h.inside, h.chunks, h.tiled⟩, hmem⟩, hlive⟩
  · rintro ⟨hn, ⟨offs, h, hmem⟩, hlive⟩
    exact ⟨hn, ⟨offs, ⟨h.inside, h.chunks, h.tiled⟩, hmem⟩, hlive⟩

theorem length_deName (p : Nat → UInt8) (de : Nat) : (deName p de).length = deNameLen p de :=
  length_load

theorem krMatch_iff : krMatch name p de = true ↔ deInode p de ≠ 0 ∧ deName p de = name := by
  unfold krMatch
  rw [Bool.and_eq_true, Bool.and_eq_true, beq_iff_eq, bne_iff_ne, beq_iff_eq]
  constructor
  · rintro ⟨⟨hlen, hlive⟩, heq⟩
    rw [hlen] at heq
    exact ⟨hlive, heq⟩
  · rintro ⟨hlive, rfl⟩
    rw [length_deName]
    exact ⟨⟨rfl, hlive⟩, rfl⟩

/-- The tiling of a page in order. -/
theorem Dir.Ok.good (h : d.Ok g) (hn : n < d.pages g) : ∃ offs, GoodPage g d n offs := by
  have hin := (Dir.lt_pages.mp hn).le
  obtain ⟨hdvd, offs, htiled⟩ := (krCheckPage_eq_none hin).mp (h.pages n hn).2
  exact ⟨offs, hin, hdvd, htiled⟩

/-- The directory is a whole number of chunks, since its last page is. -/
theorem Dir.Ok.chunks (h : d.Ok g) : g.chunkSize ∣ d.iSize := by
  have hpos := g.pageSize_pos
  have hmod := Nat.mod_add_div d.iSize g.pageSize
  have hlt := Nat.mod_lt d.iSize hpos
  have hwhole : g.chunkSize ∣ g.pageSize * (d.iSize / g.pageSize) :=
    g.chunkSize_dvd.trans (Nat.dvd_mul_right _ _)
  have hlast : g.chunkSize ∣ d.iSize % g.pageSize := by
    by_cases hzero : d.iSize % g.pageSize = 0
    · rw [hzero]
      exact Nat.dvd_zero _
    · rw [Nat.mul_comm] at hmod
      obtain ⟨offs, hgood⟩ := h.good (Dir.lt_pages.mpr (by omega : d.iSize / g.pageSize * g.pageSize < d.iSize))
      have hused : d.used g (d.iSize / g.pageSize) = d.iSize % g.pageSize := by
        unfold Dir.used
        omega
      rw [← hused]
      exact hgood.chunks
  rw [← hmod]
  exact (Nat.dvd_add_right hlast).mpr hwhole

theorem Dir.Ok.getPage (h : d.Ok g) (hn : n < d.pages g) : krGetPage g d n = some (d.page n) :=
  if_pos (h.pages n hn)

/-! ### One page -/

/-- A page is passed when none of its records has the name. -/
theorem findPage_none (hok : d.Ok g) (hname : name.length ≤ 255) (hn : n < d.pages g)
    (h : (findPage g d name n).1 = none) :
    ∀ de, d.Live g n de → deName (d.page n) de ≠ name := by
  rintro de ⟨-, ⟨offs, hgood, hmem⟩, hlive⟩ heq
  have hmin := krDirRecLen_le name.length
  have hmax := krDirRecLen_max hname
  have hused := hgood.used_min hn
  have hle := Dir.used_le g d n
  have hlt := g.pageSize_lt
  have hmatch : krMatch name (d.page n) de = true := krMatch_iff.mpr ⟨hlive, heq⟩
  -- the record is long enough for the name, so the loop gets to it
  have hbefore : de < sub32 (d.used g n) (krDirRecLen name.length) + 1 := by
    have hend := (hgood.tiled.bounds hmem).2
    have hlen := (hgood.tiled.ok_of_mem hmem).name
    rw [← length_deName, heq] at hlen
    rw [sub32_of_le (by omega) (by omega)]
    omega
  have hsorted : offs.Pairwise fun x y => x ≤ y :=
    hgood.tiled.sorted.imp fun hxy => by omega
  unfold findPage at h
  rw [hok.getPage hn] at h
  dsimp only at h
  rw [krLastByte_eq hok.size hgood.inside, findInPage, walk_tiled (fun _ ok => ok.pos) hgood.tiled
    (stop_le hgood hn (by omega) hmax)] at h
  split at h
  · cases h
  · cases h
  · rename_i s e hpast
    have hno := walkList_search_past hsorted hpast de hmem hbefore
    rw [hno] at hmatch
    cases hmatch

theorem findPage_some (hok : d.Ok g) (hname : name.length ≤ 255) (hn : n < d.pages g)
    {result : Option (Nat × Nat)} (h : (findPage g d name n).1 = some result) :
    ∃ de, result = some (n, de) := by
  obtain ⟨offs, hgood⟩ := hok.good hn
  have hmin := krDirRecLen_le name.length
  unfold findPage at h
  rw [hok.getPage hn] at h
  dsimp only at h
  rw [krLastByte_eq hok.size hgood.inside, findInPage, walk_tiled (fun _ ok => ok.pos) hgood.tiled
    (stop_le hgood hn (by omega) (krDirRecLen_max hname))] at h
  split at h
  · rename_i x _
    cases h
    exact ⟨x, rfl⟩
  · rename_i s e hstuck
    exact absurd hstuck (walkList_not_stuck _ _ _ _ _ s e)
  · cases h

theorem findPage_scans (g : DirGeom) (d : Dir) (name : List UInt8) (n : Nat) :
    ((findPage g d name n).2.map Scan.page).Sublist [n] := by
  unfold findPage
  cases krGetPage g d n with
  | none => exact List.nil_sublist _
  | some p => exact List.Sublist.refl _

/-! ### All pages -/

/-- The pages from `n` on, around to the one before `start`. -/
def cycleFrom (npages start n : Nat) : List Nat :=
  if n < start then List.range' n (start - n)
  else List.range' n (npages - n) ++ List.range start

theorem cycleFrom_next {npages start : Nat} (hstart : start < npages) (hn : n < npages) :
    cycleFrom npages start n = n ::
      if nextPage npages n = start then [] else cycleFrom npages start (nextPage npages n) := by
  unfold cycleFrom
  by_cases hlt : n < start
  · have hnext : nextPage npages n = n + 1 := if_neg (by omega)
    obtain ⟨k, hk⟩ := Nat.exists_eq_add_of_lt hlt
    have hlen : start - n = (start - (n + 1)) + 1 := by omega
    rw [hnext, if_pos hlt, hlen, List.range'_succ]
    by_cases heq : n + 1 = start
    · simp [heq]
    · rw [if_neg heq, if_pos (by omega)]
  · have hlen : npages - n = (npages - (n + 1)) + 1 := by omega
    rw [if_neg hlt, hlen, List.range'_succ, List.cons_append]
    by_cases hlast : npages ≤ n + 1
    · have hnext : nextPage npages n = 0 := if_pos hlast
      have hzero : npages - (n + 1) = 0 := by omega
      rw [hnext, hzero, List.range'_zero, List.nil_append]
      by_cases heq : 0 = start
      · simp [← heq]
      · rw [if_neg heq, if_pos (by omega), List.range_eq_range']
        rfl
    · have hnext : nextPage npages n = n + 1 := if_neg hlast
      rw [hnext, if_neg (by omega), if_neg (by omega)]

theorem mem_cycleFrom {npages start m : Nat} (hstart : start < npages) :
    m ∈ cycleFrom npages start start ↔ m < npages := by
  unfold cycleFrom
  rw [if_neg (Nat.lt_irrefl _), List.mem_append, List.mem_range'_1, List.mem_range]
  omega

theorem cycleFrom_nodup (npages start : Nat) : (cycleFrom npages start start).Nodup := by
  unfold cycleFrom
  rw [if_neg (Nat.lt_irrefl _), List.nodup_append]
  refine ⟨List.nodup_range', List.nodup_range, ?_⟩
  intro x hx y hy heq
  rw [List.mem_range'_1] at hx
  rw [List.mem_range] at hy
  omega

/-- The loop scans the pages of the cycle in order, each at most once. -/
theorem findPages_cycle {npages start : Nat} (hstart : start < npages) (hn : n < npages) :
    ((findPages g d name npages start n hstart hn).2.map Scan.page).Sublist
      (cycleFrom npages start n) := by
  fun_induction findPages g d name npages start n hstart hn with
  | case1 n hn result scans heq =>
    have hscans := findPage_scans g d name n
    rw [heq] at hscans
    rw [cycleFrom_next hstart hn]
    exact hscans.trans (List.singleton_sublist.mpr List.mem_cons_self)
  | case2 n hn next scans heq hblocks =>
    have hscans := findPage_scans g d name n
    rw [heq] at hscans
    rw [cycleFrom_next hstart hn]
    exact hscans.trans (List.singleton_sublist.mpr List.mem_cons_self)
  | case3 n hn next scans heq hblocks hne rest ih =>
    have hscans := findPage_scans g d name n
    rw [heq] at hscans
    rw [cycleFrom_next hstart hn, if_neg hne, List.map_append]
    exact List.Sublist.append hscans ih
  | case4 n hn next scans heq hblocks hne =>
    have hscans := findPage_scans g d name n
    rw [heq] at hscans
    rw [cycleFrom_next hstart hn]
    exact hscans.trans (List.singleton_sublist.mpr List.mem_cons_self)

/-- The number of blocks of a directory reaches to its last page. -/
theorem blocks_cover (hblocks : d.iSize ≤ d.iBlocks * 512) (hn : n < d.pages g) :
    ¬ d.iBlocks >>> (g.pageShift - 9) < n := by
  have hlt := Dir.lt_pages.mp hn
  have hpow : 2 ^ (g.pageShift - 9) * 512 = g.pageSize := by
    have hmin := g.chunk_min
    have hpage := g.chunk_page
    have hnine : g.pageShift - 9 + 9 = g.pageShift := by omega
    rw [DirGeom.pageSize, ← hnine, Nat.pow_add, hnine]
  have hcover : n * 2 ^ (g.pageShift - 9) ≤ d.iBlocks := by
    have hmul : n * 2 ^ (g.pageShift - 9) * 512 < d.iBlocks * 512 := by
      rw [Nat.mul_assoc, hpow]
      omega
    omega
  rw [Nat.shiftRight_eq_div_pow, Nat.not_lt]
  exact (Nat.le_div_iff_mul_le (Nat.two_pow_pos _)).mpr hcover

/-- When the loop ends without a record, no page of the cycle has one. -/
theorem findPages_none (hok : d.Ok g) (hname : name.length ≤ 255)
    (hblocks : d.iSize ≤ d.iBlocks * 512) {start : Nat} (hstart : start < d.pages g)
    (hn : n < d.pages g) (h : (findPages g d name (d.pages g) start n hstart hn).1 = none) :
    ∀ m ∈ cycleFrom (d.pages g) start n, ∀ de, d.Live g m de → deName (d.page m) de ≠ name := by
  fun_induction findPages g d name (d.pages g) start n hstart hn with
  | case1 n hn result scans heq =>
    have hsome : (findPage g d name n).1 = some result := by rw [heq]
    obtain ⟨de, rfl⟩ := findPage_some hok hname hn hsome
    cases h
  | case2 n hn next scans heq hcount =>
    exact absurd hcount (blocks_cover hblocks (nextPage_lt hn))
  | case3 n hn next scans heq hcount hne rest ih =>
    have hnone : (findPage g d name n).1 = none := by rw [heq]
    rw [cycleFrom_next hstart hn, if_neg hne]
    exact List.forall_mem_cons.mpr ⟨findPage_none hok hname hn hnone, ih h⟩
  | case4 n hn next scans heq hcount hne =>
    rw [ne_eq, not_not] at hne
    have hnone : (findPage g d name n).1 = none := by rw [heq]
    rw [cycleFrom_next hstart hn, if_pos hne]
    exact List.forall_mem_singleton.mpr (findPage_none hok hname hn hnone)

/-! ### The whole search -/

theorem krFindEntry_none (hok : d.Ok g) (hname : name.length ≤ 255)
    (hblocks : d.iSize ≤ d.iBlocks * 512) (h : (krFindEntry g d name).1 = none) :
    ∀ n de, d.Live g n de → deName (d.page n) de ≠ name := by
  intro n de hlive
  have hn := hlive.1
  have hstart : (if d.pages g ≤ d.iDirStartLookup then 0 else d.iDirStartLookup) < d.pages g := by
    split <;> omega
  unfold krFindEntry at h
  dsimp only at h
  rw [dif_pos (by omega)] at h
  split at h
  · cases h
  · rename_i hnone
    exact findPages_none hok hname hblocks hstart hstart hnone n ((mem_cycleFrom hstart).mpr hn) de
      hlive

theorem krFindEntry_some (hok : d.Ok g) (hname : name.length ≤ 255)
    (h : (krFindEntry g d name).1 = some (n, de)) :
    d.Live g n de ∧ deName (d.page n) de = name := by
  obtain ⟨hn, hmatch, hboundary⟩ := krFindEntry_found hok.size hname h
  obtain ⟨hlive, hname⟩ := krMatch_iff.mp hmatch
  exact ⟨⟨hn, hboundary, hlive⟩, hname⟩

theorem krFindEntry_eq (hok : d.Ok g) (hdistinct : d.Distinct g)
    (hblocks : d.iSize ≤ d.iBlocks * 512) (hname : name.length ≤ 255) :
    (krFindEntry g d name).1 = some (n, de) ↔ d.Live g n de ∧ deName (d.page n) de = name := by
  constructor
  · exact krFindEntry_some hok hname
  · rintro ⟨hlive, heq⟩
    cases hresult : (krFindEntry g d name).1 with
    | none => exact absurd heq (krFindEntry_none hok hname hblocks hresult n de hlive)
    | some found =>
      obtain ⟨n', de'⟩ := found
      obtain ⟨hlive', heq'⟩ := krFindEntry_some hok hname hresult
      obtain ⟨rfl, rfl⟩ := hdistinct n de n' de' hlive hlive' (heq.trans heq'.symm)
      rfl

theorem krFindEntry_once (g : DirGeom) (d : Dir) (name : List UInt8) :
    ((krFindEntry g d name).2.2.map Scan.page).Nodup := by
  unfold krFindEntry
  dsimp only
  split
  · split
    · exact (findPages_cycle _ _).nodup (cycleFrom_nodup _ _)
    · exact (findPages_cycle _ _).nodup (cycleFrom_nodup _ _)
  · exact List.nodup_nil

end Find

/-- In a directory in order, with distinct names and blocks for its size,
`kr_find_entry` returns the record of a name if there is one and nothing otherwise,
from every hint; it scans no page twice, and the test of the block count never
stops it. -/
theorem krFindEntry_iff {g : DirGeom} {d : Dir} (hok : d.Ok g) (hdistinct : d.Distinct g)
    (hblocks : d.iSize ≤ d.iBlocks * 512) {name : List UInt8} (hname : name.length ≤ 255)
    (hint : Nat) :
    let r := krFindEntry g { d with iDirStartLookup := hint } name
    (∀ n de, r.1 = some (n, de) ↔ d.Live g n de ∧ deName (d.page n) de = name) ∧
      r.1 = (krFindEntry g d name).1 ∧ (r.2.2.map Scan.page).Nodup ∧
      ∀ n < d.pages g, ¬ d.iBlocks >>> (g.pageShift - 9) < n := by
  intro r
  have hok' : ({ d with iDirStartLookup := hint } : Dir).Ok g := ⟨hok.size, hok.pages⟩
  have hdistinct' : ({ d with iDirStartLookup := hint } : Dir).Distinct g := by
    intro n de n' de' hlive hlive'
    exact hdistinct n de n' de' ((live_hint hint).mp hlive)
      ((live_hint hint).mp hlive')
  have hiff : ∀ n de, r.1 = some (n, de) ↔ d.Live g n de ∧ deName (d.page n) de = name := by
    intro n de
    rw [← live_hint hint]
    exact krFindEntry_eq hok' hdistinct' hblocks hname
  refine ⟨hiff, ?_, krFindEntry_once g _ name, fun n hn => blocks_cover hblocks hn⟩
  apply Option.ext
  rintro ⟨n, de⟩
  exact (hiff n de).trans (krFindEntry_eq hok hdistinct hblocks hname).symm

theorem live_small {n de : Nat} (h : smallDir.Live smallGeom n de) : n = 0 ∧ (de = 0 ∨ de = 12) := by
  obtain ⟨hn, ⟨offs, hgood, hmem⟩, -⟩ := h
  have hpages : smallDir.pages smallGeom = 1 := by decide +kernel
  have hzero : n = 0 := by omega
  subst hzero
  have hfirst : checkEntry smallGeom (smallDir.page 0) 0 = none := by decide +kernel
  have hsecond : checkEntry smallGeom (smallDir.page 0) 12 = none := by decide +kernel
  have htiled : PageTiled smallGeom (smallDir.page 0) 0 1024 [0, 12] := by
    have hlen : deRecLen smallGeom (smallDir.page 0) 0 = 12 := by decide +kernel
    have hlen' : 12 + deRecLen smallGeom (smallDir.page 0) 12 = 1024 := by decide +kernel
    refine Tiled.cons (checkEntry_eq_none.mp hfirst) ?_
    rw [hlen]
    refine Tiled.cons (checkEntry_eq_none.mp hsecond) ?_
    rw [hlen']
    exact Tiled.nil _
  have hused : smallDir.used smallGeom 0 = 1024 := by decide +kernel
  have hoffs : offs = [0, 12] :=
    Tiled.unique (fun _ ok => ok.pos) hgood.tiled (hused ▸ htiled)
  subst hoffs
  simpa using hmem

/-- From a hint behind its last page, the search in a new directory finds the parent. -/
theorem krFindEntry_iff_small :
    (krFindEntry smallGeom { smallDir with iDirStartLookup := 7 } [46, 46]).1 = some (0, 12) ∧
      (krFindEntry smallGeom { smallDir with iDirStartLookup := 7 } [46, 46]).1 =
        (krFindEntry smallGeom smallDir [46, 46]).1 := by
  have hpages : smallDir.pages smallGeom = 1 := by decide +kernel
  have hok : smallDir.Ok smallGeom := by
    refine ⟨by decide +kernel, fun n hn => ?_⟩
    have hzero : n = 0 := by omega
    subst hzero
    exact ⟨rfl, by decide +kernel⟩
  have hdistinct : smallDir.Distinct smallGeom := by
    intro n de n' de' hlive hlive' heq
    have hne : deName (smallDir.page 0) 0 ≠ deName (smallDir.page 0) 12 := by decide +kernel
    obtain ⟨rfl, rfl | rfl⟩ := live_small hlive
    · obtain ⟨rfl, rfl | rfl⟩ := live_small hlive'
      · exact ⟨rfl, rfl⟩
      · exact absurd heq hne
    · obtain ⟨rfl, rfl | rfl⟩ := live_small hlive'
      · exact absurd heq.symm hne
      · exact ⟨rfl, rfl⟩
  have hiff := krFindEntry_iff hok hdistinct (by decide +kernel) (show [46, 46].length ≤ 255 by decide) 7
  exact ⟨by decide +kernel, hiff.2.1⟩

end KrFs
