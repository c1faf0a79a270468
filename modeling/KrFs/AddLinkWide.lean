import KrFs.RenameMap

/-!
# Entries in chunks of 64 KiB

`kr_add_link` keeps the length of a record in an `unsigned short`. On pages of 64 KiB
a chunk may be one record of 65536 bytes, and a fresh chunk is: both lengths are 0
where they are used as a step and as the length of the commit. The search after it
runs over the pages as they are in memory; a page that has been checked once is not
checked again.
-/

namespace KrFs

open Bytes Tiling

section Search

variable (get : Nat → Option (Nat → UInt8)) (g : DirGeom) (d : Dir) (name : List UInt8)

/-- `kr_get_page` with the flags of the pages checked before. -/
def krGetPageChecked (checked : Nat → Bool) (n : Nat) : Option (Nat → UInt8) :=
  if d.readable n = true ∧ (checked n = true ∨ krCheckPage g d n = none) then some (d.page n)
  else none

/-- One round of the loop of `kr_find_entry`, with what `kr_get_page` returns. -/
def findPageBy (n : Nat) : Option (Option (Nat × Nat)) :=
  match get n with
  | none => none
  | some p =>
    match (findInPage g name p (krLastByte g d n)).2 with
    | .left de => some (some (n, de))
    | .stuck _ _ => some none
    | .past _ _ => none

def findPagesBy (npages start n : Nat) (hstart : start < npages) (hn : n < npages) :
    Option (Nat × Nat) :=
  match findPageBy get g d name n with
  | some result => result
  | none =>
    if d.iBlocks >>> (g.pageShift - 9) < nextPage npages n then none
    else if nextPage npages n ≠ start then
      findPagesBy npages start (nextPage npages n) hstart (nextPage_lt hn)
    else none
termination_by roundsLeft npages start n
decreasing_by
  unfold roundsLeft
  grind [nextPage]

theorem startPage_lt (h : 0 < d.pages g) :
    (if d.pages g ≤ d.iDirStartLookup then 0 else d.iDirStartLookup) < d.pages g := by
  split <;> omega

/-- The record that `kr_find_entry` finds. -/
def krFindEntryBy : Option (Nat × Nat) :=
  if h : 0 < d.pages g then
    findPagesBy get g d name (d.pages g)
      (if d.pages g ≤ d.iDirStartLookup then 0 else d.iDirStartLookup)
      (if d.pages g ≤ d.iDirStartLookup then 0 else d.iDirStartLookup)
      (startPage_lt g d h) (startPage_lt g d h)
  else none

end Search

section Find

variable {get : Nat → Option (Nat → UInt8)} {g : DirGeom} {d : Dir} {name : List UInt8} {n : Nat}

/-- Without flags it is the search that checks each page. -/
theorem krFindEntryBy_krGetPage :
    krFindEntryBy (krGetPage g d) g d name = (krFindEntry g d name).1 := by
  have hpage : ∀ n, findPageBy (krGetPage g d) g d name n = (findPage g d name n).1 := by
    intro n
    unfold findPageBy findPage
    cases krGetPage g d n with
    | none => rfl
    | some p => rfl
  have hpages : ∀ npages start n hstart hn,
      findPagesBy (krGetPage g d) g d name npages start n hstart hn =
        (findPages g d name npages start n hstart hn).1 := by
    intro npages start n hstart hn
    fun_induction findPages g d name npages start n hstart hn with
    | case1 n hn result scans heq =>
      rw [findPagesBy, hpage, heq]
    | case2 n hn next scans heq hblocks =>
      rw [findPagesBy, hpage, heq]
      exact if_pos hblocks
    | case3 n hn next scans heq hblocks hne rest ih =>
      rw [findPagesBy, hpage, heq]
      exact (if_neg hblocks).trans ((if_pos hne).trans ih)
    | case4 n hn next scans heq hblocks hne =>
      rw [findPagesBy, hpage, heq]
      exact (if_neg hblocks).trans (if_neg hne)
  unfold krFindEntryBy krFindEntry
  dsimp only
  split
  · rw [hpages]
    generalize findPages g d name _ _ _ _ _ = r
    obtain ⟨found, scans⟩ := r
    cases found with
    | none => rfl
    | some place => rfl
  · rfl

/-- What a search of those pages comes to: a record of the name, or no record of the
name is in them. -/
def SearchOf (g : DirGeom) (d : Dir) (name : List UInt8) (pages : List Nat) :
    Option (Nat × Nat) → Prop
  | some place => ∃ v, d.slots g place = some (name, v)
  | none => ∀ m ∈ pages, ∀ de v, d.slots g (m, de) ≠ some (name, v)

variable (h : d.LaidOut g) (hsize : d.iSize < 2 ^ 32) (hname : name.length ≤ 255)
  (hget : ∀ n < d.pages g, get n = some (d.page n))

include h hsize hname hget

theorem findPageBy_none (hn : n < d.pages g) (hnone : findPageBy get g d name n = none) :
    ∀ de v, d.slots g (n, de) ≠ some (name, v) := by
  intro de v hslot
  obtain ⟨hmem, hlive, hentry⟩ := Dir.slots_eq_some.mp hslot
  have htiled := h.records n
  have hmin := krDirRecLen_le name.length
  have hused := Dir.used_min (h.used_dvd n) hn
  have hle := Dir.used_le g d n
  have hlt := g.pageSize_lt
  have heq : deName (d.page n) de = name := congrArg Prod.fst hentry
  have hmatch : krMatch name (d.page n) de = true := krMatch_iff.mpr ⟨hlive, heq⟩
  have hbefore : de < sub32 (d.used g n) (krDirRecLen name.length) + 1 := by
    have hend := (htiled.bounds hmem).2
    have hlen := (htiled.ok_of_mem hmem).name
    have hmax := krDirRecLen_max hname
    rw [← length_deName, heq] at hlen
    rw [sub32_of_le (by omega) (by omega)]
    omega
  have hsorted : (pageRecords g (d.page n) (d.used g n)).Pairwise fun x y => x ≤ y :=
    htiled.sorted.imp fun hxy => by omega
  unfold findPageBy at hnone
  rw [hget n hn] at hnone
  dsimp only at hnone
  rw [krLastByte_eq hsize (Dir.lt_pages.mp hn).le, findInPage, walk_tiled (fun _ ok => ok.pos) htiled
    (Dir.stop_le (h.used_dvd n) hn (by omega) (krDirRecLen_max hname))] at hnone
  split at hnone
  · cases hnone
  · cases hnone
  · rename_i s e hpast
    have hno := walkList_search_past hsorted hpast de hmem hbefore
    rw [hno] at hmatch
    cases hmatch

theorem findPageBy_some (hn : n < d.pages g) {result : Option (Nat × Nat)}
    (hsome : findPageBy get g d name n = some result) :
    ∃ de v, result = some (n, de) ∧ d.slots g (n, de) = some (name, v) := by
  have htiled := h.records n
  have hmin := krDirRecLen_le name.length
  unfold findPageBy at hsome
  rw [hget n hn] at hsome
  dsimp only at hsome
  rw [krLastByte_eq hsize (Dir.lt_pages.mp hn).le, findInPage, walk_tiled (fun _ ok => ok.pos) htiled
    (Dir.stop_le (h.used_dvd n) hn (by omega) (krDirRecLen_max hname))] at hsome
  split at hsome
  · rename_i x hleft
    cases hsome
    obtain ⟨de, hmem, -, hmatch, heq⟩ := walkList_search_left _ hleft
    obtain rfl : x = de := heq
    obtain ⟨hlive, heq⟩ := krMatch_iff.mp hmatch
    exact ⟨x, _, rfl, Dir.slots_eq_some.mpr ⟨hmem, hlive, Prod.ext heq rfl⟩⟩
  · rename_i s e hstuck
    exact absurd hstuck (walkList_not_stuck _ _ _ _ _ s e)
  · cases hsome

theorem findPagesBy_spec (hblocks : d.iSize ≤ d.iBlocks * 512) {start : Nat}
    (hstart : start < d.pages g) (hn : n < d.pages g) :
    SearchOf g d name (cycleFrom (d.pages g) start n)
      (findPagesBy get g d name (d.pages g) start n hstart hn) := by
  fun_induction findPagesBy get g d name (d.pages g) start n hstart hn with
  | case1 n hn result heq =>
    obtain ⟨de, v, rfl, hslot⟩ := findPageBy_some h hsize hname hget hn heq
    exact ⟨v, hslot⟩
  | case2 n hn heq hcount => exact absurd hcount (blocks_cover hblocks (nextPage_lt hn))
  | case3 n hn heq hcount hne ih =>
    have hpage := findPageBy_none h hsize hname hget hn heq
    generalize findPagesBy get g d name (d.pages g) start (nextPage (d.pages g) n) _ _ = found at ih ⊢
    cases found with
    | some place => exact ih
    | none =>
      rw [cycleFrom_next hstart hn, if_neg hne]
      exact List.forall_mem_cons.mpr ⟨hpage, ih⟩
  | case4 n hn heq hcount hne =>
    rw [ne_eq, not_not] at hne
    rw [cycleFrom_next hstart hn, if_pos hne]
    exact List.forall_mem_singleton.mpr (findPageBy_none h hsize hname hget hn heq)

/-- In a directory cut into records the search finds a name that is there, and
nothing else. -/
theorem krFindEntryBy_spec (hblocks : d.iSize ≤ d.iBlocks * 512) :
    SearchOf g d name (List.range (d.pages g)) (krFindEntryBy get g d name) := by
  by_cases hpages : 0 < d.pages g
  · rw [krFindEntryBy, dif_pos hpages]
    generalize_proofs hstart
    have hspec := findPagesBy_spec h hsize hname hget hblocks hstart hstart
    generalize findPagesBy get g d name _ _ _ _ _ = found at hspec ⊢
    cases found with
    | some place => exact hspec
    | none =>
      intro m hm
      exact hspec m ((mem_cycleFrom hstart).mpr (List.mem_range.mp hm))
  · rw [krFindEntryBy, dif_neg hpages]
    intro m hm
    rw [List.mem_range] at hm
    omega

end Find

/-! ## Adding -/

/-- The page that the call has written to. `kr_get_page` has checked it before. -/
def DirCall.wrote (c : DirCall) (n : Nat) : Bool :=
  match c.stores with
  | some (m, _) => n == m
  | none => false

/-- The call ends, and when it returns 0 the search for the name finds its entry; a
directory with no room has grown by a chunk. -/
def AddLinkRight (g : DirGeom) (d : Dir) (name : List UInt8) (inode : LinkTarget) (c : DirCall) :
    Prop :=
  (∃ result, c.ret = .done result) ∧ (c.ret = .done (.ok ()) →
    (∃ place, krFindEntryBy (krGetPageChecked g c.dir c.wrote) g c.dir name = some place ∧
      c.dir.slots g place = some (name, inode.value g)) ∧
    (d.Full g name → c.dir.iSize = d.iSize + g.chunkSize))

/-- The scan meets a record with room for `name`, and passes all before it. -/
def Dir.MeetsRoom (g : DirGeom) (d : Dir) (name : List UInt8) : Prop :=
  ∃ n de, de ∈ pageRecords g (d.page n) (d.used g n) ∧ Room g (d.page n) name de ∧
    d.Passed g name n de

section Add

variable {g : DirGeom} {d : Dir} {name : List UInt8} {inode : LinkTarget} {env : ChunkEnv}

/-- A directory cannot be full and have a record at which the scan stops for ever. -/
theorem Dir.MeetsRoom.not_loops (h : d.MeetsRoom g name) {n de : Nat}
    (hmem : de ∈ pageRecords g (d.page n) (d.used g n))
    (hlen : deRecLen g (d.page n) de % 2 ^ 16 = 0) (hpassed : d.Passed g name n de) : False := by
  obtain ⟨m, x, hmem', hroom, hpassed'⟩ := h
  have hpos := krDirRecLen_le name.length
  rcases Nat.lt_trichotomy m n with hlt | rfl | hgt
  · exact (hpassed m x (Or.inl hlt) hmem').1 hroom
  · rcases Nat.lt_trichotomy x de with hlt | rfl | hgt
    · exact (hpassed m x (Or.inr ⟨rfl, hlt⟩) hmem').1 hroom
    · unfold Room at hroom
      omega
    · exact (hpassed' m de (Or.inr ⟨rfl, hgt⟩) hmem).2 hlen
  · exact (hpassed' n de (Or.inl hgt) hmem).2 hlen

/-- What a call that puts the record inside the directory leaves as it was. -/
theorem addLinkAt_kept (name : List UInt8) (inode : LinkTarget) (nameLen : Nat)
    (scans : List Scan) {n de recLen : Nat} (hend : n * g.pageSize + de + recLen ≤ d.iSize) (henv : env.prepare = none) :
    let c := addLinkAt g d name inode env n de recLen nameLen [] scans
    c.dir.iSize = d.iSize ∧ c.dir.iBlocks = d.iBlocks + env.sectors ∧
      (∀ m, m ≠ n → c.dir.page m = d.page m) ∧ c.wrote n = true := by
  intro c
  simp only [c]
  unfold addLinkAt
  rw [henv]
  refine ⟨commit_inside hend, rfl, fun m hm => Function.update_of_ne hm _ _, ?_⟩
  simp [DirCall.wrote]

/-- The pages after a call are got: the one written to by its flag, the others because
they are as they were. -/
theorem getPageChecked_after (h : d.Ok g) {c : DirCall} {n : Nat} (hsize : c.dir.iSize = d.iSize)
    (hpage : ∀ m, m ≠ n → c.dir.page m = d.page m) (hread : c.dir.readable = d.readable)
    (hwrote : c.wrote n = true) :
    ∀ m < c.dir.pages g, krGetPageChecked g c.dir c.wrote m = some (c.dir.page m) := by
  intro m hm
  have hlt : m < d.pages g := by
    unfold Dir.pages at hm ⊢
    rwa [hsize] at hm
  obtain ⟨hreadable, hchecked⟩ := h.pages m hlt
  refine if_pos ⟨by rw [hread]; exact hreadable, ?_⟩
  by_cases hmn : m = n
  · exact Or.inl (hmn ▸ hwrote)
  · right
    unfold krCheckPage at hchecked ⊢
    rw [hsize, hpage m hmn]
    exact hchecked

/-- A record put where there is room is found. -/
theorem addLinkAt_found (hchunk : g.chunkBits ≤ 16) (hcount : g.sInodesCount < 2 ^ 32) (hok : d.Ok g)
    (hblocks : d.iSize ≤ d.iBlocks * 512) (hnonempty : 1 ≤ name.length)
    (hname : name.length ≤ 255) (hnew : d.map g name = none) (hinode : inode.Valid g)
    (henv : env.prepare = none) {n de recLen nameLen : Nat} (scans : List Scan)
    (hmem : de ∈ pageRecords g (d.page n) (d.used g n))
    (hroom : HasRoom g (d.page n) name de recLen nameLen) :
    let c := addLinkAt g d name inode env n de recLen nameLen [] scans
    (∃ result, c.ret = .done result) ∧
      ∃ place, krFindEntryBy (krGetPageChecked g c.dir c.wrote) g c.dir name = some place ∧
        c.dir.slots g place = some (name, inode.value g) := by
  intro c
  have hlaid := hok.laidOut
  obtain ⟨hret, place, hnone, hedit⟩ :=
    addLinkAt_room scans hchunk hcount hlaid hmem hroom hnonempty hname hinode henv
  have hend := hlaid.inside hmem
  have hfull := hroom.recLen_full
  obtain ⟨hsize, hsectors, hpage, hwrote⟩ := addLinkAt_kept name inode nameLen scans
    (show n * g.pageSize + de + recLen ≤ d.iSize by omega) henv
  change c.dir.iSize = d.iSize at hsize
  change c.dir.iBlocks = d.iBlocks + env.sectors at hsectors
  have hget := getPageChecked_after hok hsize hpage hedit.readable hwrote
  have hlt := hok.size
  have hspec := krFindEntryBy_spec hedit.laidOut (by change c.dir.iSize < _; omega) hname hget
    (by change c.dir.iSize ≤ c.dir.iBlocks * 512; omega)
  refine ⟨⟨_, hret⟩, ?_⟩
  have hslot : c.dir.slots g place = some (name, inode.value g) := by
    rw [hedit.slots, Function.update_self]
  have hplace := hedit.laidOut.page_lt (Dir.slots_eq_some.mp hslot).1
  cases hfound : krFindEntryBy (krGetPageChecked g c.dir c.wrote) g c.dir name with
  | none =>
    rw [hfound] at hspec
    exact absurd hslot (hspec place.1 (List.mem_range.mpr hplace) place.2 _)
  | some place' =>
    rw [hfound] at hspec
    obtain ⟨v, hv⟩ := hspec
    have hsame : place' = place := by
      by_contra hne
      rw [hedit.slots, Function.update_of_ne hne] at hv
      exact Slots.lookup_eq_none.mp hnew _ _ hv
    exact ⟨place', rfl, hsame ▸ hslot⟩

/-- A directory without room: the call returns 0 and has made no entry, unless it
returns an error. -/
theorem addLinkAt_full (hchunk : g.chunkBits = 16) (hok : d.Ok g)
    (hnew : d.map g name = none) {n : Nat} (scans : List Scan)
    (hn : n * g.pageSize ≤ d.iSize) :
    AddLinkRight g d name inode (addLinkAt g d name inode env n (d.used g n) (g.chunkSize % 2 ^ 16) 0
        [⟨d.used g n + 4, digits 2 (krRecLenToDisk g g.chunkSize)⟩, ⟨d.used g n, digits 4 0⟩] scans) ↔
      env.prepare ≠ none ∨ env.commit ≠ none := by
  cases hprepare : env.prepare with
  | some err =>
    refine iff_of_true ?_ (Or.inl (by simp))
    have hret : (addLinkAt g d name inode env n (d.used g n) (g.chunkSize % 2 ^ 16) 0
        [⟨d.used g n + 4, digits 2 (krRecLenToDisk g g.chunkSize)⟩, ⟨d.used g n, digits 4 0⟩]
        scans).ret = .done (.error err) := by
      unfold addLinkAt
      rw [hprepare]
    refine ⟨⟨_, hret⟩, fun hzero => ?_⟩
    rw [hret] at hzero
    cases hzero
  | none =>
    obtain ⟨hret, hlaid', hslots⟩ :=
      addLinkAt_lost name inode scans hchunk hok.laidOut rfl hn hprepare
    cases hcommit : env.commit with
    | some err =>
      refine iff_of_true ⟨⟨_, hret⟩, fun hzero => ?_⟩ (Or.inr (by simp))
      rw [hret, hcommit] at hzero
      cases hzero
    | none =>
      refine iff_of_false (fun hright => ?_) (by simp)
      rw [hcommit] at hret
      obtain ⟨⟨place, -, hslot⟩, -⟩ := hright.2 hret
      rw [hslots] at hslot
      exact Slots.lookup_eq_none.mp hnew _ _ hslot

/-- With pages and chunks of 64 KiB `kr_add_link` ends and makes an entry that is found
just when the scan comes to a record with room before any record of a whole chunk, or
the directory has no room and the call fails. -/
theorem krAddLink_wide_iff (hpage : g.pageShift = 16) (hchunk : g.chunkBits = 16)
    (hcount : g.sInodesCount < 2 ^ 32) (hok : d.Ok g) (hblocks : d.iSize ≤ d.iBlocks * 512)
    (hnonempty : 1 ≤ name.length) (hname : name.length ≤ 255) (hnew : d.map g name = none)
    (hinode : inode.Valid g) (env : ChunkEnv) :
    AddLinkRight g d name inode (krAddLink g d name inode env) ↔
      d.MeetsRoom g name ∨ (d.Full g name ∧
        (d.readable (d.pages g) = false ∨ env.prepare ≠ none ∨ env.commit ≠ none)) := by
  have houtcome : AddOutcome g d name inode env (krAddLink g d name inode env) :=
    krAddLink_outcome hok hname
  have hfullroom : d.Full g name → ¬ d.MeetsRoom g name := by
    rintro hfull ⟨n, de, hmem, hroom, -⟩
    exact (hfull n de hmem).1 hroom
  cases houtcome with
  | fresh n scans hn hread hroom hfull heq =>
    have hsame : g.chunkSize = g.pageSize := by
      unfold DirGeom.chunkSize DirGeom.pageSize
      rw [hpage, hchunk]
    -- the end of the directory is the start of a page
    have hlast : n = d.pages g := by
      have hmin := krDirRecLen_le name.length
      have hzero : d.used g n = 0 := by
        obtain ⟨k, hk⟩ := hok.laidOut.used_dvd n
        rw [hsame] at hk
        cases k with
        | zero => simpa using hk
        | succ k =>
          rw [Nat.mul_succ] at hk
          omega
      have hpos := g.pageSize_pos
      have hend : n * g.pageSize = d.iSize := by
        unfold Dir.used at hzero
        omega
      unfold Dir.pages
      rw [← hend, show n * g.pageSize + g.pageSize - 1 = g.pageSize - 1 + n * g.pageSize by omega,
        Nat.add_mul_div_right _ _ hpos, Nat.div_eq_of_lt (by omega), Nat.zero_add]
    rw [heq, addLinkAt_full hchunk hok hnew scans hn]
    constructor
    · exact fun henv => Or.inr ⟨hfull, Or.inr henv⟩
    · rintro (hmeets | ⟨-, hunread | henv⟩)
      · exact absurd hmeets (hfullroom hfull)
      · rw [← hlast, hread] at hunread
        cases hunread
      · exact henv
  | room n de recLen nameLen scans hmem hroom hpassed heq =>
    refine iff_of_true ?_ (Or.inl ⟨n, de, hmem, hroom.room, hpassed⟩)
    rw [heq]
    cases hprepare : env.prepare with
    | some err =>
      have hret : (addLinkAt g d name inode env n de recLen nameLen [] scans).ret =
          .done (.error err) := by
        unfold addLinkAt
        rw [hprepare]
      refine ⟨⟨_, hret⟩, fun hzero => ?_⟩
      rw [hret] at hzero
      cases hzero
    | none =>
      obtain ⟨hdone, hfound⟩ := addLinkAt_found hchunk.le hcount hok hblocks hnonempty hname hnew hinode
        hprepare scans hmem hroom
      exact ⟨hdone, fun _ => ⟨hfound, fun hfull => absurd hroom.room (hfull n de hmem).1⟩⟩
  | found n de hmem hmatch hdir hret =>
    obtain ⟨hlive, heq⟩ := krMatch_iff.mp hmatch
    have hslot : d.slots g (n, de) = some (name, (entryAt (d.page n) de).2) :=
      Dir.slots_eq_some.mpr ⟨hmem, hlive, Prod.ext heq rfl⟩
    exact absurd hslot (Slots.lookup_eq_none.mp hnew _ _)
  | loops n de hmem hlen hpassed hdir hret =>
    refine iff_of_false (fun hright => ?_) ?_
    · obtain ⟨result, hdone⟩ := hright.1
      rw [hret] at hdone
      cases hdone
    · rintro (hmeets | ⟨hfull, -⟩)
      · exact hmeets.not_loops hmem hlen hpassed
      · exact (hfull n de hmem).2 hlen
  | unread hread hfull hdir hret =>
    refine iff_of_true ⟨⟨_, hret⟩, fun hzero => ?_⟩ (Or.inr ⟨hfull, Or.inl hread⟩)
    rw [hret] at hzero
    cases hzero

end Add

/-- The first name of a full directory is followed by room for a short one. -/
theorem krAddLink_wide_iff_short :
    AddLinkRight wideGeom fullDir [98] ⟨12, 0x81A4⟩
      (krAddLink wideGeom fullDir [98] ⟨12, 0x81A4⟩ ⟨none, 0, none⟩) := by
  have hmem : 24 ∈ pageRecords wideGeom (fullDir.page 0) (fullDir.used wideGeom 0) := by
    decide +kernel
  have hroom : Room wideGeom fullPage [98] 24 := by
    unfold Room
    decide +kernel
  refine (krAddLink_wide_iff rfl rfl (by decide) fullDir_good.ok (by decide) (by decide) (by decide)
    (fullDir_absent rfl) ⟨by decide, by decide⟩ ⟨none, 0, none⟩).mpr
    (Or.inl ⟨0, 24, hmem, hroom, ?_⟩)
  have hskips : ∀ x ∈ fullRecords, x < 24 → Skips wideGeom fullPage [98] x := by
    unfold Skips Room
    decide +kernel
  rintro m x (hm | ⟨rfl, hx⟩) hmem
  · omega
  · exact hskips x (fullDir_mem hmem).2 hx

/-- A full directory accepts a long name, returns 0 and has no entry for it. -/
theorem krAddLink_wide_lost :
    let newName := List.replicate 255 98
    let c := krAddLink wideGeom fullDir newName ⟨12, 0x81A4⟩ ⟨none, 0, none⟩
    fullDir.Ok wideGeom ∧ fullDir.map wideGeom newName = none ∧ c.ret = .done (.ok ()) ∧
      ¬ AddLinkRight wideGeom fullDir newName ⟨12, 0x81A4⟩ c := by
  intro newName c
  have hlen : newName.length = 255 := List.length_replicate
  have hnew : fullDir.map wideGeom newName = none := fullDir_absent rfl
  have hfull : fullDir.Full wideGeom newName := fullDir_full hlen
  rcases @krAddLink_cases _ _ _ _ ⟨none, 0, none⟩ (by decide) (by decide) fullDir_good (by omega)
    hlen.le hnew (show (⟨12, 0x81A4⟩ : LinkTarget).Valid wideGeom from ⟨by decide, by decide⟩) rfl rfl
    with ⟨-, hnot, -⟩ | ⟨-, -, hret, -, hslots⟩ | ⟨hnot, -⟩
  · exact absurd hfull hnot
  · refine ⟨fullDir_good.ok, hnew, hret, fun hright => ?_⟩
    obtain ⟨⟨place, -, hslot⟩, -⟩ := hright.2 hret
    rw [hslots] at hslot
    exact Slots.lookup_eq_none.mp hnew _ _ hslot
  · exact absurd hfull (hnot rfl)

end KrFs
