import KrFs.DirWalk

/-!
# Changing directories in bounds

The scan of `kr_add_link` over an accepted page and the places to which
`kr_add_link` and `kr_delete_entry` write. All of them lie in records of the page,
or, where `kr_add_link` appends, in the chunk behind the last one.
-/

namespace KrFs

open Bytes Tiling

section Add

variable {g : DirGeom} {d : Dir} {p : Nat → UInt8} {name : List UInt8} {n a b de : Nat}
  {offs : List Nat}

/-- A record does not reach over the end of its chunk. -/
theorem EntryOk.len_le (h : EntryOk g p de) : de % g.chunkSize + deRecLen g p de ≤ g.chunkSize := by
  have hpos := h.pos
  have hspan := h.span
  have hlt : (de + deRecLen g p de - 1) / g.chunkSize < de / g.chunkSize + 1 := by omega
  rw [Nat.div_lt_iff_lt_mul g.chunkSize_pos, Nat.add_mul, Nat.one_mul] at hlt
  have hmod := Nat.mod_add_div de g.chunkSize
  rw [Nat.mul_comm] at hmod
  omega

/-- The length of a record on disk has 16 bits. -/
theorem deRecLen_le (g : DirGeom) (p : Nat → UInt8) (de : Nat) : deRecLen g p de ≤ 2 ^ 16 := by
  have hlt := value_lt (load p (de + 4) 2)
  rw [length_load] at hlt
  unfold deRecLen krRecLenFromDisk
  split
  · exact Nat.le_refl _
  · omega

theorem DirGeom.chunkSize_le_half (hchunk : g.chunkBits ≤ 15) : g.chunkSize ≤ 2 ^ 15 :=
  Nat.pow_le_pow_right (Nat.succ_pos 1) hchunk

/-- The loop of `kr_add_link` over a list of records that ends at `b`. -/
def addList (g : DirGeom) (name : List UInt8) (p : Nat → UInt8) (b : Nat) :
    List Nat → List Nat × AddScan
  | [] => ([], if b + krDirRecLen name.length ≤ g.pageSize then .fresh b else .past)
  | de :: offs =>
    if de + krDirRecLen name.length ≤ g.pageSize then
      if krMatch name p de then ([de], .found de)
      else
        let nameLen := krDirRecLen (deNameLen p de)
        let recLen := deRecLen g p de % 2 ^ 16
        if (deInode p de = 0 ∧ krDirRecLen name.length ≤ recLen) ∨
            nameLen + krDirRecLen name.length ≤ recLen then ([de], .room de recLen nameLen)
        else if recLen = 0 then ([de], .loops de)
        else
          let rest := addList g name p b offs
          (de :: rest.1, rest.2)
    else ([], .past)

theorem addWalk_tiled (h : PageTiled g p a b offs) : addWalk g name p b a = addList g name p b offs := by
  induction h with
  | nil b =>
    rw [addWalk, addList]
    split
    · simp
    · rfl
  | @cons a b offs ok rest ih =>
    have hpos := ok.pos
    have hmax := deRecLen_le g p a
    have hne : a ≠ b := by
      have := rest.le
      omega
    have hzero : ¬ deRecLen g p a = 0 := by omega
    rw [addWalk, addList]
    dsimp only
    rw [if_neg hne, if_neg hzero]
    split
    · split
      · rfl
      · split
        · rfl
        · split
          · rfl
          · rename_i hloop
            -- a record of 65536 bytes is the only one whose length does not fit
            have hfit : deRecLen g p a % 2 ^ 16 = deRecLen g p a := by
              apply Nat.mod_eq_of_lt
              by_contra hbig
              have heq : deRecLen g p a = 2 ^ 16 := by omega
              simp [heq] at hloop
            rw [hfit, ih]
    · rfl

theorem addList_visited (b : Nat) (offs : List Nat) : (addList g name p b offs).1 <+: offs := by
  induction offs with
  | nil => simp [addList]
  | cons de offs ih =>
    rw [addList]
    split
    · split
      · simp
      · dsimp only
        split
        · simp
        · split
          · simp
          · exact (List.prefix_cons_inj de).mpr ih
    · simp

theorem addList_not_zero (b : Nat) (offs : List Nat) (de : Nat) :
    (addList g name p b offs).2 ≠ .zero de := by
  induction offs with
  | nil =>
    rw [addList]
    split <;> simp
  | cons x offs ih =>
    rw [addList]
    split
    · split
      · simp
      · dsimp only
        split
        · simp
        · split
          · simp
          · exact ih
    · simp

theorem addList_fresh (b : Nat) (offs : List Nat) (h : (addList g name p b offs).2 = .fresh de) :
    de = b ∧ b + krDirRecLen name.length ≤ g.pageSize := by
  induction offs with
  | nil =>
    rw [addList] at h
    split at h
    · rename_i hroom
      cases h
      exact ⟨rfl, hroom⟩
    · cases h
  | cons x offs ih =>
    rw [addList] at h
    split at h
    · split at h
      · cases h
      · dsimp only at h
        split at h
        · cases h
        · split at h
          · cases h
          · exact ih h
    · cases h

/-- A record with room for the new one. -/
structure HasRoom (g : DirGeom) (p : Nat → UInt8) (name : List UInt8) (de recLen nameLen : Nat) :
    Prop where
  recLen_eq : recLen = deRecLen g p de % 2 ^ 16
  nameLen_eq : nameLen = krDirRecLen (deNameLen p de)
  fits : (deInode p de = 0 ∧ krDirRecLen name.length ≤ recLen) ∨
    nameLen + krDirRecLen name.length ≤ recLen

theorem addList_room (b : Nat) (offs : List Nat) {recLen nameLen : Nat}
    (h : (addList g name p b offs).2 = .room de recLen nameLen) :
    de ∈ offs ∧ HasRoom g p name de recLen nameLen := by
  induction offs with
  | nil =>
    rw [addList] at h
    split at h <;> cases h
  | cons x offs ih =>
    rw [addList] at h
    split at h
    · split at h
      · cases h
      · dsimp only at h
        split at h
        · rename_i hfits
          cases h
          exact ⟨List.mem_cons_self, rfl, rfl, hfits⟩
        · split at h
          · cases h
          · exact ⟨List.mem_cons_of_mem x (ih h).1, (ih h).2⟩
    · cases h

theorem addList_loops (hchunk : g.chunkBits ≤ 15) (h : PageTiled g p a b offs) (de : Nat) :
    (addList g name p b offs).2 ≠ .loops de := by
  induction h with
  | nil b =>
    rw [addList]
    split <;> simp
  | @cons a b offs ok rest ih =>
    rw [addList]
    split
    · split
      · simp
      · dsimp only
        split
        · simp
        · split
          · rename_i hloop
            have hlen := ok.len_le
            have hpos := ok.pos
            have hhalf := DirGeom.chunkSize_le_half hchunk
            omega
          · exact ih
    · simp

/-! ## Stores -/

/-- A call that scans safely, ends, and writes inside the page and before the end of
the directory; `fresh` bytes behind the end may be used as well. -/
structure DirCall.Safe (g : DirGeom) (d : Dir) (fresh : Nat) (c : DirCall) : Prop where
  scans : ∀ s ∈ c.scans, s.Safe g d
  stores : ∀ n stores, c.stores = some (n, stores) → ∀ st ∈ stores,
    st.off + st.data.length ≤ g.pageSize ∧
      n * g.pageSize + st.off + st.data.length ≤ d.iSize + fresh
  ends : c.ret ≠ .running

variable {inode : LinkTarget} {env : ChunkEnv} {scans : List Scan} {fresh : Nat}

theorem entryStores_inside {st : Store} (h : st ∈ entryStores g name inode de) :
    de ≤ st.off ∧ st.off + st.data.length ≤ de + krDirRecLen name.length := by
  have hlen := krDirRecLen_le name.length
  simp only [entryStores, List.mem_cons, List.not_mem_nil, or_false] at h
  rcases h with rfl | rfl | rfl | rfl <;> simp <;> omega

/-- The stores of `kr_add_link` lie in the record that has room, or in the new chunk. -/
theorem addLinkAt_safe (hscans : ∀ s ∈ scans, s.Safe g d) {recLen nameLen l : Nat}
    {first : List Store} (hfirst : ∀ st ∈ first, st.off + st.data.length ≤ l)
    (hentry : de + krDirRecLen name.length ≤ l)
    (hsplit : deInode (apply (d.page n) first) de ≠ 0 →
      de + nameLen + krDirRecLen name.length ≤ l)
    (hpage : l ≤ g.pageSize) (hend : n * g.pageSize + l ≤ d.iSize + fresh) :
    (addLinkAt g d name inode env n de recLen nameLen first scans).Safe g d fresh := by
  have hlen := krDirRecLen_le name.length
  unfold addLinkAt
  cases henv : env.prepare with
  | some err =>
    refine ⟨hscans, ?_, by simp⟩
    intro n' stores heq st hst
    cases heq
    have := hfirst st hst
    omega
  | none =>
    refine ⟨hscans, ?_, by simp⟩
    intro n' stores heq st hst
    cases heq
    have hle : st.off + st.data.length ≤ l := by
      rcases List.mem_append.mp hst with hst | hst
      · exact hfirst st hst
      · split at hst
        · rename_i hlive
          have hroom := hsplit hlive
          rcases List.mem_append.mp hst with hst | hst
          · simp only [List.mem_cons, List.not_mem_nil, or_false] at hst
            rcases hst with rfl | rfl <;> simp <;> omega
          · exact (entryStores_inside hst).2.trans hroom
        · exact (entryStores_inside hst).2.trans hentry
    omega

/-- The loop passes a page only when the whole page is in use. -/
theorem addList_past (h : PageTiled g p a b offs)
    (hpast : (addList g name p b offs).2 = .past) :
    g.pageSize < b + krDirRecLen name.length := by
  induction h with
  | nil b =>
    rw [addList] at hpast
    split at hpast
    · cases hpast
    · omega
  | @cons a b offs ok rest ih =>
    have hle := rest.le
    rw [addList] at hpast
    split at hpast
    · split at hpast
      · cases hpast
      · dsimp only at hpast
        split at hpast
        · cases hpast
        · split at hpast
          · cases hpast
          · exact ih hpast
    · omega

/-- Behind the used part a page has room for whole chunks. -/
theorem GoodPage.next_chunk (h : GoodPage g d n offs) (hlt : d.used g n < g.pageSize) :
    d.used g n + g.chunkSize ≤ g.pageSize := by
  obtain ⟨k, hk⟩ := h.chunks
  obtain ⟨m, hm⟩ := g.chunkSize_dvd
  rw [hk, hm] at hlt ⊢
  have hkm : k + 1 ≤ m := Nat.lt_of_mul_lt_mul_left hlt
  calc g.chunkSize * k + g.chunkSize = g.chunkSize * (k + 1) := by rw [Nat.mul_succ]
    _ ≤ g.chunkSize * m := Nat.mul_le_mul_left _ hkm

/-- A page that the loop passes is used up, so the next one starts inside. -/
theorem GoodPage.past (h : GoodPage g d n offs) (hname : name.length ≤ 255)
    (hpast : (addList g name (d.page n) (d.used g n) offs).2 = .past) :
    (n + 1) * g.pageSize ≤ d.iSize := by
  have hbig := addList_past h.tiled hpast
  have hlen := krDirRecLen_max hname
  have hmin := g.chunkSize_min
  have hend := Dir.used_end h.inside
  have hle := Dir.used_le g d n
  have hfull : d.used g n = g.pageSize := by
    by_contra hne
    have := h.next_chunk (by omega)
    omega
  rw [Nat.add_mul, Nat.one_mul]
  omega

theorem addPages_safe (hsize : d.iSize < 2 ^ 32) (hchunk : g.chunkBits ≤ 15)
    (hname : name.length ≤ 255) (k : Nat) (hn : n * g.pageSize ≤ d.iSize)
    (hscans : ∀ s ∈ scans, s.Safe g d) :
    (addPages g d name inode env (List.range' n k) scans).Safe g d g.chunkSize := by
  induction k generalizing n scans with
  | zero => exact ⟨hscans, by simp [addPages], by simp [addPages]⟩
  | succ k ih =>
    rw [List.range'_succ, addPages]
    cases hget : krGetPage g d n with
    | none => exact ⟨hscans, by simp, by simp⟩
    | some p =>
      obtain ⟨rfl, offs, hgood⟩ := krGetPage_good hn hget
      have hend := Dir.used_end hn
      have hused := Dir.used_le g d n
      have hlen := krDirRecLen_max hname
      have heq : addWalk g name (d.page n) (krLastByte g d n) 0 =
          addList g name (d.page n) (d.used g n) offs := by
        rw [krLastByte_eq hsize hn]
        exact addWalk_tiled hgood.tiled
      have hvisited : (addList g name (d.page n) (d.used g n) offs).1 <+: offs :=
        addList_visited _ offs
      have hzero : ∀ de, (addList g name (d.page n) (d.used g n) offs).2 ≠ .zero de :=
        addList_not_zero _ offs
      have hscan : (addScanOf n name (d.page n)
          (addList g name (d.page n) (d.used g n) offs)).Safe g d := by
        refine scan_safe hgood hvisited.sublist ?_ ?_
        · intro de hde r hr
          exact matchReads_inside (hgood.tiled.ok_of_mem (hvisited.subset hde)) hr
        · split
          · rename_i de hstuck
            exact absurd hstuck (hzero de)
          · rfl
      have hhere : ∀ s ∈ scans ++ [addScanOf n name (d.page n)
          (addList g name (d.page n) (d.used g n) offs)], s.Safe g d :=
        List.forall_mem_append.mpr ⟨hscans, List.forall_mem_singleton.mpr hscan⟩
      dsimp only
      rw [heq]
      split
      · rename_i de hfresh
        obtain ⟨rfl, hroom⟩ := addList_fresh _ _ hfresh
        have hnext := hgood.next_chunk (by have := krDirRecLen_le name.length; omega)
        have hmin := g.chunkSize_min
        refine addLinkAt_safe (l := d.used g n + g.chunkSize) hhere ?_ (by omega) ?_ hnext (by omega)
        · intro st hst
          simp only [List.mem_cons, List.not_mem_nil, or_false] at hst
          rcases hst with rfl | rfl <;> simp <;> omega
        · intro _
          omega
      · rename_i de recLen nameLen hroom
        obtain ⟨hmem, hfits⟩ := addList_room _ _ hroom
        have hin := (hgood.tiled.bounds hmem).2
        have hmod := Nat.mod_le (deRecLen g (d.page n) de) (2 ^ 16)
        rw [← hfits.recLen_eq] at hmod
        refine addLinkAt_safe (l := d.used g n) hhere (by simp) ?_ ?_ hused (by omega)
        · rcases hfits.fits with hfit | hfit <;> omega
        · intro hlive
          rcases hfits.fits with hfit | hfit
          · exact absurd hfit.1 hlive
          · omega
      · exact ⟨hhere, by simp, by simp⟩
      · exact ⟨hhere, by simp, by simp⟩
      · rename_i de hloop
        exact absurd hloop (addList_loops hchunk hgood.tiled de)
      · rename_i hpast
        exact ih (hgood.past hname hpast) hhere

theorem krAddLink_safe (hsize : d.iSize < 2 ^ 32) (hchunk : g.chunkBits ≤ 15)
    (hname : name.length ≤ 255) :
    (krAddLink g d name inode env).Safe g d g.chunkSize := by
  rw [krAddLink, List.range_eq_range']
  exact addPages_safe hsize hchunk hname _ (by omega) (by simp)

end Add

section Delete

variable {g : DirGeom} {d : Dir} {n de : Nat} {offs : List Nat} {env : ChunkEnv}

theorem foldl_some (xs : List Nat) (s : Option Nat) :
    xs.foldl (fun _ x => some x) s = xs.getLast?.or s := by
  induction xs generalizing s with
  | nil => rfl
  | cons x xs ih =>
    rw [List.foldl_cons, ih, List.getLast?_cons]
    cases xs.getLast? <;> rfl

/-- The loop of `kr_delete_entry` visits the records of the chunk before the one that
is deleted and remembers the last of them. -/
theorem deleteWalk_eq {p : Nat → UInt8} {b : Nat} {Ok : Nat → Prop}
    (hok : ∀ x, Ok x → 0 < deRecLen g p x ∧ (x + deRecLen g p x - 1) / g.chunkSize = x / g.chunkSize)
    (h : Tiled (deRecLen g p) Ok 0 b offs) (hde : de ∈ offs) :
    ∃ xs ys zs, offs = xs ++ (ys ++ de :: zs) ∧
      Tiled (deRecLen g p) Ok (de / g.chunkSize * g.chunkSize) de ys ∧
      deleteWalk g p de = (ys, .past ys.getLast? de) := by
  have hstart : de / g.chunkSize * g.chunkSize ≤ de := Nat.div_mul_le_self _ _
  have hin := h.bounds hde
  obtain ⟨xs, rest, rfl, hxs, hrest⟩ := tiled_cut_chunk hok h (Nat.zero_le _) (by omega)
    (Nat.dvd_mul_left g.chunkSize (de / g.chunkSize))
  have hmem : de ∈ rest := by
    rcases List.mem_append.mp hde with hmem | hmem
    · have hbefore := (hxs.bounds hmem).2
      have hpos := (hok _ (hxs.ok_of_mem hmem)).1
      omega
    · exact hmem
  obtain ⟨ys, zs, rfl⟩ := List.append_of_mem hmem
  have hys := hrest.split.1
  refine ⟨xs, ys, zs, rfl, hys, ?_⟩
  obtain ⟨us, vs, rfl, -, hstop, heq⟩ :=
    walkList_past Unit (fun (_ : Option Nat) x => some x) de de none ys (Nat.le_refl de)
  have hvs : vs = [] := by
    cases vs with
    | nil => rfl
    | cons v vs =>
      have hbefore := (hys.bounds (List.mem_append_right us List.mem_cons_self)).2
      have hpos := (hok _ (hys.ok_of_mem (List.mem_append_right us List.mem_cons_self))).1
      rw [List.headD_cons] at hstop
      omega
  subst hvs
  rw [List.append_nil] at hys heq ⊢
  rw [deleteWalk, walk_tiled (fun x ok => (hok x ok).1) hys (Nat.le_refl de), heq, foldl_some,
    Option.or_none]
  rfl

theorem krDeleteEntry_safe (h : GoodPage g d n offs) (hde : de ∈ offs) :
    (krDeleteEntry g d n de env).Safe g d 0 := by
  obtain ⟨xs, ys, zs, hoffs, hys, heq⟩ :=
    deleteWalk_eq (fun _ ok => ⟨ok.pos, ok.span⟩) h.tiled hde
  have hmin := (h.tiled.ok_of_mem hde).min
  have hin := (h.tiled.bounds hde).2
  have hused := Dir.used_le g d n
  have hend := Dir.used_end h.inside
  have hsub : ys.Sublist offs := by
    rw [hoffs]
    exact (List.sublist_append_left ys (de :: zs)).trans (List.sublist_append_right xs _)
  have hscan : ({ scanOf n (fun _ => []) (deleteWalk g (d.page n) de) with
      reads := (de, 8) :: (scanOf n (fun _ => []) (deleteWalk g (d.page n) de)).reads } :
      Scan).Safe g d := by
    rw [heq]
    have hsafe : Scan.Safe g d ⟨n, ys, ys.flatMap fun x => (x, 8) :: [], false⟩ :=
      scan_safe h hsub (by simp) rfl
    refine ⟨hsafe.visited, hsafe.forward, ?_, hsafe.zeroLength⟩
    exact List.forall_mem_cons.mpr ⟨h.inside_record hde (by dsimp only; omega), hsafe.reads⟩
  have hscans := List.forall_mem_singleton.mpr hscan
  unfold krDeleteEntry
  dsimp only
  rw [heq] at hscans ⊢
  dsimp only
  cases env.prepare with
  | some err => exact ⟨hscans, by simp, by simp⟩
  | none =>
    refine ⟨hscans, ?_, by simp⟩
    intro n' stores hstores st hst
    cases hstores
    rcases List.mem_append.mp hst with hst | hst
    · split at hst
      · rename_i pde hpde
        have hmem := List.mem_of_getLast? hpde
        have hbefore := (hys.bounds hmem).2
        have hlen := (hys.ok_of_mem hmem).min
        rw [List.mem_singleton] at hst
        subst hst
        simp
        omega
      · simp at hst
    · rw [List.mem_singleton] at hst
      subst hst
      simp
      omega

end Delete

/-- Every loop over records in `kr_find_entry`, `kr_readdir` after a seek,
`kr_empty_dir`, `kr_add_link` and `kr_delete_entry` visits starts of records of
accepted pages, goes forward by the shortest record at least, reads and writes only
inside the page and before the end of the directory (`kr_add_link` also in the chunk
behind it) and never meets a record of length zero. -/
theorem dir_walks_safe {g : DirGeom} {d : Dir} (hsize : d.iSize < 2 ^ 32)
    (hchunk : g.chunkBits ≤ 15) :
    (∀ name : List UInt8, name.length ≤ 255 → ∀ s ∈ (krFindEntry g d name).2.2, s.Safe g d) ∧
    (∀ file room, file.fVersion ≠ d.iVersion → ∀ s ∈ (krReaddir g d file room).scans, s.Safe g d) ∧
    (∀ s ∈ (krEmptyDir g d).2, s.Safe g d) ∧
    (∀ (name : List UInt8) inode env, name.length ≤ 255 →
      (krAddLink g d name inode env).Safe g d g.chunkSize) ∧
    (∀ (name : List UInt8) n de env, name.length ≤ 255 →
      (krFindEntry g d name).1 = some (n, de) → (krDeleteEntry g d n de env).Safe g d 0) := by
  refine ⟨?_, ?_, krEmptyDir_safe hsize, ?_, ?_⟩
  · intro name hname
    exact krFindEntry_safe hsize hname
  · intro file room hversion
    exact krReaddir_safe hsize hversion room
  · intro name inode env hname
    exact krAddLink_safe hsize hchunk hname
  · intro name n de env hname hfound
    obtain ⟨-, -, offs, hgood, hmem⟩ := krFindEntry_found hsize hname hfound
    exact krDeleteEntry_safe hgood hmem

/-- Pages of 4 KiB, blocks of 1 KiB and a hundred inodes. -/
def smallGeom : DirGeom := ⟨12, 10, 100, true, by decide, by decide, by decide⟩

/-- A new directory there. -/
def smallDir : Dir :=
  (krMakeEmpty smallGeom ⟨11, 0, 0, 1, 0, fun _ _ => 0, fun _ => true⟩ ⟨11, 0x41ED⟩ 2
    ⟨none, 2, none⟩).dir

/-- A seek into the first record is taken on to the second one. -/
theorem dir_walks_safe_seek :
    (krReaddir smallGeom smallDir ⟨0, 5⟩ 10).emitted = [⟨[46, 46], 12, 2, 4⟩] ∧
      (krReaddir smallGeom smallDir ⟨0, 5⟩ 10).scans.map (·.visited) = [[0], [12]] ∧
      ∀ s ∈ (krReaddir smallGeom smallDir ⟨0, 5⟩ 10).scans, s.Safe smallGeom smallDir := by
  have hsafe := dir_walks_safe (g := smallGeom) (d := smallDir) (by decide +kernel) (by decide)
  exact ⟨by decide +kernel, by decide +kernel, hsafe.2.1 ⟨0, 5⟩ 10 (by decide +kernel)⟩

end KrFs
