import KrFs.DirFind
import KrFs.DirRecord
import KrFs.Lib.Slots

/-!
# A directory as a map

The records in use of a directory, by their places, and the map from names to inode
numbers and types that they make up. `kr_set_link`, `kr_delete_entry` and
`kr_add_link` change one slot each and move no record; so each changes the map at one
name.
-/

namespace KrFs

open Bytes Tiling

/-- The starts of the records of a stretch, by their lengths. -/
def pageRecords (g : DirGeom) (p : Nat → UInt8) (limit : Nat) : List Nat :=
  (walk (deRecLen g p) (fun (_ : Unit) _ => (.inr () : Unit ⊕ Unit)) limit () 0).1

/-- The records in use of a directory. -/
def Dir.slots (g : DirGeom) (d : Dir) (place : Nat × Nat) : Option (List UInt8 × (Nat × UInt8)) :=
  pageSlots (d.page place.1) (pageRecords g (d.page place.1) (d.used g place.1)) place.2

/-- The map of a directory. -/
noncomputable def Dir.map (g : DirGeom) (d : Dir) : List UInt8 → Option (Nat × UInt8) :=
  Slots.lookup (d.slots g)

/-- A directory of whole chunks whose pages are cut into records. -/
structure Dir.LaidOut (g : DirGeom) (d : Dir) : Prop where
  chunks : g.chunkSize ∣ d.iSize
  pages : ∀ n, ∃ offs, PageFits g (d.page n) 0 (d.used g n) offs

/-- All records have the length of the shortest name. -/
def Dir.Long (g : DirGeom) (d : Dir) : Prop :=
  ∀ n, ∀ x ∈ pageRecords g (d.page n) (d.used g n), 12 ≤ deRecLen g (d.page n) x

section Slots

variable {g : DirGeom} {d d' : Dir} {p : Nat → UInt8} {n de b : Nat} {offs : List Nat}
  {e : List UInt8 × (Nat × UInt8)}

theorem PageFits.records (h : PageFits g p 0 b offs) : pageRecords g p b = offs := by
  obtain ⟨xs, ys, rfl, -, hstop, heq⟩ :=
    walkList_past Unit (fun (_ : Unit) _ => ()) b b () offs (Nat.le_refl b)
  have hys : ys = [] := by
    cases ys with
    | nil => rfl
    | cons y ys =>
      have hmem : y ∈ xs ++ y :: ys := List.mem_append_right xs List.mem_cons_self
      have hend := (h.bounds hmem).2
      have hpos := (h.ok_of_mem hmem).pos
      rw [List.headD_cons] at hstop
      omega
  subst hys
  rw [pageRecords, walk_tiled (fun _ ok => ok.pos) h (Nat.le_refl b), heq, List.append_nil]

theorem Dir.LaidOut.records (h : d.LaidOut g) (n : Nat) :
    PageFits g (d.page n) 0 (d.used g n) (pageRecords g (d.page n) (d.used g n)) := by
  obtain ⟨offs, hoffs⟩ := h.pages n
  rw [hoffs.records]
  exact hoffs

theorem Dir.slots_eq_some : d.slots g (n, de) = some e ↔
    de ∈ pageRecords g (d.page n) (d.used g n) ∧ deInode (d.page n) de ≠ 0 ∧
      entryAt (d.page n) de = e := by
  unfold Dir.slots pageSlots
  dsimp only
  constructor
  · intro h
    split at h
    · rename_i hlive
      cases h
      exact ⟨hlive.1, hlive.2, rfl⟩
    · cases h
  · rintro ⟨hmem, hlive, rfl⟩
    exact if_pos ⟨hmem, hlive⟩

/-- A page with records is a page of the directory. -/
theorem Dir.LaidOut.page_lt (h : d.LaidOut g) (hmem : de ∈ pageRecords g (d.page n) (d.used g n)) :
    n < d.pages g := by
  have hend := ((h.records n).bounds hmem).2
  have hpos := ((h.records n).ok_of_mem hmem).pos
  rw [Dir.lt_pages]
  unfold Dir.used at hend
  omega

theorem Dir.LaidOut.used_dvd (h : d.LaidOut g) (n : Nat) : g.chunkSize ∣ d.used g n := by
  have hpage := g.chunkSize_dvd
  unfold Dir.used
  rcases Nat.le_total g.pageSize (d.iSize - n * g.pageSize) with hle | hle
  · rw [Nat.min_eq_left hle]
    exact hpage
  · rw [Nat.min_eq_right hle]
    exact Nat.dvd_sub h.chunks (hpage.trans (Nat.dvd_mul_left _ n))

/-! ### Directories in order -/

theorem Dir.used_past (hn : ¬ n < d.pages g) : d.used g n = 0 := by
  rw [Dir.lt_pages] at hn
  unfold Dir.used
  omega

theorem Dir.Ok.laidOut (h : d.Ok g) : d.LaidOut g := by
  refine ⟨h.chunks, fun n => ?_⟩
  by_cases hn : n < d.pages g
  · obtain ⟨offs, hgood⟩ := h.good hn
    exact ⟨offs, hgood.tiled.fits⟩
  · rw [Dir.used_past hn]
    exact ⟨[], Tiled.nil 0⟩

theorem Dir.Ok.long (h : d.Ok g) : d.Long g := by
  intro n x hx
  have hn := h.laidOut.page_lt hx
  obtain ⟨offs, hgood⟩ := h.good hn
  rw [hgood.tiled.fits.records] at hx
  exact (hgood.tiled.ok_of_mem hx).min

theorem Dir.LaidOut.ok (h : d.LaidOut g) (hsize : d.iSize < 2 ^ 32) (hlong : d.Long g)
    (hread : ∀ n, d.readable n = true) : d.Ok g := by
  refine ⟨hsize, fun n hn => ⟨hread n, ?_⟩⟩
  rw [krCheckPage_eq_none (Dir.lt_pages.mp hn).le]
  exact ⟨h.used_dvd n, _, (h.records n).tiled (hlong n)⟩

theorem Dir.Ok.boundary (h : d.Ok g) (hn : n < d.pages g) :
    d.Boundary g n de ↔ de ∈ pageRecords g (d.page n) (d.used g n) := by
  constructor
  · rintro ⟨offs, hgood, hmem⟩
    rw [hgood.tiled.fits.records]
    exact hmem
  · intro hmem
    obtain ⟨offs, hgood⟩ := h.good hn
    rw [hgood.tiled.fits.records] at hmem
    exact ⟨offs, hgood, hmem⟩

/-- The records in use, as the search sees them. -/
theorem Dir.Ok.live_iff (h : d.Ok g) {name : List UInt8} :
    (d.Live g n de ∧ deName (d.page n) de = name) ↔ ∃ v, d.slots g (n, de) = some (name, v) := by
  constructor
  · rintro ⟨⟨hn, hboundary, hlive⟩, rfl⟩
    exact ⟨_, Dir.slots_eq_some.mpr ⟨(h.boundary hn).mp hboundary, hlive, rfl⟩⟩
  · rintro ⟨v, hv⟩
    obtain ⟨hmem, hlive, hentry⟩ := Dir.slots_eq_some.mp hv
    have hn := h.laidOut.page_lt hmem
    exact ⟨⟨hn, (h.boundary hn).mpr hmem, hlive⟩, congrArg Prod.fst hentry⟩

/-! ### One page is changed -/

/-- What a call does to a directory: one slot changes and the rest stays where it is;
the directory grows by `fresh` bytes at most. -/
structure Dir.Edit (g : DirGeom) (d d' : Dir) (place : Nat × Nat)
    (new : Option (List UInt8 × (Nat × UInt8))) (fresh : Nat) (keeps : Prop) : Prop where
  laidOut : d'.LaidOut g
  size : d'.iSize ≤ d.iSize + fresh
  slots : d'.slots g = Function.update (d.slots g) place new
  long : keeps → d.Long g → d'.Long g
  readable : d'.readable = d.readable

theorem Dir.LaidOut.edit (h : d.LaidOut g) {new : Option (List UInt8 × (Nat × UInt8))}
    {fresh : Nat} {keeps : Prop} (hsize : d'.iSize ≤ d.iSize + fresh) (hchunks : g.chunkSize ∣ d'.iSize)
    (hpage : ∀ m, m ≠ n → d'.page m = d.page m) (hused : ∀ m, m ≠ n → d'.used g m = d.used g m)
    (hread : d'.readable = d.readable)
    (hedit : PageEdit g (d.page n) (d'.page n) (d'.used g n)
      (pageRecords g (d.page n) (d.used g n)) de new keeps) :
    d.Edit g d' (n, de) new fresh keeps := by
  obtain ⟨offs, hoffs, hslots, hlong⟩ := hedit
  have hsame : ∀ m, m ≠ n →
      pageRecords g (d'.page m) (d'.used g m) = pageRecords g (d.page m) (d.used g m) := by
    intro m hm
    rw [hpage m hm, hused m hm]
  refine ⟨⟨hchunks, fun m => ?_⟩, hsize, ?_, ?_, hread⟩
  · by_cases hm : m = n
    · subst hm
      exact ⟨offs, hoffs⟩
    · rw [hpage m hm, hused m hm]
      exact h.pages m
  · funext ⟨m, x⟩
    by_cases hm : m = n
    · subst hm
      have heq : d'.slots g (m, x) = pageSlots (d'.page m) offs x := by
        unfold Dir.slots
        dsimp only
        rw [hoffs.records]
      rw [heq, hslots]
      by_cases hx : x = de
      · subst hx
        rw [Function.update_self, Function.update_self]
      · rw [Function.update_of_ne hx, Function.update_of_ne fun h => hx (congrArg Prod.snd h)]
        rfl
    · rw [Function.update_of_ne fun h => hm (congrArg Prod.fst h)]
      unfold Dir.slots
      dsimp only
      rw [hsame m hm, hpage m hm]
  · intro hkeeps hold m x hx
    by_cases hm : m = n
    · subst hm
      rw [hoffs.records] at hx
      exact hlong hkeeps (hold m) x hx
    · rw [hsame m hm] at hx
      rw [hpage m hm]
      exact hold m x hx

end Slots

/-! ### `kr_set_link` and `kr_delete_entry` -/

/-- An inode that an entry may point to. -/
structure LinkTarget.Valid (g : DirGeom) (inode : LinkTarget) : Prop where
  pos : inode.iIno ≠ 0
  count : inode.iIno ≤ g.sInodesCount

/-- What a new entry for an inode is bound to. -/
def LinkTarget.value (g : DirGeom) (inode : LinkTarget) : Nat × UInt8 :=
  (inode.iIno, deTypeOf g inode.iMode)

section Calls

variable {g : DirGeom} {d : Dir} {n de len : Nat} {inode : LinkTarget} {env : ChunkEnv}
  {e : List UInt8 × (Nat × UInt8)} {new : Option (List UInt8 × (Nat × UInt8))} {keeps : Prop}

theorem commit_inside {pos : Nat} (h : pos + len ≤ d.iSize) :
    (krCommitChunk d pos len).iSize = d.iSize :=
  if_neg (by omega)

/-- A record of the directory ends before the end of the directory. -/
theorem Dir.LaidOut.inside (h : d.LaidOut g)
    (hmem : de ∈ pageRecords g (d.page n) (d.used g n)) :
    n * g.pageSize + (de + deRecLen g (d.page n) de) ≤ d.iSize := by
  have hend := ((h.records n).bounds hmem).2
  have hn := Dir.lt_pages.mp (h.page_lt hmem)
  have hused := Dir.used_end hn.le
  omega

/-- The records of a page are changed and the end of the directory stays. -/
theorem Dir.LaidOut.editPage (h : d.LaidOut g) (sectors : Nat) {p' : Nat → UInt8} {pos : Nat}
    (hend : pos + len ≤ d.iSize)
    (hedit : PageEdit g (d.page n) p' (d.used g n) (pageRecords g (d.page n) (d.used g n)) de new
      keeps) :
    d.Edit g (krCommitChunk { d.setPage n p' with iBlocks := sectors } pos len) (n, de) new 0
      keeps := by
  have hsame : (krCommitChunk { d.setPage n p' with iBlocks := sectors } pos len).iSize = d.iSize :=
    commit_inside hend
  have hused : ∀ m, Dir.used g (krCommitChunk { d.setPage n p' with iBlocks := sectors } pos len) m =
      d.used g m := by
    intro m
    unfold Dir.used
    rw [hsame]
  refine h.edit ?_ ?_ ?_ (fun m _ => hused m) rfl ?_
  · exact hsame.le
  · rw [hsame]
    exact h.chunks
  · intro m hm
    exact Function.update_of_ne hm _ _
  · rw [hused]
    have hpage : (krCommitChunk { d.setPage n p' with iBlocks := sectors } pos len).page n = p' := by
      simp [krCommitChunk, Dir.setPage]
    rw [hpage]
    exact hedit

/-- `kr_set_link` binds the name of a record to another inode. -/
theorem krSetLink_edit (env : ChunkEnv) (hcount : g.sInodesCount < 2 ^ 32) (h : d.LaidOut g)
    (hslot : d.slots g (n, de) = some e) (hinode : inode.Valid g) (henv : env.prepare = none) :
    (krSetLink g d n de inode env).ret = .done (.ok ()) ∧
      d.Edit g (krSetLink g d n de inode env).dir (n, de) (some (e.1, inode.value g)) 0
        True := by
  obtain ⟨hmem, -, rfl⟩ := Dir.slots_eq_some.mp hslot
  have hend := h.inside hmem
  unfold krSetLink
  rw [henv]
  refine ⟨rfl, h.editPage d.iBlocks ?_ (edit_set (h.records n) hmem hinode.pos hinode.count hcount)⟩
  omega

/-- `kr_delete_entry` takes a record out of use. -/
theorem krDeleteEntry_edit (env : ChunkEnv) (hchunk : g.chunkBits ≤ 16) (h : d.LaidOut g)
    (hmem : de ∈ pageRecords g (d.page n) (d.used g n)) (henv : env.prepare = none) :
    (krDeleteEntry g d n de env).ret = .done (match env.commit with
        | some err => .error err
        | none => .ok ()) ∧
      d.Edit g (krDeleteEntry g d n de env).dir (n, de) none 0 True := by
  have htiled := h.records n
  have hend := h.inside hmem
  have hstart : de / g.chunkSize * g.chunkSize ≤ de := Nat.div_mul_le_self _ _
  obtain ⟨xs, ys, zs, hoffs, hys, heq⟩ := deleteWalk_eq (fun _ ok => ⟨ok.pos, ok.span⟩) htiled hmem
  unfold krDeleteEntry
  dsimp only
  rw [heq, henv]
  dsimp only
  refine ⟨rfl, ?_⟩
  cases hlast : ys.getLast? with
  | none =>
    refine h.editPage d.iBlocks ?_ (edit_clear htiled hmem)
    dsimp only [Option.getD]
    omega
  | some pde =>
    obtain ⟨us, rfl⟩ : ∃ us, ys = us ++ [pde] := List.getLast?_eq_some_iff.mp hlast
    have hin := hys.bounds (List.mem_append_right us (List.mem_singleton_self pde))
    have hpos := (hys.ok_of_mem (List.mem_append_right us (List.mem_singleton_self pde))).pos
    have hsame : pde / g.chunkSize = de / g.chunkSize := by
      have hleft : de / g.chunkSize * g.chunkSize / g.chunkSize ≤ pde / g.chunkSize :=
        Nat.div_le_div_right hin.1
      have hright : pde / g.chunkSize ≤ de / g.chunkSize := Nat.div_le_div_right (by omega)
      rw [Nat.mul_div_cancel _ g.chunkSize_pos] at hleft
      omega
    have hlist : pageRecords g (d.page n) (d.used g n) = (xs ++ us) ++ pde :: de :: zs := by
      rw [hoffs]
      simp
    rw [hlist] at htiled
    have hedit := edit_merge hchunk htiled hsame
    rw [← hlist] at hedit
    refine h.editPage d.iBlocks ?_ hedit
    dsimp only [Option.getD]
    omega

end Calls

/-! ### `kr_add_link` -/

/-- There is room for a record of `name` in the record at `de`. -/
def Room (g : DirGeom) (p : Nat → UInt8) (name : List UInt8) (de : Nat) : Prop :=
  (deInode p de = 0 ∧ krDirRecLen name.length ≤ deRecLen g p de % 2 ^ 16) ∨
    krDirRecLen (deNameLen p de) + krDirRecLen name.length ≤ deRecLen g p de % 2 ^ 16

theorem HasRoom.room {g : DirGeom} {p : Nat → UInt8} {name : List UInt8} {de recLen nameLen : Nat}
    (h : HasRoom g p name de recLen nameLen) : Room g p name de := by
  have hfits := h.fits
  rw [h.recLen_eq, h.nameLen_eq] at hfits
  exact hfits

/-- The scan goes on from the record at `de`: there is no room, and the length is kept
in 16 bits. -/
def Skips (g : DirGeom) (p : Nat → UInt8) (name : List UInt8) (de : Nat) : Prop :=
  ¬ Room g p name de ∧ deRecLen g p de % 2 ^ 16 ≠ 0

/-- The scan has passed all records before place `(n, de)`. -/
def Dir.Passed (g : DirGeom) (d : Dir) (name : List UInt8) (n de : Nat) : Prop :=
  ∀ m x, (m < n ∨ (m = n ∧ x < de)) → x ∈ pageRecords g (d.page m) (d.used g m) →
    Skips g (d.page m) name x

/-- No record of the directory has room for `name`, and the scan passes all of them. -/
def Dir.Full (g : DirGeom) (d : Dir) (name : List UInt8) : Prop :=
  ∀ m, ∀ x ∈ pageRecords g (d.page m) (d.used g m), Skips g (d.page m) name x

/-- How `kr_add_link` goes on when all pages are in order. -/
inductive AddOutcome (g : DirGeom) (d : Dir) (name : List UInt8) (inode : LinkTarget)
    (env : ChunkEnv) (c : DirCall) : Prop
  | fresh (n : Nat) (scans : List Scan) (hn : n * g.pageSize ≤ d.iSize)
      (hread : d.readable n = true) (hroom : d.used g n + krDirRecLen name.length ≤ g.pageSize)
      (hfull : d.Full g name)
      (heq : c = addLinkAt g d name inode env n (d.used g n) (g.chunkSize % 2 ^ 16) 0
        [⟨d.used g n + 4, digits 2 (krRecLenToDisk g g.chunkSize)⟩, ⟨d.used g n, digits 4 0⟩] scans)
  | room (n de recLen nameLen : Nat) (scans : List Scan)
      (hmem : de ∈ pageRecords g (d.page n) (d.used g n))
      (hroom : HasRoom g (d.page n) name de recLen nameLen) (hpassed : d.Passed g name n de)
      (heq : c = addLinkAt g d name inode env n de recLen nameLen [] scans)
  | found (n de : Nat) (hmem : de ∈ pageRecords g (d.page n) (d.used g n))
      (hmatch : krMatch name (d.page n) de = true) (hdir : c.dir = d)
      (hret : c.ret = .done (.error .eexist))
  | loops (n de : Nat) (hmem : de ∈ pageRecords g (d.page n) (d.used g n))
      (hlen : deRecLen g (d.page n) de % 2 ^ 16 = 0) (hpassed : d.Passed g name n de)
      (hdir : c.dir = d) (hret : c.ret = .running)
  | unread (hread : d.readable (d.pages g) = false) (hfull : d.Full g name) (hdir : c.dir = d)
      (hret : c.ret = .done (.error .eio))

section AddScan

variable {g : DirGeom} {d : Dir} {n a b de : Nat} {p : Nat → UInt8} {name : List UInt8}
  {inode : LinkTarget} {env : ChunkEnv} {scans : List Scan} {offs : List Nat}

/-- What the loop has seen when it stops in a page. -/
def AddStop (g : DirGeom) (p : Nat → UInt8) (name : List UInt8) (b : Nat) (offs : List Nat) :
    AddScan → Prop
  | .fresh de => de = b ∧ b + krDirRecLen name.length ≤ g.pageSize ∧ ∀ x ∈ offs, Skips g p name x
  | .room de recLen nameLen => de ∈ offs ∧ HasRoom g p name de recLen nameLen ∧
      ∀ x ∈ offs, x < de → Skips g p name x
  | .found de => de ∈ offs ∧ krMatch name p de = true
  | .zero _ => False
  | .loops de => de ∈ offs ∧ deRecLen g p de % 2 ^ 16 = 0 ∧ ∀ x ∈ offs, x < de → Skips g p name x
  | .past => ∀ x ∈ offs, Skips g p name x

theorem addList_stop (hname : name.length ≤ 255) (h : PageTiled g p a b offs)
    (hb : b ≤ g.pageSize) :
    AddStop g p name b offs (addList g name p b offs).2 := by
  induction h with
  | nil b =>
    rw [addList]
    by_cases hroom : b + krDirRecLen name.length ≤ g.pageSize
    · rw [if_pos hroom]
      exact ⟨rfl, hroom, fun x hx => absurd hx List.not_mem_nil⟩
    · rw [if_neg hroom]
      exact fun x hx => absurd hx List.not_mem_nil
  | @cons a b offs ok rest ih =>
    have hfirst : ∀ x ∈ a :: offs, x < a → Skips g p name x := by
      intro x hx hlt
      rcases List.mem_cons.mp hx with rfl | hx
      · omega
      · have := (rest.bounds hx).1
        omega
    rw [addList]
    by_cases hpage : a + krDirRecLen name.length ≤ g.pageSize
    · rw [if_pos hpage]
      by_cases hmatch : krMatch name p a = true
      · rw [if_pos hmatch]
        exact ⟨List.mem_cons_self, hmatch⟩
      · rw [if_neg hmatch]
        dsimp only
        by_cases hroom : Room g p name a
        · have hfits := hroom
          unfold Room at hfits
          rw [if_pos hfits]
          exact ⟨List.mem_cons_self, ⟨rfl, rfl, hroom⟩, hfirst⟩
        · have hfits := hroom
          unfold Room at hfits
          rw [if_neg hfits]
          by_cases hzero : deRecLen g p a % 2 ^ 16 = 0
          · rw [if_pos hzero]
            exact ⟨List.mem_cons_self, hzero, hfirst⟩
          · rw [if_neg hzero]
            dsimp only
            have hrest := ih hb
            cases hstop : (addList g name p b offs).2 with
            | fresh de =>
              rw [hstop] at hrest
              exact ⟨hrest.1, hrest.2.1, List.forall_mem_cons.mpr ⟨⟨hroom, hzero⟩, hrest.2.2⟩⟩
            | room de recLen nameLen =>
              rw [hstop] at hrest
              obtain ⟨hmem, hfits, hbefore⟩ := hrest
              exact ⟨List.mem_cons_of_mem a hmem, hfits,
                List.forall_mem_cons.mpr ⟨fun _ => ⟨hroom, hzero⟩, hbefore⟩⟩
            | found de =>
              rw [hstop] at hrest
              exact ⟨List.mem_cons_of_mem a hrest.1, hrest.2⟩
            | zero de =>
              rw [hstop] at hrest
              exact hrest
            | loops de =>
              rw [hstop] at hrest
              obtain ⟨hmem, hlen, hbefore⟩ := hrest
              exact ⟨List.mem_cons_of_mem a hmem, hlen,
                List.forall_mem_cons.mpr ⟨fun _ => ⟨hroom, hzero⟩, hbefore⟩⟩
            | past =>
              rw [hstop] at hrest
              exact List.forall_mem_cons.mpr ⟨⟨hroom, hzero⟩, hrest⟩
    · -- the records from here on are too short
      rw [if_neg hpage]
      have hall := Tiled.cons ok rest
      intro x hx
      obtain ⟨hlow, hhigh⟩ := hall.bounds hx
      have hpos := (hall.ok_of_mem hx).pos
      have hmax := krDirRecLen_max hname
      have hmod : deRecLen g p x % 2 ^ 16 = deRecLen g p x := Nat.mod_eq_of_lt (by omega)
      refine ⟨fun hroom => ?_, by omega⟩
      unfold Room at hroom
      omega

theorem addPages_outcome (hok : d.Ok g)
    (hname : name.length ≤ 255) (k : Nat) (hk : d.pages g < n + k)
    (hn : n * g.pageSize ≤ d.iSize) (hpassed : d.Passed g name n 0) :
    AddOutcome g d name inode env (addPages g d name inode env (List.range' n k) scans) := by
  induction k generalizing n scans with
  | zero =>
    have hlt : d.pages g < n := by omega
    have hpos := g.pageSize_pos
    have hend : ¬ d.pages g < d.pages g := by omega
    rw [Dir.lt_pages] at hend
    have hmul := Nat.mul_le_mul_right g.pageSize (Nat.succ_le_of_lt hlt)
    rw [Nat.succ_mul] at hmul
    omega
  | succ k ih =>
    have hused := Dir.used_le g d n
    have hgood : krCheckPage g d n = none := by
      by_cases hlt : n < d.pages g
      · exact (hok.pages n hlt).2
      · rw [krCheckPage_eq_none hn, Dir.used_past hlt]
        exact ⟨Nat.dvd_zero _, [], Tiled.nil 0⟩
    have htiled : PageTiled g (d.page n) 0 (d.used g n) (pageRecords g (d.page n) (d.used g n)) :=
      (hok.laidOut.records n).tiled (hok.long n)
    have heq : addWalk g name (d.page n) (krLastByte g d n) 0 =
        addList g name (d.page n) (d.used g n) (pageRecords g (d.page n) (d.used g n)) := by
      rw [krLastByte_eq hok.size hn]
      exact addWalk_tiled htiled
    have hstop : AddStop g (d.page n) name (d.used g n)
        (pageRecords g (d.page n) (d.used g n))
        (addList g name (d.page n) (d.used g n) (pageRecords g (d.page n) (d.used g n))).2 :=
      addList_stop hname htiled hused
    have hbefore : ∀ m x, m < n → x ∈ pageRecords g (d.page m) (d.used g m) →
        Skips g (d.page m) name x := fun m x hm hx => hpassed m x (Or.inl hm) hx
    by_cases hread : d.readable n = true
    swap
    · -- only the page behind the last one may be missing
      have hend : ¬ n < d.pages g := fun hlt => hread (hok.pages n hlt).1
      have hpos := g.pageSize_pos
      have hlast : n = d.pages g := by
        by_contra hne
        have hlt : ¬ d.pages g < d.pages g := by omega
        rw [Dir.lt_pages] at hlt
        have hmul := Nat.mul_le_mul_right g.pageSize (show d.pages g + 1 ≤ n by omega)
        rw [Nat.succ_mul] at hmul
        omega
      have hget : krGetPage g d n = none := if_neg fun h => hread h.1
      rw [List.range'_succ, addPages, hget]
      refine .unread ?_ (fun m x hx => ?_) rfl rfl
      · rw [← hlast]
        exact Bool.not_eq_true _ ▸ hread
      · exact hbefore m x (hlast ▸ hok.laidOut.page_lt hx) hx
    have hget : krGetPage g d n = some (d.page n) := if_pos ⟨hread, hgood⟩
    rw [List.range'_succ, addPages, hget]
    dsimp only
    rw [heq]
    split
    · rename_i de hfresh
      rw [hfresh] at hstop
      obtain ⟨rfl, hroom, hpage⟩ := hstop
      refine .fresh n _ hn hread hroom ?_ rfl
      intro m x hx
      rcases Nat.lt_trichotomy m n with hm | rfl | hm
      · exact hbefore m x hm hx
      · exact hpage x hx
      · -- there are no records behind the page in which the directory ends
        have hlen := krDirRecLen_le name.length
        have hmul := Nat.mul_le_mul_right g.pageSize (Nat.succ_le_of_lt hm)
        have hend : d.used g n < g.pageSize := by omega
        have hlt := Dir.lt_pages.mp (hok.laidOut.page_lt hx)
        rw [Nat.succ_mul] at hmul
        unfold Dir.used at hend
        omega
    · rename_i de recLen nameLen hfits
      rw [hfits] at hstop
      obtain ⟨hmem, hroom, hfirst⟩ := hstop
      refine .room n de recLen nameLen _ hmem hroom ?_ rfl
      rintro m x (hm | ⟨rfl, hx⟩) hmem'
      · exact hbefore m x hm hmem'
      · exact hfirst x hmem' hx
    · rename_i de hfound
      rw [hfound] at hstop
      exact .found n de hstop.1 hstop.2 rfl rfl
    · rename_i de hzero
      rw [hzero] at hstop
      exact hstop.elim
    · rename_i de hloops
      rw [hloops] at hstop
      obtain ⟨hmem, hlen, hfirst⟩ := hstop
      refine .loops n de hmem hlen ?_ rfl rfl
      rintro m x (hm | ⟨rfl, hx⟩) hmem'
      · exact hbefore m x hm hmem'
      · exact hfirst x hmem' hx
    · rename_i hpast
      rw [hpast] at hstop
      have hgoodPage : GoodPage g d n (pageRecords g (d.page n) (d.used g n)) :=
        ⟨hn, hok.laidOut.used_dvd n, htiled⟩
      refine ih (by omega) (hgoodPage.past hname hpast) ?_
      rintro m x (hm | ⟨rfl, hx⟩) hmem
      · rcases Nat.lt_succ_iff_lt_or_eq.mp hm with hm | rfl
        · exact hbefore m x hm hmem
        · exact hstop x hmem
      · omega

theorem krAddLink_outcome (hok : d.Ok g) (hname : name.length ≤ 255) :
    AddOutcome g d name inode env (krAddLink g d name inode env) := by
  rw [krAddLink, List.range_eq_range']
  refine addPages_outcome hok hname _ (by omega) (by omega) ?_
  rintro m x (hm | ⟨-, hx⟩) <;> omega

/-! What the new record does to the slots -/

theorem Dir.LaidOut.not_slot (h : d.LaidOut g) {x : Nat}
    (hmem : de ∈ pageRecords g (d.page n) (d.used g n)) (hlow : de < x)
    (hhigh : x < de + deRecLen g (d.page n) de) : d.slots g (n, x) = none := by
  refine pageSlots_of_not_mem fun hx => ?_
  have htiled := h.records n
  obtain ⟨xs, ys, heq⟩ := List.append_of_mem hmem
  dsimp only at hx
  rw [heq] at hx htiled
  obtain ⟨hxs, -, hys⟩ := htiled.split
  rcases List.mem_append.mp hx with hx | hx
  · have := (hxs.bounds hx).2
    omega
  · rcases List.mem_cons.mp hx with rfl | hx
    · omega
    · have := (hys.bounds hx).1
      omega

theorem HasRoom.recLen_full {recLen nameLen : Nat} (h : HasRoom g p name de recLen nameLen) :
    recLen = deRecLen g p de := by
  have hmax := deRecLen_le g p de
  have hlen := krDirRecLen_le name.length
  rw [h.recLen_eq]
  apply Nat.mod_eq_of_lt
  by_contra hbig
  have hzero : recLen = 0 := by
    rw [h.recLen_eq]
    omega
  rcases h.fits with hfits | hfits <;> omega

/-- A record is put where there is room for it. -/
theorem addLinkAt_room (scans : List Scan) (hchunk : g.chunkBits ≤ 16) (hcount : g.sInodesCount < 2 ^ 32)
    (h : d.LaidOut g) (hmem : de ∈ pageRecords g (d.page n) (d.used g n)) {recLen nameLen : Nat}
    (hroom : HasRoom g (d.page n) name de recLen nameLen) (hnonempty : 1 ≤ name.length)
    (hname : name.length ≤ 255) (hinode : inode.Valid g) (henv : env.prepare = none) :
    (addLinkAt g d name inode env n de recLen nameLen [] scans).ret =
        .done (match env.commit with
          | some err => .error err
          | none => .ok ()) ∧
      ∃ place, d.slots g place = none ∧
        d.Edit g (addLinkAt g d name inode env n de recLen nameLen [] scans).dir place
          (some (name, inode.value g)) 0 (deInode (d.page n) de = 0 ∨ deNameLen (d.page n) de ≠ 0) := by
  have hfull := hroom.recLen_full
  have hneed := hroom.nameLen_eq
  have hend := h.inside hmem
  have hlen := krDirRecLen_le name.length
  have hnameLen := krDirRecLen_le (deNameLen (d.page n) de)
  have hcommit : n * g.pageSize + de + recLen ≤ d.iSize := by omega
  unfold addLinkAt
  rw [henv]
  refine ⟨rfl, ?_⟩
  by_cases hlive : deInode (d.page n) de = 0
  · have hfits : krDirRecLen name.length ≤ deRecLen g (d.page n) de := by
      rcases hroom.fits with hfits | hfits <;> omega
    refine ⟨(n, de), pageSlots_dead hlive, ?_⟩
    dsimp only [apply_nil]
    rw [if_neg (not_not.mpr hlive)]
    have hedit := h.editPage (d.iBlocks + env.sectors) hcommit (edit_reuse (h.records n)
      hmem hname hfits hinode.pos hinode.count hcount)
    exact ⟨hedit.laidOut, hedit.size, hedit.slots, fun _ => hedit.long trivial, hedit.readable⟩
  · have hfits : nameLen + krDirRecLen name.length ≤ recLen := by
      rcases hroom.fits with hfits | hfits
      · exact absurd hfits.1 hlive
      · exact hfits
    refine ⟨(n, de + nameLen), h.not_slot hmem (by omega) (by omega), ?_⟩
    dsimp only [apply_nil]
    rw [if_pos hlive]
    rw [hneed, hfull] at hfits
    rw [hfull] at hcommit
    rw [hneed, hfull]
    have hedit := h.editPage (d.iBlocks + env.sectors) hcommit (edit_split hchunk
      (h.records n) hmem hnonempty hname hfits hinode.pos hinode.count hcount)
    exact ⟨hedit.laidOut, hedit.size, hedit.slots,
      fun hkeeps => hedit.long (hkeeps.resolve_left hlive), hedit.readable⟩

/-- The stores for a chunk of one record. -/
def freshStores (g : DirGeom) (name : List UInt8) (inode : LinkTarget) (b : Nat) : List Store :=
  [⟨b + 4, digits 2 (krRecLenToDisk g g.chunkSize)⟩, ⟨b, digits 4 0⟩] ++ entryStores g name inode b

theorem addLinkAt_fresh_call (g : DirGeom) (d : Dir) (name : List UInt8) (inode : LinkTarget)
    (n b : Nat) (scans : List Scan) (recLen : Nat) (henv : env.prepare = none) :
    let c := addLinkAt g d name inode env n b recLen 0
      [⟨b + 4, digits 2 (krRecLenToDisk g g.chunkSize)⟩, ⟨b, digits 4 0⟩] scans
    c.ret = .done (match env.commit with
        | some err => .error err
        | none => .ok ()) ∧
      c.dir = krCommitChunk { d.setPage n (apply (d.page n) (freshStores g name inode b)) with
        iBlocks := d.iBlocks + env.sectors } (n * g.pageSize + b) recLen := by
  intro c
  have hzero : deInode (apply (d.page n) [⟨b + 4, digits 2 (krRecLenToDisk g g.chunkSize)⟩,
      ⟨b, digits 4 0⟩]) b = 0 := by
    unfold deInode
    rw [apply_cons, apply_cons, apply_nil, load_store_self (by simp), value_digits_zero]
  constructor
  · cases hcommit : env.commit with
    | none => simp [c, addLinkAt, henv, hcommit]
    | some err => simp [c, addLinkAt, henv, hcommit]
  · simp only [c]
    unfold addLinkAt freshStores
    rw [henv]
    dsimp only
    rw [if_neg (not_not.mpr hzero), ← apply_append]

/-- A record is put into a chunk behind the end of the directory. -/
theorem addLinkAt_fresh (scans : List Scan) (hchunk : g.chunkBits ≤ 15) (hcount : g.sInodesCount < 2 ^ 32)
    (h : d.LaidOut g) (hn : n * g.pageSize ≤ d.iSize)
    (hb : d.used g n = b) (hroom : b + krDirRecLen name.length ≤ g.pageSize)
    (hname : name.length ≤ 255) (hinode : inode.Valid g) (henv : env.prepare = none) :
    let c := addLinkAt g d name inode env n b (g.chunkSize % 2 ^ 16) 0
      [⟨b + 4, digits 2 (krRecLenToDisk g g.chunkSize)⟩, ⟨b, digits 4 0⟩] scans
    c.ret = .done (match env.commit with
        | some err => .error err
        | none => .ok ()) ∧
      d.slots g (n, b) = none ∧ d.Edit g c.dir (n, b) (some (name, inode.value g))
        g.chunkSize True := by
  intro c
  have hhalf := DirGeom.chunkSize_le_half hchunk
  have hmod : g.chunkSize % 2 ^ 16 = g.chunkSize := Nat.mod_eq_of_lt (by omega)
  have hlen := krDirRecLen_le name.length
  have hpos := g.chunkSize_pos
  have hend : n * g.pageSize + b = d.iSize := by
    have hmin : b = min g.pageSize (d.iSize - n * g.pageSize) := hb.symm
    omega
  have hnone : d.slots g (n, b) = none := by
    refine pageSlots_of_not_mem fun hmem => ?_
    have hbounds := (h.records n).bounds hmem
    have hlenPos := ((h.records n).ok_of_mem hmem).pos
    dsimp only at hbounds hlenPos
    omega
  obtain ⟨hret, hdir⟩ := addLinkAt_fresh_call g d name inode n b scans (g.chunkSize % 2 ^ 16) henv
  change c.dir = _ at hdir
  rw [hmod] at hdir
  have hsize' : c.dir.iSize = d.iSize + g.chunkSize := by
    rw [hdir]
    have hlt : d.iSize < n * g.pageSize + b + g.chunkSize := by omega
    exact (if_pos hlt).trans (by omega)
  have hpage : c.dir.page n = apply (d.page n) (freshStores g name inode b) := by
    rw [hdir]
    simp [krCommitChunk, Dir.setPage]
  have hother : ∀ m, m ≠ n → c.dir.page m = d.page m := by
    intro m hm
    rw [hdir]
    exact Function.update_of_ne hm _ _
  -- there is room for the whole chunk in the page
  have hnext : b + g.chunkSize ≤ g.pageSize := by
    obtain ⟨k, hk⟩ := h.used_dvd n
    rw [hb] at hk
    obtain ⟨m, hm⟩ := g.chunkSize_dvd
    have hlt : g.chunkSize * k < g.chunkSize * m := by
      rw [← hk, ← hm]
      omega
    have hle := Nat.mul_le_mul_left g.chunkSize (Nat.succ_le_of_lt (Nat.lt_of_mul_lt_mul_left hlt))
    rw [Nat.mul_succ, ← hk, ← hm] at hle
    exact hle
  have hused : c.dir.used g n = b + g.chunkSize := by
    unfold Dir.used
    rw [hsize']
    omega
  have husedOther : ∀ m, m ≠ n → c.dir.used g m = d.used g m := by
    intro m hm
    unfold Dir.used
    rw [hsize']
    rcases Nat.lt_or_gt_of_ne hm with hlt | hgt
    · have hmul := Nat.mul_le_mul_right g.pageSize (Nat.succ_le_of_lt hlt)
      rw [Nat.succ_mul] at hmul
      omega
    · have hmul := Nat.mul_le_mul_right g.pageSize (Nat.succ_le_of_lt hgt)
      rw [Nat.succ_mul] at hmul
      omega
  refine ⟨hret, hnone, h.edit hsize'.le ?_ hother husedOther (by rw [hdir]; rfl) ?_⟩
  · rw [hsize']
    exact Nat.dvd_add h.chunks (Nat.dvd_refl _)
  · have hpages := h.records n
    have hdvd := h.used_dvd n
    rw [hb] at hpages hdvd ⊢
    rw [hpage, hused]
    exact edit_fresh (by omega) hpages hdvd hname hinode.pos hinode.count hcount

/-- What lies behind the end of a directory does not matter to its records. -/
theorem Dir.LaidOut.records_congr (h : d.LaidOut g) {d' : Dir} (hsize : d'.iSize = d.iSize)
    (hbytes : ∀ m i, i < d.used g m → d'.page m i = d.page m i) (m : Nat) :
    d'.used g m = d.used g m ∧
      PageFits g (d'.page m) 0 (d.used g m) (pageRecords g (d.page m) (d.used g m)) ∧
      ∀ x ∈ pageRecords g (d.page m) (d.used g m),
        deRecLen g (d'.page m) x = deRecLen g (d.page m) x ∧
          entryAt (d'.page m) x = entryAt (d.page m) x := by
  refine ⟨?_, PageFits.congr (h.records m) fun i _ hi => hbytes m i hi⟩
  unfold Dir.used
  rw [hsize]

theorem Dir.LaidOut.congr (h : d.LaidOut g) {d' : Dir} (hsize : d'.iSize = d.iSize)
    (hbytes : ∀ m i, i < d.used g m → d'.page m i = d.page m i) :
    d'.LaidOut g ∧ d'.slots g = d.slots g := by
  have hkept := h.records_congr hsize hbytes
  refine ⟨⟨?_, fun m => ?_⟩, ?_⟩
  · rw [hsize]
    exact h.chunks
  · rw [(hkept m).1]
    exact ⟨_, (hkept m).2.1⟩
  · funext ⟨m, x⟩
    unfold Dir.slots
    dsimp only
    rw [(hkept m).1, (hkept m).2.1.records]
    exact pageSlots_congr fun x hx => ((hkept m).2.2 x hx).2

/-- Without a buffer for the new chunk, only bytes behind the end of the directory change. -/
theorem addLinkAt_unprepared (g : DirGeom) (d : Dir) (name : List UInt8) (inode : LinkTarget)
    {err : Errno} (henv : env.prepare = some err) (n recLen nameLen len : Nat) (scans : List Scan) :
    let d' := (addLinkAt g d name inode env n (d.used g n) recLen nameLen
      [⟨d.used g n + 4, digits 2 len⟩, ⟨d.used g n, digits 4 0⟩] scans).dir
    d'.iSize = d.iSize ∧ d'.iVersion = d.iVersion ∧
      ∀ m i, i < d.used g m → d'.page m i = d.page m i := by
  unfold addLinkAt
  rw [henv]
  refine ⟨rfl, rfl, fun m i hi => ?_⟩
  by_cases hm : m = n
  · subst hm
    simp only [Dir.setPage, Function.update_self]
    refine apply_outside ?_
    simp only [List.forall_mem_cons]
    exact ⟨by omega, by omega, by simp⟩
  · exact congrFun (Function.update_of_ne hm _ _) i

/-- In chunks of 64 KiB the length of the new chunk is 0 where it is used: the directory
does not grow, and what is written lies behind its end. -/
theorem addLinkAt_lost (name : List UInt8) (inode : LinkTarget) (scans : List Scan) (hchunk : g.chunkBits = 16) (h : d.LaidOut g)
    (hb : d.used g n = b) (hn : n * g.pageSize ≤ d.iSize)
    (henv : env.prepare = none) :
    let c := addLinkAt g d name inode env n b (g.chunkSize % 2 ^ 16) 0
      [⟨b + 4, digits 2 (krRecLenToDisk g g.chunkSize)⟩, ⟨b, digits 4 0⟩] scans
    c.ret = .done (match env.commit with
        | some err => .error err
        | none => .ok ()) ∧
      c.dir.LaidOut g ∧ c.dir.slots g = d.slots g := by
  intro c
  have hmod : g.chunkSize % 2 ^ 16 = 0 := by
    unfold DirGeom.chunkSize
    rw [hchunk]
    exact Nat.mod_self _
  have hend : n * g.pageSize + b ≤ d.iSize := by
    rw [← hb]
    exact Dir.used_end hn
  obtain ⟨hret, hdir⟩ := addLinkAt_fresh_call g d name inode n b scans (g.chunkSize % 2 ^ 16) henv
  change c.dir = _ at hdir
  rw [hmod] at hdir
  have hsize : c.dir.iSize = d.iSize := by
    rw [hdir]
    exact commit_inside hend
  have hbytes : ∀ m i, i < d.used g m → c.dir.page m i = d.page m i := by
    intro m i hi
    rw [hdir]
    by_cases hm : m = n
    · subst hm
      rw [hb] at hi
      have hpage : (krCommitChunk { d.setPage m (apply (d.page m) (freshStores g name inode b)) with
          iBlocks := d.iBlocks + env.sectors } (m * g.pageSize + b) 0).page m =
          apply (d.page m) (freshStores g name inode b) := by
        simp [krCommitChunk, Dir.setPage]
      rw [hpage]
      refine apply_outside ?_
      simp only [freshStores, entryStores, List.forall_mem_append, List.forall_mem_cons]
      refine ⟨⟨by omega, by omega, by simp⟩, by omega, by omega, by omega, by omega, by simp⟩
    · exact congrFun (Function.update_of_ne hm _ _) i
  obtain ⟨hlaid, hslots⟩ := h.congr hsize hbytes
  exact ⟨hret, hlaid, hslots⟩

end AddScan

end KrFs
