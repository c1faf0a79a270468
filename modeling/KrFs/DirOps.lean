import KrFs.DirMap

/-!
# Runs of directory operations

`kr_make_empty`, `kr_add_link`, `kr_delete_entry` and `kr_set_link` against the map of
a directory, one after another in any order. A directory in order stays so, unless
`kr_add_link` puts a name into the slack of a record in use that has no name: that
record is cut down to 8 bytes, which `kr_check_page` does not accept.
-/

namespace KrFs

open Bytes Tiling

/-- A directory in order: all pages are read and accepted, and no name is twice in it. -/
structure Dir.Good (g : DirGeom) (d : Dir) : Prop where
  ok : d.Ok g
  readable : ∀ n, d.readable n = true
  distinct : Slots.Distinct (d.slots g)

/-- The first record with room for `name` is in use and has no name. -/
def Dir.NamelessFirst (g : DirGeom) (d : Dir) (name : List UInt8) : Prop :=
  ∃ n de v, d.slots g (n, de) = some ([], v) ∧ Room g (d.page n) name de ∧ d.Passed g name n de

section Steps

variable {g : DirGeom} {d d' : Dir} {name : List UInt8} {inode : LinkTarget} {env : ChunkEnv}
  {place : Nat × Nat} {n de : Nat} {v : Nat × UInt8}

theorem Dir.Good.lookup_some (h : d.Good g) :
    d.map g name = some v ↔ ∃ place, d.slots g place = some (name, v) :=
  Slots.lookup_eq_some h.distinct

/-- `kr_add_link` of a name that is not there makes an entry, but for chunks of 64 KiB:
there it may stay at a record of a whole chunk for ever, and in a full directory it
returns 0 and has made no entry. -/
theorem krAddLink_cases (hchunk : g.chunkBits ≤ 16) (hcount : g.sInodesCount < 2 ^ 32)
    (h : d.Good g) (hnonempty : 1 ≤ name.length) (hname : name.length ≤ 255)
    (hnew : d.map g name = none) (hinode : inode.Valid g) (hprepare : env.prepare = none)
    (hcommit : env.commit = none) :
    (g.chunkBits = 16 ∧ ¬ d.Full g name ∧ (krAddLink g d name inode env).ret = .running) ∨
    (g.chunkBits = 16 ∧ d.Full g name ∧ (krAddLink g d name inode env).ret = .done (.ok ()) ∧
      (krAddLink g d name inode env).dir.LaidOut g ∧
      (krAddLink g d name inode env).dir.slots g = d.slots g) ∨
    ((g.chunkBits = 16 → ¬ d.Full g name) ∧ (krAddLink g d name inode env).ret = .done (.ok ()) ∧
      ∃ place keeps, d.slots g place = none ∧ (¬ d.NamelessFirst g name → keeps) ∧
        d.Edit g (krAddLink g d name inode env).dir place (some (name, inode.value g))
          g.chunkSize keeps) := by
  have hlaid := h.ok.laidOut
  have houtcome : AddOutcome g d name inode env (krAddLink g d name inode env) :=
    krAddLink_outcome h.ok hname
  cases houtcome with
  | fresh n scans hn hread hroom hfull heq =>
    right
    rw [heq]
    by_cases hbits : g.chunkBits = 16
    · obtain ⟨hret, hlaid', hslots⟩ :=
        addLinkAt_lost name inode scans hbits hlaid rfl hn hprepare
      rw [hcommit] at hret
      exact Or.inl ⟨hbits, hfull, hret, hlaid', hslots⟩
    · obtain ⟨hret, hnone, hedit⟩ :=
        addLinkAt_fresh scans (by omega) hcount hlaid hn rfl hroom hname hinode hprepare
      rw [hcommit] at hret
      exact Or.inr ⟨fun h => absurd h hbits, hret, _, True, hnone, fun _ => trivial, hedit⟩
  | room n de recLen nameLen scans hmem hroom hpassed heq =>
    obtain ⟨hret, place, hnone, hedit⟩ := addLinkAt_room scans hchunk hcount hlaid hmem hroom hnonempty
      hname hinode hprepare
    rw [hcommit] at hret
    rw [heq]
    refine Or.inr (Or.inr ⟨fun _ hfull => (hfull n de hmem).1 hroom.room, hret, place, _, hnone, ?_,
      hedit.laidOut, hedit.size.trans (by omega), hedit.slots, hedit.long, hedit.readable⟩)
    intro hfirst
    by_contra hno
    rw [not_or, not_not] at hno
    obtain ⟨hlive, hzero⟩ := hno
    have hempty : deName (d.page n) de = [] := List.length_eq_zero_iff.mp ((length_deName _ _).trans hzero)
    have hslot : d.slots g (n, de) = some ([], (entryAt (d.page n) de).2) :=
      Dir.slots_eq_some.mpr ⟨hmem, hlive, Prod.ext hempty rfl⟩
    exact hfirst ⟨n, de, _, hslot, hroom.room, hpassed⟩
  | found n de hmem hmatch hdir hret =>
    obtain ⟨hlive, heq⟩ := krMatch_iff.mp hmatch
    have hslot : d.slots g (n, de) = some (name, (entryAt (d.page n) de).2) :=
      Dir.slots_eq_some.mpr ⟨hmem, hlive, Prod.ext heq rfl⟩
    exact absurd hslot (Slots.lookup_eq_none.mp hnew _ _)
  | unread hread hfull hdir hret =>
    rw [h.readable] at hread
    cases hread
  | loops n de hmem hlen hpassed hdir hret =>
    have htiled := (hlaid.records n).ok_of_mem hmem
    have hpos := htiled.pos
    have hle := sub_le_chunk g htiled.span
    have hbits : g.chunkBits = 16 := by
      by_contra hne
      have hhalf := DirGeom.chunkSize_le_half (show g.chunkBits ≤ 15 by omega)
      omega
    exact Or.inl ⟨hbits, fun hfull => (hfull n de hmem).2 hlen, hret⟩

theorem krAddLink_edit (hchunk : g.chunkBits ≤ 15) (hcount : g.sInodesCount < 2 ^ 32)
    (h : d.Good g) (hnonempty : 1 ≤ name.length) (hname : name.length ≤ 255)
    (hnew : d.map g name = none) (hinode : inode.Valid g) (hprepare : env.prepare = none)
    (hcommit : env.commit = none) :
    (krAddLink g d name inode env).ret = .done (.ok ()) ∧ ∃ place keeps,
      d.slots g place = none ∧ (¬ d.NamelessFirst g name → keeps) ∧
      d.Edit g (krAddLink g d name inode env).dir place (some (name, inode.value g))
        g.chunkSize keeps := by
  rcases krAddLink_cases (by omega) hcount h hnonempty hname hnew hinode hprepare hcommit with
    ⟨hbits, -⟩ | ⟨hbits, -⟩ | ⟨-, hret, hedit⟩
  · omega
  · omega
  · exact ⟨hret, hedit⟩

/-- An edit that puts a name where it is, or where nothing is. -/
theorem Dir.Edit.put {fresh : Nat} {keeps : Prop} (h : Slots.Distinct (d.slots g))
    (hedit : d.Edit g d' place (some (name, v)) fresh keeps)
    (hplace : ∀ name' w, d.slots g place = some (name', w) → name' = name)
    (hkey : ∀ place' w, d.slots g place' = some (name, w) → place' = place) :
    Slots.Distinct (d'.slots g) ∧ d'.map g = Function.update (d.map g) name (some v) := by
  unfold Dir.map
  rw [hedit.slots]
  exact ⟨h.put hkey, Slots.lookup_put h hplace hkey⟩

theorem Dir.Edit.remove {fresh : Nat} {keeps : Prop} (h : Slots.Distinct (d.slots g))
    (hedit : d.Edit g d' place none fresh keeps) (hslot : d.slots g place = some (name, v)) :
    Slots.Distinct (d'.slots g) ∧ d'.map g = Function.update (d.map g) name none := by
  unfold Dir.map
  rw [hedit.slots]
  exact ⟨h.remove, Slots.lookup_remove h hslot⟩

theorem Dir.Edit.good {new : Option (List UInt8 × (Nat × UInt8))} {fresh : Nat} {keeps : Prop}
    (h : d.Good g) (hedit : d.Edit g d' place new fresh keeps) (hsize : d.iSize + fresh < 2 ^ 32)
    (hkeeps : keeps) (hdistinct : Slots.Distinct (d'.slots g)) : d'.Good g := by
  have hread : ∀ n, d'.readable n = true := by
    rw [hedit.readable]
    exact h.readable
  have hsize' := hedit.size
  exact ⟨hedit.laidOut.ok (by omega) (hedit.long hkeeps h.ok.long) hread, hread, hdistinct⟩

end Steps

/-! ### Operations -/

/-- The calls that change a directory. -/
inductive DirOp where
  | add (name : List UInt8) (inode : LinkTarget) (env : ChunkEnv)
  | delete (name : List UInt8) (env : ChunkEnv)
  | set (name : List UInt8) (inode : LinkTarget) (env : ChunkEnv)

/-- What happens: an entry is looked for before it is deleted or set. -/
def DirOp.call (g : DirGeom) (d : Dir) : DirOp → DirCall
  | .add name inode env => krAddLink g d name inode env
  | .delete name env =>
    match krFindEntry g d name with
    | (some (n, de), d', _) => krDeleteEntry g d' n de env
    | (none, d', scans) => ⟨.done (.error .enoent), d', scans, none⟩
  | .set name inode env =>
    match krFindEntry g d name with
    | (some (n, de), d', _) => krSetLink g d' n de inode env
    | (none, d', scans) => ⟨.done (.error .enoent), d', scans, none⟩

/-- The call may be made: names have 1 to 255 bytes, a name that is added is new and
one that is deleted or set is found, the directory stays below 4 GiB, and the buffers
are had and written. -/
def DirOp.Ready (g : DirGeom) (d : Dir) : DirOp → Prop
  | .add name inode env => (1 ≤ name.length ∧ name.length ≤ 255) ∧ d.map g name = none ∧
      inode.Valid g ∧ d.iSize + g.chunkSize < 2 ^ 32 ∧ env.prepare = none ∧ env.commit = none
  | .delete name env => (1 ≤ name.length ∧ name.length ≤ 255) ∧ (krFindEntry g d name).1 ≠ none ∧
      env.prepare = none ∧ env.commit = none
  | .set name inode env => (1 ≤ name.length ∧ name.length ≤ 255) ∧ (krFindEntry g d name).1 ≠ none ∧
      inode.Valid g ∧ env.prepare = none ∧ env.commit = none

/-- What it does to the map. -/
def DirOp.effect (g : DirGeom) (m : List UInt8 → Option (Nat × UInt8)) :
    DirOp → List UInt8 → Option (Nat × UInt8)
  | .add name inode _ => Function.update m name (some (inode.value g))
  | .delete name _ => Function.update m name none
  | .set name inode _ => Function.update m name (some (inode.value g))

/-- It does not put a name into the slack of a record without one. -/
def DirOp.Named (g : DirGeom) (d : Dir) : DirOp → Prop
  | .add name _ _ => ¬ d.NamelessFirst g name
  | _ => True

section Ops

variable {g : DirGeom} {d d' : Dir}

/-- What a search that succeeds gives. -/
theorem krFindEntry_slot (h : d.Good g) {name : List UInt8} (hname : name.length ≤ 255)
    (hfound : (krFindEntry g d name).1 ≠ none) :
    ∃ n de scans v, krFindEntry g d name = (some (n, de), { d with iDirStartLookup := n }, scans) ∧
      d.slots g (n, de) = some (name, v) := by
  cases hresult : (krFindEntry g d name).1 with
  | none => exact absurd hresult hfound
  | some found =>
    obtain ⟨n, de⟩ := found
    obtain ⟨v, hv⟩ := h.ok.live_iff.mp (krFindEntry_some h.ok hname hresult)
    refine ⟨n, de, (krFindEntry g d name).2.2, v, ?_, hv⟩
    unfold krFindEntry at hresult ⊢
    dsimp only at hresult ⊢
    split at hresult
    · rename_i hpages
      rw [dif_pos hpages]
      split at hresult
      · rename_i heq
        cases hresult
        rfl
      · cases hresult
    · cases hresult

/-- Each call does to the map what it is for. -/
theorem DirOp.step (hchunk : g.chunkBits ≤ 15) (hcount : g.sInodesCount < 2 ^ 32) (h : d.Good g)
    (op : DirOp) (hready : op.Ready g d) :
    (op.call g d).ret = .done (.ok ()) ∧ (op.call g d).dir.map g = op.effect g (d.map g) ∧
      g.chunkSize ∣ (op.call g d).dir.iSize ∧ Slots.Distinct ((op.call g d).dir.slots g) ∧
      (op.Named g d → (op.call g d).dir.Good g) := by
  cases op with
  | add name inode env =>
    obtain ⟨⟨hnonempty, hname⟩, hnew, hinode, hsize, hprepare, hcommit⟩ := hready
    obtain ⟨hret, place, keeps, hnone, hkeeps, hedit⟩ :=
      krAddLink_edit hchunk hcount h hnonempty hname hnew hinode hprepare hcommit
    have hno := Slots.lookup_eq_none.mp hnew
    obtain ⟨hdistinct, hmap⟩ := hedit.put h.distinct
      (fun name' w hslot => by rw [hnone] at hslot; cases hslot)
      (fun place' w hslot => absurd hslot (hno place' w))
    exact ⟨hret, hmap, hedit.laidOut.chunks, hdistinct,
      fun hnamed => hedit.good h hsize (hkeeps hnamed) hdistinct⟩
  | delete name env =>
    obtain ⟨⟨-, hname⟩, hfound, hprepare, hcommit⟩ := hready
    obtain ⟨n, de, scans, v, heq, hslot⟩ := krFindEntry_slot h hname hfound
    obtain ⟨hmem, -, -⟩ := Dir.slots_eq_some.mp hslot
    have hlaid : ({ d with iDirStartLookup := n } : Dir).LaidOut g :=
      ⟨h.ok.chunks, h.ok.laidOut.pages⟩
    obtain ⟨hret, hlaid', hsize, hslots, hlong, hread⟩ :=
      krDeleteEntry_edit env (by omega) hlaid hmem hprepare
    have hedit : d.Edit g (krDeleteEntry g { d with iDirStartLookup := n } n de env).dir (n, de) none
      0 True := ⟨hlaid', hsize, hslots, hlong, hread⟩
    obtain ⟨hdistinct, hmap⟩ := hedit.remove h.distinct hslot
    have hcall : (DirOp.delete name env).call g d =
        krDeleteEntry g { d with iDirStartLookup := n } n de env := by
      simp only [DirOp.call, heq]
    rw [hcommit] at hret
    rw [hcall]
    exact ⟨hret, hmap, hlaid'.chunks, hdistinct, fun _ => hedit.good h h.ok.size trivial hdistinct⟩
  | set name inode env =>
    obtain ⟨⟨-, hname⟩, hfound, hinode, hprepare, hcommit⟩ := hready
    obtain ⟨n, de, scans, v, heq, hslot⟩ := krFindEntry_slot h hname hfound
    have hlaid : ({ d with iDirStartLookup := n } : Dir).LaidOut g :=
      ⟨h.ok.chunks, h.ok.laidOut.pages⟩
    obtain ⟨hret, hlaid', hsize, hslots, hlong, hread⟩ :=
      krSetLink_edit env hcount hlaid hslot hinode hprepare
    have hedit : d.Edit g (krSetLink g { d with iDirStartLookup := n } n de inode env).dir (n, de)
      (some (name, inode.value g)) 0 True := ⟨hlaid', hsize, hslots, hlong, hread⟩
    obtain ⟨hdistinct, hmap⟩ := hedit.put h.distinct
      (fun name' w hslot' => by rw [hslot] at hslot'; cases hslot'; rfl)
      (fun place' w hslot' => h.distinct _ _ _ _ _ hslot' hslot)
    have hcall : (DirOp.set name inode env).call g d =
        krSetLink g { d with iDirStartLookup := n } n de inode env := by
      simp only [DirOp.call, heq]
    rw [hcall]
    exact ⟨hret, hmap, hlaid'.chunks, hdistinct, fun _ => hedit.good h h.ok.size trivial hdistinct⟩

/-- Calls one after another. -/
inductive DirRun (g : DirGeom) : Dir → List DirOp → Dir → Prop
  | nil (d : Dir) : DirRun g d [] d
  | cons {d d' : Dir} {op : DirOp} {ops : List DirOp} (hready : op.Ready g d) (hnamed : op.Named g d)
      (rest : DirRun g (op.call g d).dir ops d') : DirRun g d (op :: ops) d'

theorem DirRun.good (hchunk : g.chunkBits ≤ 15) (hcount : g.sInodesCount < 2 ^ 32)
    {ops : List DirOp} (hrun : DirRun g d ops d') (h : d.Good g) :
    d'.Good g ∧ d'.map g = ops.foldl (DirOp.effect g) (d.map g) := by
  induction hrun with
  | nil d => exact ⟨h, rfl⟩
  | cons hready hnamed rest ih =>
    obtain ⟨-, hmap, -, -, hgood⟩ := DirOp.step hchunk hcount h _ hready
    obtain ⟨hgood', hmap'⟩ := ih (hgood hnamed)
    rw [List.foldl_cons, ← hmap]
    exact ⟨hgood', hmap'⟩

end Ops

/-! ### `kr_make_empty` -/

section MakeEmpty

variable {g : DirGeom} {d : Dir} {p : Nat → UInt8} {inode : LinkTarget} {parent : Nat}
  {env : ChunkEnv}

/-- The stores of `kr_make_empty`. -/
def emptyStores (g : DirGeom) (inode : LinkTarget) (parent : Nat) : List Store :=
  [⟨0, List.replicate g.chunkSize 0⟩, ⟨6, [1]⟩, ⟨4, digits 2 (krRecLenToDisk g 12)⟩,
    ⟨8, [46, 0, 0, 0]⟩, ⟨0, digits 4 inode.iIno⟩, ⟨7, [deTypeOf g inode.iMode]⟩,
    ⟨18, [2]⟩, ⟨16, digits 2 (krRecLenToDisk g (g.chunkSize - 12))⟩,
    ⟨12, digits 4 parent⟩, ⟨20, [46, 46, 0, 0]⟩, ⟨19, [deTypeOf g inode.iMode]⟩]

theorem load_single {m : Nat → UInt8} {off : Nat} {x : UInt8} (h : load m off 1 = [x]) :
    m off = x := by
  simpa [load] using h

/-- The first entry names the directory itself. -/
theorem emptyStores_self (p : Nat → UInt8) (parent : Nat) (hchunk : g.chunkBits ≤ 16) (hino : inode.iIno < 2 ^ 32) :
    let p' := apply p (emptyStores g inode parent)
    deRecLen g p' 0 = 12 ∧ deNameLen p' 0 = 1 ∧ entryAt p' 0 = ([46], inode.value g) := by
  intro p'
  have hmin := g.chunkSize_min
  have hloads : load p' 0 4 = digits 4 inode.iIno ∧ load p' 4 2 = digits 2 (krRecLenToDisk g 12) ∧
      load p' 6 1 = [1] ∧ load p' 7 1 = [deTypeOf g inode.iMode] ∧ load p' 8 4 = [46, 0, 0, 0] := by
    simp only [p', emptyStores, apply_cons, apply_nil]
    refine ⟨?_, ?_, ?_, ?_, ?_⟩
    all_goals simp (disch := simp) only [load_store_of_disjoint, load_store_self]
  obtain ⟨hino', hrec, hlen, htype, hname⟩ := hloads
  have hlen' : deNameLen p' 0 = 1 := congrArg UInt8.toNat (load_single hlen)
  have hdot : p' 8 = 46 := congrArg (fun bytes => bytes.getD 0 0) hname
  have hname' : deName p' 0 = [46] := deName_eq_one.mpr ⟨hlen', hdot⟩
  have htype' : deFileType p' 0 = deTypeOf g inode.iMode := load_single htype
  refine ⟨?_, hlen', ?_⟩
  · unfold deRecLen
    rw [hrec]
    exact krRecLen_chunk hchunk (by omega) (by decide)
  · have hword : inode.iIno % 256 ^ 4 = inode.iIno := Nat.mod_eq_of_lt (by omega)
    unfold entryAt deInode
    rw [hname', htype', hino', value_digits, hword]
    rfl

/-- The second one names the parent and fills the chunk. -/
theorem emptyStores_parent (p : Nat → UInt8) (inode : LinkTarget) (hchunk : g.chunkBits ≤ 16) (hparent : parent < 2 ^ 32) :
    let p' := apply p (emptyStores g inode parent)
    deRecLen g p' 12 = g.chunkSize - 12 ∧ deNameLen p' 12 = 2 ∧
      entryAt p' 12 = ([46, 46], parent, deTypeOf g inode.iMode) := by
  intro p'
  have hmin := g.chunkSize_min
  have hloads : load p' 12 4 = digits 4 parent ∧
      load p' 16 2 = digits 2 (krRecLenToDisk g (g.chunkSize - 12)) ∧
      load p' 18 1 = [2] ∧ load p' 19 1 = [deTypeOf g inode.iMode] ∧
      load p' 20 4 = [46, 46, 0, 0] := by
    simp only [p', emptyStores, apply_cons, apply_nil]
    refine ⟨?_, ?_, ?_, ?_, ?_⟩
    all_goals simp (disch := simp) only [load_store_of_disjoint, load_store_self]
  obtain ⟨hino', hrec, hlen, htype, hname⟩ := hloads
  have hlen' : deNameLen p' 12 = 2 := congrArg UInt8.toNat (load_single hlen)
  have hdot : p' 20 = 46 := congrArg (fun bytes => bytes.getD 0 0) hname
  have hdot' : p' 21 = 46 := congrArg (fun bytes => bytes.getD 1 0) hname
  have hname' : deName p' 12 = [46, 46] := deName_eq_two.mpr ⟨hlen', hdot, hdot'⟩
  have htype' : deFileType p' 12 = deTypeOf g inode.iMode := load_single htype
  have halign : 4 ∣ g.chunkSize - 12 := Nat.dvd_sub g.chunkSize_align (by decide)
  refine ⟨?_, hlen', ?_⟩
  · unfold deRecLen
    rw [hrec]
    exact krRecLen_chunk hchunk (by omega) halign
  · have hword : parent % 256 ^ 4 = parent := Nat.mod_eq_of_lt (by omega)
    unfold entryAt deInode
    rw [hname', htype', hino', value_digits, hword]

/-- The chunk holds these two records. -/
theorem emptyStores_fits (hchunk : g.chunkBits ≤ 16) (hcount : g.sInodesCount < 2 ^ 32)
    (hinode : inode.Valid g) (hparent : parent ≤ g.sInodesCount) :
    PageFits g (apply p (emptyStores g inode parent)) 0 g.chunkSize [0, 12] := by
  have hmin := g.chunkSize_min
  have hcountIno := hinode.count
  obtain ⟨hrec, hlen, hentry⟩ :=
    emptyStores_self p parent hchunk (show inode.iIno < 2 ^ 32 by omega)
  obtain ⟨hrec', hlen', hentry'⟩ :=
    emptyStores_parent p inode hchunk (show parent < 2 ^ 32 by omega)
  have hfirst : Fits g (apply p (emptyStores g inode parent)) 0 := by
    refine ⟨by rw [hrec]; decide, by rw [hlen, hrec]; decide, ?_, ?_⟩
    · rw [hrec, Nat.div_eq_of_lt (by omega), Nat.div_eq_of_lt (by omega)]
    · rw [deInode_of_entryAt hentry]
      exact hinode.count
  have hsecond : Fits g (apply p (emptyStores g inode parent)) 12 := by
    have hneed : krDirRecLen 2 = 12 := by decide
    refine ⟨?_, by rw [hlen', hrec', hneed]; omega, ?_, ?_⟩
    · rw [hrec']
      exact Nat.dvd_sub g.chunkSize_align (by decide)
    · rw [hrec', Nat.div_eq_of_lt (by omega), Nat.div_eq_of_lt (by omega)]
    · rw [deInode_of_entryAt hentry']
      exact hparent
  refine Tiled.cons hfirst ?_
  rw [hrec]
  refine Tiled.cons hsecond ?_
  have hend : 0 + 12 + deRecLen g (apply p (emptyStores g inode parent)) (0 + 12) = g.chunkSize := by
    rw [Nat.zero_add, hrec']
    omega
  rw [hend]
  exact Tiled.nil _

/-- A directory of one chunk. -/
theorem oneChunk {offs : List Nat} (hsize : d.iSize = g.chunkSize) (hchunk : g.chunkBits ≤ 16)
    (htiled : PageFits g (d.page 0) 0 g.chunkSize offs) :
    d.LaidOut g ∧ pageRecords g (d.page 0) (d.used g 0) = offs ∧
      ∀ n, n ≠ 0 → pageRecords g (d.page n) (d.used g n) = [] := by
  have hpow : g.chunkSize ≤ 2 ^ 16 := Nat.pow_le_pow_right (Nat.succ_pos 1) hchunk
  have hle := g.chunkSize_le
  have hused : d.used g 0 = g.chunkSize := by
    unfold Dir.used
    rw [hsize]
    omega
  have hunused : ∀ n, n ≠ 0 → d.used g n = 0 := by
    intro n hn
    have hmul := Nat.mul_le_mul_right g.pageSize (Nat.one_le_iff_ne_zero.mpr hn)
    unfold Dir.used
    rw [hsize]
    omega
  refine ⟨⟨by rw [hsize], fun n => ?_⟩, by rw [hused]; exact htiled.records, fun n hn => ?_⟩
  · by_cases hn : n = 0
    · rw [hn, hused]
      exact ⟨offs, htiled⟩
    · rw [hunused n hn]
      exact ⟨[], Tiled.nil 0⟩
  · rw [hunused n hn]
    exact PageFits.records (Tiled.nil 0)

/-- The map of two items with different keys. -/
theorem lookup_two (i j : Nat × Nat) (k k' : List UInt8) (v w : Nat × UInt8) (hij : i ≠ j)
    (hk : k ≠ k') :
    Slots.Distinct (Function.update (Function.update (fun _ => none) i (some (k, v))) j
        (some (k', w))) ∧
      Slots.lookup (Function.update (Function.update (fun _ => none) i (some (k, v))) j
        (some (k', w))) =
        Function.update (Function.update (fun _ => none) k (some v)) k' (some w) := by
  have hnothing : Slots.Distinct (fun _ : Nat × Nat => (none : Option (List UInt8 × (Nat × UInt8)))) :=
    fun i j k v w h => nomatch h
  have hnone : Slots.lookup (fun _ : Nat × Nat => (none : Option (List UInt8 × (Nat × UInt8)))) =
      fun _ => none := by
    funext k
    exact Slots.lookup_eq_none.mpr fun i v h => nomatch h
  have hone : Slots.Distinct (Function.update (fun _ => none) i (some (k, v))) :=
    hnothing.put fun j w h => nomatch h
  have hfree : ∀ j' w', Function.update (fun _ => none) i (some (k, v)) j' = some (k', w') → j' = j := by
    intro j' w' h
    rcases Slots.update_eq_some.mp h with ⟨-, h⟩ | ⟨-, h⟩
    · cases h
      exact absurd rfl hk
    · cases h
  have hplace : ∀ k'' w', Function.update (fun _ => none) i (some (k, v)) j = some (k'', w') →
      k'' = k' := by
    intro k'' w' h
    rw [Function.update_of_ne hij.symm] at h
    cases h
  refine ⟨hone.put hfree, ?_⟩
  rw [Slots.lookup_put hone hplace hfree,
    Slots.lookup_put hnothing (fun k' w h => nomatch h) (fun j w h => nomatch h), hnone]

/-- The records of a new directory. -/
theorem krMakeEmpty_slots (hchunk : g.chunkBits ≤ 16) (hcount : g.sInodesCount < 2 ^ 32)
    (hnew : d.iSize = 0) (hread : ∀ n, d.readable n = true) (hinode : inode.Valid g)
    (hparent : parent ≠ 0 ∧ parent ≤ g.sInodesCount) (hprepare : env.prepare = none)
    (hcommit : env.commit = none) :
    (krMakeEmpty g d inode parent env).ret = .done (.ok ()) ∧
      (krMakeEmpty g d inode parent env).dir.Ok g ∧
      (∀ n, (krMakeEmpty g d inode parent env).dir.readable n = true) ∧
      (krMakeEmpty g d inode parent env).dir.slots g =
        Function.update (Function.update (fun _ => none) (0, 0) (some ([46], inode.value g))) (0, 12)
          (some ([46, 46], parent, deTypeOf g inode.iMode)) := by
  have hmin := g.chunkSize_min
  have hpow : g.chunkSize ≤ 2 ^ 16 := Nat.pow_le_pow_right (Nat.succ_pos 1) hchunk
  have hcountIno := hinode.count
  have hfits := emptyStores_fits (p := d.page 0) hchunk hcount hinode hparent.2
  obtain ⟨hrec, -, hentry⟩ := emptyStores_self (d.page 0) parent hchunk
    (show inode.iIno < 2 ^ 32 by omega)
  obtain ⟨hrec', -, hentry'⟩ := emptyStores_parent (d.page 0) inode hchunk
    (show parent < 2 ^ 32 by omega)
  generalize hc : krMakeEmpty g d inode parent env = c
  obtain ⟨hret, hpage, hsize, hreadable⟩ : c.ret = .done (.ok ()) ∧
      c.dir.page 0 = apply (d.page 0) (emptyStores g inode parent) ∧ c.dir.iSize = g.chunkSize ∧
      c.dir.readable = d.readable := by
    rw [← hc]
    unfold krMakeEmpty
    rw [hprepare]
    dsimp only
    rw [hcommit]
    refine ⟨rfl, ?_, ?_, rfl⟩
    · simp [krCommitChunk, Dir.setPage, emptyStores, krDirRecLen_one]
    · have hlt : d.iSize < 0 + g.chunkSize := by omega
      exact (if_pos hlt).trans (Nat.zero_add _)
  rw [← hpage] at hfits hrec hentry hrec' hentry'
  obtain ⟨hlaid, hrecords, hempty⟩ := oneChunk hsize hchunk hfits
  have hlong : c.dir.Long g := by
    intro n x hx
    by_cases hn : n = 0
    · rw [hn, hrecords] at hx
      rw [hn]
      rcases List.mem_cons.mp hx with rfl | hx
      · omega
      · obtain rfl : x = 12 := by simpa using hx
        omega
    · rw [hempty n hn] at hx
      cases hx
  have hslots : c.dir.slots g = Function.update (Function.update (fun _ => none) (0, 0)
      (some ([46], inode.value g))) (0, 12) (some ([46, 46], parent, deTypeOf g inode.iMode)) := by
    funext place
    obtain ⟨n, x⟩ := place
    unfold Dir.slots
    dsimp only
    by_cases hn : n = 0
    · subst hn
      rw [hrecords]
      by_cases hx : x = 12
      · subst hx
        rw [Function.update_self, ← hentry']
        exact if_pos ⟨by simp, by rw [deInode_of_entryAt hentry']; exact hparent.1⟩
      · rw [Function.update_of_ne fun h => hx (congrArg Prod.snd h)]
        by_cases hx0 : x = 0
        · subst hx0
          rw [Function.update_self, ← hentry]
          exact if_pos ⟨by simp, by rw [deInode_of_entryAt hentry]; exact hinode.pos⟩
        · rw [Function.update_of_ne fun h => hx0 (congrArg Prod.snd h)]
          exact pageSlots_of_not_mem (by simp [hx, hx0])
    · rw [Function.update_of_ne fun h => hn (congrArg Prod.fst h),
        Function.update_of_ne fun h => hn (congrArg Prod.fst h), hempty n hn]
      exact pageSlots_of_not_mem (by simp)
  have hread' : ∀ n, c.dir.readable n = true := by
    rw [hreadable]
    exact hread
  exact ⟨hret, hlaid.ok (by omega) hlong hread', hread', hslots⟩

/-- A new directory has two entries. -/
theorem krMakeEmpty_edit (hchunk : g.chunkBits ≤ 16) (hcount : g.sInodesCount < 2 ^ 32)
    (hnew : d.iSize = 0) (hread : ∀ n, d.readable n = true) (hinode : inode.Valid g)
    (hparent : parent ≠ 0 ∧ parent ≤ g.sInodesCount) (hprepare : env.prepare = none)
    (hcommit : env.commit = none) :
    (krMakeEmpty g d inode parent env).ret = .done (.ok ()) ∧
      (krMakeEmpty g d inode parent env).dir.Good g ∧
      (krMakeEmpty g d inode parent env).dir.map g =
        Function.update (Function.update (fun _ => none) [46] (some (inode.value g))) [46, 46]
          (some (parent, deTypeOf g inode.iMode)) := by
  obtain ⟨hret, hok, hread', hslots⟩ :=
    krMakeEmpty_slots (d := d) hchunk hcount hnew hread hinode hparent hprepare hcommit
  obtain ⟨hdistinct, hmap⟩ := lookup_two (0, 0) (0, 12) [46] [46, 46] (inode.value g)
    (parent, deTypeOf g inode.iMode) (by decide) (by decide)
  rw [← hslots] at hdistinct hmap
  exact ⟨hret, ⟨hok, hread', hdistinct⟩, hmap⟩

end MakeEmpty

/-- `kr_make_empty`, `kr_add_link`, `kr_delete_entry` and `kr_set_link` do to the map of a
directory what they are for and return 0, and a run of them keeps the directory in
order if no name is put into the slack of a record in use that has none. -/
theorem dir_ops_run {g : DirGeom} (hchunk : g.chunkBits ≤ 15) (hcount : g.sInodesCount < 2 ^ 32) :
    (∀ (d : Dir) (inode : LinkTarget) (parent : Nat) (env : ChunkEnv), d.iSize = 0 →
      (∀ n, d.readable n = true) → inode.Valid g → parent ≠ 0 ∧ parent ≤ g.sInodesCount →
      env.prepare = none → env.commit = none →
      (krMakeEmpty g d inode parent env).ret = .done (.ok ()) ∧
        (krMakeEmpty g d inode parent env).dir.Good g ∧
        (krMakeEmpty g d inode parent env).dir.map g =
          Function.update (Function.update (fun _ => none) [46] (some (inode.value g))) [46, 46]
            (some (parent, deTypeOf g inode.iMode))) ∧
    (∀ (d : Dir) (op : DirOp), d.Good g → op.Ready g d →
      (op.call g d).ret = .done (.ok ()) ∧ (op.call g d).dir.map g = op.effect g (d.map g) ∧
        g.chunkSize ∣ (op.call g d).dir.iSize ∧ Slots.Distinct ((op.call g d).dir.slots g)) ∧
    (∀ (d d' : Dir) (ops : List DirOp), d.Good g → DirRun g d ops d' →
      d'.Good g ∧ g.chunkSize ∣ d'.iSize ∧ d'.map g = ops.foldl (DirOp.effect g) (d.map g)) := by
  refine ⟨?_, ?_, ?_⟩
  · intro d inode parent env hnew hread hinode hparent hprepare hcommit
    exact krMakeEmpty_edit (by omega) hcount hnew hread hinode hparent hprepare hcommit
  · intro d op hgood hready
    obtain ⟨hret, hmap, hdvd, hdistinct, -⟩ := DirOp.step hchunk hcount hgood op hready
    exact ⟨hret, hmap, hdvd, hdistinct⟩
  · intro d d' ops hgood hrun
    obtain ⟨hgood', hmap⟩ := hrun.good hchunk hcount hgood
    exact ⟨hgood', hgood'.ok.chunks, hmap⟩

theorem smallDir_good : smallDir.Good smallGeom ∧ smallDir.map smallGeom =
    Function.update (Function.update (fun _ => none) [46] (some (11, 2))) [46, 46] (some (2, 2)) :=
  (@krMakeEmpty_edit smallGeom ⟨11, 0, 0, 1, 0, fun _ _ => 0, fun _ => true⟩ ⟨11, 0x41ED⟩ 2
    ⟨none, 2, none⟩ (by decide) (by decide) rfl (fun _ => rfl) ⟨by decide, by decide⟩ (by decide)
    rfl rfl).2

/-- A file is linked into a new directory. -/
theorem dir_ops_run_small :
    let op : DirOp := .add [97] ⟨12, 0x81A4⟩ ⟨none, 0, none⟩
    DirRun smallGeom smallDir [op] (op.call smallGeom smallDir).dir ∧
      (op.call smallGeom smallDir).dir.Good smallGeom ∧
      (op.call smallGeom smallDir).dir.map smallGeom [97] = some (12, 1) := by
  intro op
  obtain ⟨hmake, -, hruns⟩ := dir_ops_run (g := smallGeom) (by decide) (by decide)
  obtain ⟨-, hgood, hmap⟩ := hmake ⟨11, 0, 0, 1, 0, fun _ _ => 0, fun _ => true⟩ ⟨11, 0x41ED⟩ 2
    ⟨none, 2, none⟩ rfl (fun _ => rfl) ⟨by decide, by decide⟩ (by decide) rfl rfl
  have hsmall : smallDir.map smallGeom = _ := hmap
  have hnew : smallDir.map smallGeom [97] = none := by
    rw [hsmall]
    rfl
  have hready : op.Ready smallGeom smallDir :=
    ⟨⟨by decide, by decide⟩, hnew, ⟨by decide, by decide⟩, by decide +kernel, rfl, rfl⟩
  have hnamed : op.Named smallGeom smallDir := by
    rintro ⟨n, de, v, hslot, -, -⟩
    have hempty : smallDir.map smallGeom [] = some v := hgood.lookup_some.mpr ⟨_, hslot⟩
    rw [hsmall] at hempty
    cases hempty
  have hrun : DirRun smallGeom smallDir [op] (op.call smallGeom smallDir).dir :=
    .cons hready hnamed (.nil _)
  obtain ⟨hgood', -, hmap'⟩ := hruns _ _ _ hgood hrun
  refine ⟨hrun, hgood', ?_⟩
  rw [hmap']
  exact Function.update_self ([97] : List UInt8) (some ((12, 1) : Nat × UInt8)) (smallDir.map smallGeom)

/-- A directory with one record, in use and without a name. -/
def namelessDir : Dir :=
  ⟨11, 1024, 2, 1, 0, fun _ => Bytes.apply (fun _ => 0) [⟨0, [11, 0, 0, 0, 0, 4, 0, 2]⟩], fun _ => true⟩

theorem namelessDir_good : namelessDir.Good smallGeom := by
  have hpages : namelessDir.pages smallGeom = 1 := by decide +kernel
  have hok : namelessDir.Ok smallGeom := by
    refine ⟨by decide +kernel, fun n hn => ?_⟩
    obtain rfl : n = 0 := by omega
    exact ⟨rfl, by decide +kernel⟩
  have hplace : ∀ n de e, namelessDir.slots smallGeom (n, de) = some e → n = 0 ∧ de = 0 := by
    intro n de e h
    obtain ⟨hmem, -, -⟩ := Dir.slots_eq_some.mp h
    have hn := hok.laidOut.page_lt hmem
    obtain rfl : n = 0 := by omega
    have hrecords : pageRecords smallGeom (namelessDir.page 0) (namelessDir.used smallGeom 0) = [0] := by
      decide +kernel
    rw [hrecords] at hmem
    exact ⟨rfl, by simpa using hmem⟩
  refine ⟨hok, fun _ => rfl, ?_⟩
  rintro ⟨n, de⟩ ⟨n', de'⟩ k v w h h'
  obtain ⟨rfl, rfl⟩ := hplace n de _ h
  obtain ⟨rfl, rfl⟩ := hplace n' de' _ h'
  rfl

/-- A name put into its slack leaves a page that is not accepted. -/
theorem dir_ops_nameless :
    ¬ ∀ (d : Dir) (op : DirOp), d.Good smallGeom → op.Ready smallGeom d →
      ∀ n < (op.call smallGeom d).dir.pages smallGeom,
        krCheckPage smallGeom (op.call smallGeom d).dir n = none := by
  intro h
  have hnew : namelessDir.map smallGeom [97] = none := by
    refine Slots.lookup_eq_none.mpr ?_
    rintro ⟨n, de⟩ v hslot
    obtain ⟨hmem, -, hentry⟩ := Dir.slots_eq_some.mp hslot
    have hn := namelessDir_good.ok.laidOut.page_lt hmem
    have hpages : namelessDir.pages smallGeom = 1 := by decide +kernel
    obtain rfl : n = 0 := by omega
    have hrecords : pageRecords smallGeom (namelessDir.page 0) (namelessDir.used smallGeom 0) = [0] := by
      decide +kernel
    rw [hrecords] at hmem
    obtain rfl : de = 0 := by simpa using hmem
    have hname : deName (namelessDir.page 0) 0 = [] := by decide +kernel
    have heq := congrArg Prod.fst hentry
    rw [entryAt, hname] at heq
    cases heq
  have hready : (DirOp.add [97] ⟨12, 0x81A4⟩ ⟨none, 0, none⟩).Ready smallGeom namelessDir :=
    ⟨⟨by decide, by decide⟩, hnew, ⟨by decide, by decide⟩, by decide +kernel, rfl, rfl⟩
  have hpage := h namelessDir _ namelessDir_good hready 0 (by decide +kernel)
  have hshort : krCheckPage smallGeom ((DirOp.add [97] ⟨12, 0x81A4⟩ ⟨none, 0, none⟩).call smallGeom
      namelessDir).dir 0 = some .short := by decide +kernel
  rw [hshort] at hpage
  cases hpage

end KrFs
