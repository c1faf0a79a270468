import KrFs.AddLinkWide
import KrFs.DirEmpty

/-!
# The entries of a directory in a tree

A directory of a tree begins with `.` and `..` and has no entry without a name. Each call of
`dir.c` keeps it so, binds or removes one name, and leaves the records of all other names
where they are.
-/

namespace KrFs

open Bytes Tiling

/-- A directory in order whose first records are `.`, for the inode itself, and `..`. -/
structure Dir.Proper (g : DirGeom) (ino : Nat) (d : Dir) : Prop where
  good : d.Good g
  dot : ∃ type, d.slots g (0, 0) = some ([46], ino, type)
  dotdot : ∃ v, d.slots g (0, 12) = some ([46, 46], v)
  named : ∀ place v, d.slots g place ≠ some ([], v)

/-- A name is bound to an inode. -/
structure Dir.Binds (g : DirGeom) (ino : Nat) (d d' : Dir) (name : List UInt8)
    (v : Nat × UInt8) : Prop where
  proper : d'.Proper g ino
  map : d'.map g = Function.update (d.map g) name (some v)
  keeps : ∀ {place name' w}, name' ≠ name → d.slots g place = some (name', w) →
    d'.slots g place = some (name', w)

/-- A name is removed. -/
structure Dir.Drops (g : DirGeom) (ino : Nat) (d d' : Dir) (name : List UInt8) : Prop where
  proper : d'.Proper g ino
  map : d'.map g = Function.update (d.map g) name none

/-- No entry is changed. -/
structure Dir.Stays (g : DirGeom) (ino : Nat) (d d' : Dir) : Prop where
  proper : d'.Proper g ino
  slots : d'.slots g = d.slots g

section Proper

variable {g : DirGeom} {ino : Nat} {d d' : Dir} {name : List UInt8} {n de : Nat} {place : Nat × Nat}
  {v w : Nat × UInt8}

theorem Dir.Stays.map (h : d.Stays g ino d') : d'.map g = d.map g := congrArg Slots.lookup h.slots

theorem Dir.Stays.binds {d'' : Dir} (h : d.Stays g ino d') (hbinds : d'.Binds g ino d'' name v) :
    d.Binds g ino d'' name v := by
  refine ⟨hbinds.proper, ?_, fun hne hslot => hbinds.keeps hne ?_⟩
  · rw [hbinds.map, h.map]
  · rw [h.slots]
    exact hslot

theorem Dir.Proper.hint (h : d.Proper g ino) (n : Nat) :
    d.Stays g ino { d with iDirStartLookup := n } :=
  ⟨⟨h.good.hint n, h.dot, h.dotdot, h.named⟩, rfl⟩

/-- A search moves the hint. -/
theorem Dir.Proper.find (h : d.Proper g ino) (name : List UInt8) :
    d.Stays g ino (krFindEntry g d name).2.1 := by
  obtain ⟨n, hn⟩ := krFindEntry_dir g d name
  rw [hn]
  exact h.hint n

/-- The bytes behind the end of the directory do not matter. -/
theorem Dir.Proper.congr (h : d.Proper g ino) (hsize : d'.iSize = d.iSize)
    (hread : d'.readable = d.readable)
    (hbytes : ∀ m i, i < d.used g m → d'.page m i = d.page m i) : d.Stays g ino d' := by
  obtain ⟨hlaid, hslots⟩ := h.good.ok.laidOut.congr hsize hbytes
  have hread' : ∀ n, d'.readable n = true := by
    rw [hread]
    exact h.good.readable
  have hlong : d'.Long g := by
    intro m x hx
    obtain ⟨hused, hfits, hrecords⟩ := h.good.ok.laidOut.records_congr hsize hbytes m
    rw [hused, hfits.records] at hx
    rw [(hrecords x hx).1]
    exact h.good.ok.long m x hx
  have hsize' : d'.iSize < 2 ^ 32 := by
    rw [hsize]
    exact h.good.ok.size
  refine ⟨⟨⟨hlaid.ok hsize' hlong hread', hread', ?_⟩, ?_, ?_, ?_⟩, hslots⟩
  · rw [hslots]
    exact h.good.distinct
  · rw [hslots]
    exact h.dot
  · rw [hslots]
    exact h.dotdot
  · rw [hslots]
    exact h.named

/-- An edit that puts a name other than `.` where it is, or where nothing is. -/
theorem Dir.Proper.binds (h : d.Proper g ino) {fresh : Nat} {keeps : Prop}
    (hedit : d.Edit g d' place (some (name, v)) fresh keeps) (hsize : d.iSize + fresh < 2 ^ 32)
    (hkeeps : keeps) (hnonempty : 1 ≤ name.length) (hdot : name ≠ [46])
    (hplace : ∀ name' w, d.slots g place = some (name', w) → name' = name)
    (hkey : ∀ place' w, d.slots g place' = some (name, w) → place' = place) :
    d.Binds g ino d' name v := by
  obtain ⟨hdistinct, hmap⟩ := hedit.put h.good.distinct hplace hkey
  have hstill : ∀ {place' name' w}, name' ≠ name → d.slots g place' = some (name', w) →
      d'.slots g place' = some (name', w) := by
    intro place' name' w hne hslot
    have hother : place' ≠ place := by
      rintro rfl
      exact hne (hplace _ _ hslot)
    rw [hedit.slots, Function.update_of_ne hother]
    exact hslot
  refine ⟨⟨hedit.good h.good hsize hkeeps hdistinct, ?_, ?_, ?_⟩, hmap, hstill⟩
  · obtain ⟨type, hslot⟩ := h.dot
    exact ⟨type, hstill hdot.symm hslot⟩
  · obtain ⟨w, hslot⟩ := h.dotdot
    by_cases hname : [46, 46] = name
    · subst hname
      rw [hkey _ _ hslot, hedit.slots, Function.update_self]
      exact ⟨v, rfl⟩
    · exact ⟨w, hstill hname hslot⟩
  · intro place' w hslot
    rw [hedit.slots] at hslot
    rcases Slots.update_eq_some.mp hslot with ⟨-, hnew⟩ | ⟨-, hold⟩
    · cases hnew
      cases hnonempty
    · exact h.named _ _ hold

/-- An edit that removes a name, but not `.` or `..`. -/
theorem Dir.Proper.drops (h : d.Proper g ino) {keeps : Prop}
    (hedit : d.Edit g d' place none 0 keeps) (hkeeps : keeps)
    (hslot : d.slots g place = some (name, v)) (hdot : name ≠ [46]) (hdotdot : name ≠ [46, 46]) :
    d.Drops g ino d' name := by
  obtain ⟨hdistinct, hmap⟩ := hedit.remove h.good.distinct hslot
  have hstill : ∀ {place' name' w}, name ≠ name' → d.slots g place' = some (name', w) →
      d'.slots g place' = some (name', w) := by
    intro place' name' w hne hslot'
    have hother : place' ≠ place := by
      rintro rfl
      rw [hslot] at hslot'
      cases hslot'
      exact hne rfl
    rw [hedit.slots, Function.update_of_ne hother]
    exact hslot'
  obtain ⟨type, hself⟩ := h.dot
  obtain ⟨w, hup⟩ := h.dotdot
  refine ⟨⟨hedit.good h.good h.good.ok.size hkeeps hdistinct, ⟨type, hstill hdot hself⟩,
    ⟨w, hstill hdotdot hup⟩, ?_⟩, hmap⟩
  intro place' w hslot'
  rw [hedit.slots] at hslot'
  rcases Slots.update_eq_some.mp hslot' with ⟨-, hnew⟩ | ⟨-, hold⟩
  · cases hnew
  · exact h.named _ _ hold

/-- The first record has the length of its name, so `..` is the second. -/
theorem Dir.Proper.dotLen (h : d.Proper g ino) : deRecLen g (d.page 0) 0 = 12 := by
  obtain ⟨v, hv⟩ := h.dot
  obtain ⟨w, hw⟩ := h.dotdot
  obtain ⟨hfirst, -, -⟩ := Dir.slots_eq_some.mp hv
  obtain ⟨hsecond, -, -⟩ := Dir.slots_eq_some.mp hw
  have hlong := h.good.ok.long 0 0 hfirst
  have htiled := h.good.ok.laidOut.records 0
  generalize pageRecords g (d.page 0) (d.used g 0) = offs at hsecond htiled
  generalize d.used g 0 = b at htiled
  cases htiled with
  | nil => cases hsecond
  | cons ok rest =>
    rcases List.mem_cons.mp hsecond with heq | hsecond
    · cases heq
    · have hle := (rest.bounds hsecond).1
      omega

theorem Dir.Proper.parentSecond (h : d.Proper g ino) : d.ParentSecond g := by
  obtain ⟨w, hw⟩ := h.dotdot
  obtain ⟨hmem, hlive, hentry⟩ := Dir.slots_eq_some.mp hw
  have hend := ((h.good.ok.laidOut.records 0).bounds hmem).2
  have hpos := ((h.good.ok.laidOut.records 0).ok_of_mem hmem).pos
  unfold Dir.ParentSecond
  dsimp only
  rw [h.dotLen]
  exact ⟨by omega, hlive, congrArg Prod.fst hentry⟩

/-- `kr_dotdot` finds `..`. -/
theorem Dir.Proper.krDotdot (h : d.Proper g ino) : krDotdot g d = some 12 := by
  rw [h.good.dotdot h.parentSecond, h.dotLen]

end Proper

/-! ### The calls -/

section Calls

variable {g : DirGeom} {ino : Nat} {d : Dir} {name : List UInt8} {n de : Nat} {inode : LinkTarget}
  {env : ChunkEnv} {w : Nat × UInt8}

/-- A call of `kr_add_link` that comes to the end of a full directory has room for another
chunk: the length of the chunk fits into 16 bits and the directory stays below 4 GiB. -/
def Dir.Grows (g : DirGeom) (d : Dir) (name : List UInt8) : Prop :=
  d.Full g name → g.chunkBits ≠ 16 ∧ d.iSize + g.chunkSize < 2 ^ 32

/-- How a call of `kr_add_link` goes. -/
inductive AddEnd (g : DirGeom) (ino : Nat) (d : Dir) (name : List UInt8) (inode : LinkTarget) (env : ChunkEnv)
    (c : DirCall) : Prop
  | running (hret : c.ret = .running)
  | fails (err : Errno) (hprepare : env.prepare = some err) (hret : c.ret = .done (.error err))
      (hstays : d.Stays g ino c.dir)
  | enters (hprepare : env.prepare = none) (hret : c.ret = .done (.ok ()))
      (hbinds : d.Binds g ino c.dir name (inode.value g))

theorem krAddLink_end (hchunk : g.chunkBits ≤ 16) (hcount : g.sInodesCount < 2 ^ 32)
    (h : d.Proper g ino) (hnonempty : 1 ≤ name.length) (hname : name.length ≤ 255)
    (hdot : name ≠ [46]) (hnew : d.map g name = none) (hinode : inode.Valid g) (hcommit : env.commit = none)
    (hgrows : env.prepare = none → d.Grows g name) :
    AddEnd g ino d name inode env (krAddLink g d name inode env) := by
  have hlaid := h.good.ok.laidOut
  have hno := Slots.lookup_eq_none.mp hnew
  have houtcome : AddOutcome g d name inode env (krAddLink g d name inode env) :=
    krAddLink_outcome h.good.ok hname
  cases houtcome with
  | fresh n scans hn hread hroom hfull heq =>
    cases hprepare : env.prepare with
    | some err =>
      rw [heq]
      obtain ⟨hsize, -, hbytes⟩ := addLinkAt_unprepared g d name inode hprepare n
        (g.chunkSize % 2 ^ 16) 0 (krRecLenToDisk g g.chunkSize) scans
      refine .fails err hprepare ?_ (h.congr hsize ?_ hbytes)
      · unfold addLinkAt
        rw [hprepare]
      · unfold addLinkAt
        rw [hprepare]
        rfl
    | none =>
      obtain ⟨hbits, hsize⟩ := hgrows hprepare hfull
      obtain ⟨hret, hnone, hedit⟩ := addLinkAt_fresh scans (show g.chunkBits ≤ 15 by omega) hcount
        hlaid hn rfl hroom hname hinode hprepare
      rw [hcommit] at hret
      rw [heq]
      refine .enters hprepare hret (h.binds hedit hsize trivial hnonempty hdot ?_ fun place w hslot => ?_)
      · intro name' w hslot
        rw [hnone] at hslot
        cases hslot
      · exact absurd hslot (hno place w)
  | room n de recLen nameLen scans hmem hroom hpassed heq =>
    cases hprepare : env.prepare with
    | some err =>
      rw [heq]
      refine .fails err hprepare ?_ (h.congr ?_ ?_ ?_)
      all_goals unfold addLinkAt
      all_goals rw [hprepare]
      · rfl
      · rfl
      · exact fun m i _ => congrFun (congrFun (Function.update_eq_self n d.page) m) i
    | none =>
      obtain ⟨hret, place, hnone, hedit⟩ := addLinkAt_room scans hchunk hcount hlaid hmem hroom
        hnonempty hname hinode hprepare
      rw [hcommit] at hret
      rw [heq]
      refine .enters hprepare hret
        (h.binds hedit h.good.ok.size ?_ hnonempty hdot ?_ fun place w hslot => ?_)
      · -- no record in use is without a name
        by_contra hkeeps
        rw [not_or, not_not] at hkeeps
        obtain ⟨hlive, hzero⟩ := hkeeps
        have hempty : deName (d.page n) de = [] :=
          List.length_eq_zero_iff.mp ((length_deName _ _).trans hzero)
        exact h.named (n, de) _ (Dir.slots_eq_some.mpr ⟨hmem, hlive, Prod.ext hempty rfl⟩)
      · intro name' w hslot
        rw [hnone] at hslot
        cases hslot
      · exact absurd hslot (hno place w)
  | found n de hmem hmatch hdir hret =>
    obtain ⟨hlive, heq⟩ := krMatch_iff.mp hmatch
    have hslot : d.slots g (n, de) = some (name, (entryAt (d.page n) de).2) :=
      Dir.slots_eq_some.mpr ⟨hmem, hlive, Prod.ext heq rfl⟩
    exact absurd hslot (hno _ _)
  | unread hread hfull hdir hret =>
    rw [h.good.readable] at hread
    cases hread
  | loops n de hmem hlen hpassed hdir hret => exact .running hret

/-- `kr_set_link` on an entry that is there. -/
theorem krSetLink_binds (hcount : g.sInodesCount < 2 ^ 32) (h : d.Proper g ino)
    (hslot : d.slots g (n, de) = some (name, w)) (hdot : name ≠ [46]) (hinode : inode.Valid g)
    (hprepare : env.prepare = none) :
    (krSetLink g d n de inode env).ret = .done (.ok ()) ∧
      d.Binds g ino (krSetLink g d n de inode env).dir name (inode.value g) := by
  obtain ⟨hret, hedit⟩ := krSetLink_edit env hcount h.good.ok.laidOut hslot hinode hprepare
  have hnonempty : 1 ≤ name.length := by
    by_contra hshort
    obtain rfl : name = [] := List.length_eq_zero_iff.mp (by omega)
    exact h.named _ _ hslot
  refine ⟨hret, h.binds hedit h.good.ok.size trivial hnonempty hdot ?_ fun place w' hslot' => ?_⟩
  · intro name' w' hslot'
    rw [hslot] at hslot'
    cases hslot'
    rfl
  · exact h.good.distinct _ _ _ _ _ hslot' hslot

/-- `kr_delete_entry` on an entry that is there. -/
theorem krDeleteEntry_drops (hchunk : g.chunkBits ≤ 16) (h : d.Proper g ino)
    (hslot : d.slots g (n, de) = some (name, w)) (hdot : name ≠ [46]) (hdotdot : name ≠ [46, 46])
    (hprepare : env.prepare = none) (hcommit : env.commit = none) :
    (krDeleteEntry g d n de env).ret = .done (.ok ()) ∧
      d.Drops g ino (krDeleteEntry g d n de env).dir name := by
  obtain ⟨hmem, -, -⟩ := Dir.slots_eq_some.mp hslot
  obtain ⟨hret, hedit⟩ := krDeleteEntry_edit env hchunk h.good.ok.laidOut hmem hprepare
  rw [hcommit] at hret
  exact ⟨hret, h.drops hedit trivial hslot hdot hdotdot⟩

/-- A new directory. -/
theorem krMakeEmpty_proper {parent : Nat} (hchunk : g.chunkBits ≤ 16)
    (hcount : g.sInodesCount < 2 ^ 32) (hnew : d.iSize = 0) (hread : ∀ n, d.readable n = true)
    (hinode : inode.Valid g) (hparent : parent ≠ 0 ∧ parent ≤ g.sInodesCount)
    (hprepare : env.prepare = none) (hcommit : env.commit = none) :
    (krMakeEmpty g d inode parent env).ret = .done (.ok ()) ∧
      (krMakeEmpty g d inode parent env).dir.Proper g inode.iIno ∧
      (krMakeEmpty g d inode parent env).dir.map g =
        Function.update (Function.update (fun _ => none) [46] (some (inode.value g))) [46, 46]
          (some (parent, deTypeOf g inode.iMode)) := by
  obtain ⟨hret, -, -, hslots⟩ :=
    krMakeEmpty_slots (d := d) hchunk hcount hnew hread hinode hparent hprepare hcommit
  obtain ⟨-, hgood, hmap⟩ :=
    krMakeEmpty_edit (d := d) hchunk hcount hnew hread hinode hparent hprepare hcommit
  refine ⟨hret, ⟨hgood, ⟨_, by rw [hslots]; rfl⟩, ⟨_, by rw [hslots]; rfl⟩, ?_⟩, hmap⟩
  intro place v hslot
  rw [hslots] at hslot
  rcases Slots.update_eq_some.mp hslot with ⟨-, hdotdot⟩ | ⟨-, hslot⟩
  · cases hdotdot
  · rcases Slots.update_eq_some.mp hslot with ⟨-, hdot⟩ | ⟨-, hnone⟩
    · cases hdot
    · cases hnone

/-- What a search that succeeds has found. -/
theorem Dir.Proper.found (h : d.Proper g ino) (hname : name.length ≤ 255) {d' : Dir}
    {scans : List Scan} (hfound : krFindEntry g d name = (some (n, de), d', scans)) :
    d.Stays g ino d' ∧ ∃ w, d.slots g (n, de) = some (name, w) := by
  have hstays := h.find name
  obtain ⟨_, _, _, w, heq, hslot⟩ := krFindEntry_slot h.good hname (by rw [hfound]; simp)
  rw [hfound] at heq hstays
  cases heq
  exact ⟨hstays, w, hslot⟩

/-- What `kr_empty_dir` takes for empty has no other names. -/
theorem Dir.Proper.empty (h : d.Proper g ino) (hempty : (krEmptyDir g d).1 = true)
    (hdot : name ≠ [46]) (hdotdot : name ≠ [46, 46]) : d.map g name = none := by
  refine Slots.lookup_eq_none.mpr ?_
  rintro ⟨n, de⟩ v hslot
  obtain ⟨hmem, hlive, hentry⟩ := Dir.slots_eq_some.mp hslot
  have hname : deName (d.page n) de = name := congrArg Prod.fst hentry
  have htiled := h.good.ok.laidOut.records n
  have hn := h.good.ok.laidOut.page_lt hmem
  have hend := (htiled.bounds hmem).2
  have hlong := h.good.ok.long n de hmem
  refine krEmptyDir_eq_true.mp hempty n de ⟨hn, ⟨h.good.readable n, (h.good.ok.pages n hn).2⟩,
    htiled.reached (fun _ ok => ok.pos) hmem, ?_, Or.inr ⟨hlive, ?_, ?_⟩⟩
  · have hle := Dir.used_le g d n
    have hlt := g.pageSize_lt
    have hone := krDirRecLen_one
    rw [krLastByte_eq h.good.ok.size (Dir.lt_pages.mp hn).le, sub32_of_le (by omega) (by omega)]
    omega
  · rintro (⟨hown, -⟩ | hown)
    · exact hdot (hname.symm.trans hown)
    · exact hdotdot (hname.symm.trans hown)
  · rintro ⟨hzero, -⟩
    obtain rfl : name = [] :=
      List.length_eq_zero_iff.mp ((congrArg List.length hname.symm).trans
        ((length_deName _ _).trans hzero))
    exact h.named _ _ hslot

end Calls

end KrFs
