import KrFs.Rename
import Mathlib.Data.List.Nodup

/-!
# What renaming does to the maps

The old entry is found first and deleted last. In between the new entry is made,
perhaps by cutting the very record of the old one in two; no record is moved by that,
so what stands at the old place is still the old entry.
-/

namespace KrFs

open Bytes Tiling

section Hint

variable {g : DirGeom} {d : Dir}

theorem Dir.Good.hint (h : d.Good g) (n : Nat) : ({ d with iDirStartLookup := n } : Dir).Good g :=
  ⟨⟨h.ok.size, h.ok.pages⟩, h.readable, h.distinct⟩

/-- A search changes the hint only. -/
theorem krFindEntry_dir (g : DirGeom) (d : Dir) (name : List UInt8) :
    ∃ n, (krFindEntry g d name).2.1 = { d with iDirStartLookup := n } := by
  unfold krFindEntry
  dsimp only
  split
  · split
    · exact ⟨_, rfl⟩
    · exact ⟨d.iDirStartLookup, rfl⟩
  · exact ⟨d.iDirStartLookup, rfl⟩

/-- A search moves the hint. -/
theorem krFindEntry_map (g : DirGeom) (d : Dir) (name : List UInt8) :
    (krFindEntry g d name).2.1.map g = d.map g := by
  obtain ⟨n, hn⟩ := krFindEntry_dir g d name
  rw [hn]
  rfl

end Hint

/-- The call makes sense: both parents are in order, names have 1 to 255 bytes and are
not the same name of one directory, an entry that is to be added is new, a directory
that is moved is none of the parents, is in order and has its parent in the second
record, and the buffers of directories are had and written. -/
structure RenameReady (g : DirGeom) (oldDir newDir oldIno : Nat) (oldName newName : List UInt8)
    (newInode : Option Nat) (env : RenameEnv) (t : DirTree) : Prop where
  old : (t.dir oldDir).Good g
  new : (t.dir newDir).Good g
  oldLen : oldName.length ≤ 255
  newPos : 1 ≤ newName.length
  newLen : newName.length ≤ 255
  differ : oldDir = newDir → oldName ≠ newName
  object : (t.target oldIno).Valid g
  parent : (t.target newDir).Valid g
  absent : newInode = none → (t.dir newDir).map g newName = none
  moved : S_ISDIR (t.mode oldIno) = true → oldIno ≠ oldDir ∧ oldIno ≠ newDir ∧
    (t.dir oldIno).Good g ∧ (t.dir oldIno).ParentSecond g ∧
    ∃ type, (t.dir oldIno).map g [46, 46] = some (oldDir, type)
  link : env.link.prepare = none ∧ env.link.commit = none
  delete : env.delete.prepare = none ∧ env.delete.commit = none
  dotdot : env.dotdot.prepare = none

/-- The directory of the new name after the new entry is made: one slot has changed,
which was free or held the new name. -/
structure NewEntry (g : DirGeom) (d d' : Dir) (name : List UInt8) (v : Nat × UInt8)
    (place : Nat × Nat) : Prop where
  laidOut : d'.LaidOut g
  slots : d'.slots g = Function.update (d.slots g) place (some (name, v))
  free : ∀ name' w, d.slots g place = some (name', w) → name' = name
  key : ∀ place' w, d.slots g place' = some (name, w) → place' = place

theorem NewEntry.congr {g : DirGeom} {d₁ d₂ d' : Dir} {name : List UInt8} {v : Nat × UInt8}
    {place : Nat × Nat} (h : NewEntry g d₁ d' name v place) (heq : d₁.slots g = d₂.slots g) :
    NewEntry g d₂ d' name v place := by
  obtain ⟨hlaid, hslots, hfree, hkey⟩ := h
  rw [heq] at hslots hfree hkey
  exact ⟨hlaid, hslots, hfree, hkey⟩

theorem Dir.Good.dotdot {g : DirGeom} {d : Dir} (h : d.Good g) (hsecond : d.ParentSecond g) :
    krDotdot g d = some (deRecLen g (d.page 0) 0) := by
  have hpages : 0 < d.pages g := by
    have hlt := hsecond.1
    rw [Dir.lt_pages]
    unfold Dir.used at hlt
    omega
  exact (krDotdot_eq_some (h.ok.pages 0 hpages).2).mpr ⟨h.readable 0, rfl⟩

/-- What making the new entry comes to. With chunks of 64 KiB `kr_add_link` may stay at a
record of a whole chunk for ever; and when the directory is full it makes no entry. -/
inductive NewOutcome (g : DirGeom) (newDir : Nat) (newName : List UInt8) (v : Nat × UInt8)
    (newInode : Option Nat) (t : DirTree) (r : Exec (Except Errno Unit) × DirTree) : Prop
  | failed (err : Errno) (hvictim : newInode ≠ none) (hret : r.1 = .done (.error err))
      (hmaps : ∀ i, (r.2.dir i).map g = (t.dir i).map g)
  | running (hbits : g.chunkBits = 16) (hroom : ¬ (t.dir newDir).Full g newName)
      (hret : r.1 = .running)
  | lost (d' : Dir) (hbits : g.chunkBits = 16) (habsent : newInode = none)
      (hfull : (t.dir newDir).Full g newName) (hret : r.1 = .done (.ok ()))
      (hdir : r.2.dir = Function.update t.dir newDir d') (hlaid : d'.LaidOut g)
      (hslots : d'.slots g = (t.dir newDir).slots g)
  | made (d' : Dir) (place : Nat × Nat)
      (hroom : g.chunkBits = 16 → newInode = none → ¬ (t.dir newDir).Full g newName)
      (hret : r.1 = .done (.ok ())) (hdir : r.2.dir = Function.update t.dir newDir d')
      (hentry : NewEntry g (t.dir newDir) d' newName v place)

section New

variable {g : DirGeom} {newDir oldIno : Nat} {newName : List UInt8} {newInode : Option Nat}
  {env : RenameEnv} {t : DirTree} {isDir : Bool}

/-- The new entry as `kr_add_link` leaves it. -/
theorem renameNew_add (isDir : Bool) {r : Except Errno Unit}
    (hret : (krAddLink g (t.dir newDir) newName (t.target oldIno) env.link).ret = .done r) :
    (renameNew g newDir oldIno newName none isDir env t).1 = .done r ∧
      (renameNew g newDir oldIno newName none isDir env t).2.dir = Function.update t.dir newDir
        (krAddLink g (t.dir newDir) newName (t.target oldIno) env.link).dir := by
  unfold renameNew DirCall.next
  dsimp only
  rw [hret]
  cases r with
  | error err => exact ⟨rfl, rfl⟩
  | ok =>
    refine ⟨rfl, ?_⟩
    dsimp only
    split
    · rfl
    · rfl

theorem renameNew_spec (hchunk : g.chunkBits ≤ 16) (hcount : g.sInodesCount < 2 ^ 32)
    (hgood : (t.dir newDir).Good g) (hpos : 1 ≤ newName.length) (hlen : newName.length ≤ 255)
    (hobject : (t.target oldIno).Valid g)
    (habsent : newInode = none → (t.dir newDir).map g newName = none)
    (hlink : env.link.prepare = none ∧ env.link.commit = none) :
    NewOutcome g newDir newName ((t.target oldIno).value g) newInode t
      (renameNew g newDir oldIno newName newInode isDir env t) := by
  cases newInode with
  | none =>
    have hnew := habsent rfl
    rcases krAddLink_cases hchunk hcount hgood hpos hlen hnew hobject hlink.1 hlink.2 with
      ⟨hbits, hroom, hret⟩ | ⟨hbits, hfull, hret, hlaid, hslots⟩ |
        ⟨hroom, hret, place, keeps, hnone, -, hedit⟩
    · refine .running hbits hroom ?_
      unfold renameNew DirCall.next
      dsimp only
      rw [hret]
    · obtain ⟨hdone, hdir⟩ := renameNew_add isDir hret
      exact .lost _ hbits rfl hfull hdone hdir hlaid hslots
    · obtain ⟨hdone, hdir⟩ := renameNew_add isDir hret
      refine .made _ place (fun hbits _ => hroom hbits) hdone hdir ⟨hedit.laidOut, hedit.slots, ?_, ?_⟩
      · intro name' w h
        rw [hnone] at h
        cases h
      · intro place' w h
        exact absurd h (Slots.lookup_eq_none.mp hnew place' w)
  | some victim =>
    have hhint : ∀ i, ((t.setDir newDir (krFindEntry g (t.dir newDir) newName).2.1).dir i).map g =
        (t.dir i).map g := by
      intro i
      by_cases hi : i = newDir
      · subst hi
        rw [DirTree.setDir_self]
        exact krFindEntry_map g (t.dir i) newName
      · rw [DirTree.setDir_of_ne hi]
    unfold renameNew
    dsimp only
    split
    · exact .failed .enotempty (Option.some_ne_none victim) rfl fun _ => rfl
    · by_cases hfound : (krFindEntry g (t.dir newDir) newName).1 = none
      · rcases hfind : krFindEntry g (t.dir newDir) newName with ⟨found, d, scans⟩
        rw [hfind] at hfound hhint
        dsimp only at hfound
        subst hfound
        exact .failed .enoent (Option.some_ne_none victim) rfl hhint
      · obtain ⟨n, de, scans, w, heq, hslot⟩ := krFindEntry_slot hgood hlen hfound
        obtain ⟨hret, hedit⟩ := krSetLink_edit env.link hcount (hgood.hint n).ok.laidOut hslot hobject
          hlink.1
        rw [heq]
        dsimp only
        refine .made _ (n, de) (fun _ hnone => nomatch hnone) ?_ ?_ ⟨hedit.laidOut, hedit.slots, ?_, ?_⟩
        · unfold DirCall.next
          rw [hret]
        · unfold DirCall.next
          rw [hret]
          dsimp only
          split
          · rfl
          · rfl
        · intro name' w' h
          rw [hslot] at h
          cases h
          rfl
        · intro place' w' h
          exact hgood.distinct _ _ _ _ _ h hslot

end New

/-- The record that `kr_dotdot` gives is an entry `..`. -/
structure ParentEntry (g : DirGeom) (d : Dir) (de : Nat) : Prop where
  laidOut : d.LaidOut g
  distinct : Slots.Distinct (d.slots g)
  slot : ∃ w, d.slots g (0, de) = some ([46, 46], w)

theorem Dir.ParentSecond.entry {g : DirGeom} {d : Dir} (hgood : d.Good g) (h : d.ParentSecond g)
    {de : Nat} (hde : krDotdot g d = some de) : ParentEntry g d de := by
  obtain ⟨hlt, hlive, hname⟩ := h
  have hpages : 0 < d.pages g := by
    rw [Dir.lt_pages]
    unfold Dir.used at hlt
    omega
  have hcheck := (hgood.ok.pages 0 hpages).2
  obtain ⟨-, rfl⟩ := (krDotdot_eq_some hcheck).mp hde
  have hboundary := (second_boundary hcheck).mp hlt
  exact ⟨hgood.ok.laidOut, hgood.distinct,
    hgood.ok.live_iff.mp ⟨⟨hpages, hboundary, hlive⟩, hname⟩⟩

section Old

variable {g : DirGeom} {oldDir newDir oldIno n de : Nat} {oldName : List UInt8} {dirDe : Option Nat}
  {env : RenameEnv} {t : DirTree} {w : Nat × UInt8}

theorem renameParent_spec (oldDir : Nat) (hcount : g.sInodesCount < 2 ^ 32) (hparent : (t.target newDir).Valid g)
    (hdotdot : env.dotdot.prepare = none)
    (hentry : ∀ de, dirDe = some de → ParentEntry g (t.dir oldIno) de) :
    (renameParent g oldDir newDir oldIno dirDe env t).1 = .done (.ok ()) ∧
      (∀ i, (i ≠ oldIno ∨ dirDe = none ∨ oldDir = newDir) →
        (renameParent g oldDir newDir oldIno dirDe env t).2.dir i = t.dir i) ∧
      (dirDe ≠ none → oldDir ≠ newDir →
        ((renameParent g oldDir newDir oldIno dirDe env t).2.dir oldIno).map g =
          Function.update ((t.dir oldIno).map g) [46, 46] (some ((t.target newDir).value g))) := by
  unfold renameParent
  cases dirDe with
  | none => exact ⟨rfl, fun _ _ => rfl, fun h => absurd rfl h⟩
  | some de' =>
    obtain ⟨hlaid, hdistinct, w', hslot⟩ := hentry de' rfl
    dsimp only
    by_cases hne : oldDir ≠ newDir
    · obtain ⟨hret, hedit⟩ := krSetLink_edit env.dotdot hcount hlaid hslot hparent hdotdot
      have hmap := (hedit.put hdistinct (fun name' w h => by rw [hslot] at h; cases h; rfl)
        (fun place w h => hdistinct _ _ _ _ _ h hslot)).2
      rw [if_pos hne]
      unfold DirCall.next
      rw [hret]
      refine ⟨rfl, ?_, ?_⟩
      · rintro i (hi | hi | hi)
        · exact DirTree.setDir_of_ne hi
        · cases hi
        · exact absurd hi hne
      · intro _ _
        have hself : ((t.setDir oldIno (krSetLink g (t.dir oldIno) 0 de' (t.target newDir)
            env.dotdot).dir).dropNlink oldDir).dir oldIno = _ := DirTree.setDir_self
        rw [hself]
        exact hmap
    · rw [if_neg hne]
      exact ⟨rfl, fun _ _ => rfl, fun _ h => absurd h hne⟩

/-- The old entry goes and nothing else. -/
theorem renameOld_spec (hchunk : g.chunkBits ≤ 16) (hcount : g.sInodesCount < 2 ^ 32)
    (hlaid : (t.dir oldDir).LaidOut g) (hdistinct : Slots.Distinct ((t.dir oldDir).slots g))
    (hslot : (t.dir oldDir).slots g (n, de) = some (oldName, w))
    (hparent : (t.target newDir).Valid g)
    (hdelete : env.delete.prepare = none) (hdotdot : env.dotdot.prepare = none)
    (hobject : dirDe ≠ none → oldIno ≠ oldDir)
    (hentry : ∀ de, dirDe = some de → ParentEntry g (t.dir oldIno) de) :
    (renameOld g oldDir newDir oldIno n de dirDe env t).1 = .done (.ok ()) ∧
      ((renameOld g oldDir newDir oldIno n de dirDe env t).2.dir oldDir).map g =
        Function.update ((t.dir oldDir).map g) oldName none ∧
      (∀ i, i ≠ oldDir → (i ≠ oldIno ∨ dirDe = none ∨ oldDir = newDir) →
        (renameOld g oldDir newDir oldIno n de dirDe env t).2.dir i = t.dir i) ∧
      (dirDe ≠ none → oldDir ≠ newDir →
        ((renameOld g oldDir newDir oldIno n de dirDe env t).2.dir oldIno).map g =
          Function.update ((t.dir oldIno).map g) [46, 46] (some ((t.target newDir).value g))) := by
  obtain ⟨hmem, -, -⟩ := Dir.slots_eq_some.mp hslot
  obtain ⟨hret, hedit⟩ := krDeleteEntry_edit env.delete hchunk hlaid hmem hdelete
  have hmap := (hedit.remove hdistinct hslot).2
  set c := krDeleteEntry g (t.dir oldDir) n de env.delete with hc
  have hentry' : ∀ de, dirDe = some de → ParentEntry g ((t.setDir oldDir c.dir).dir oldIno) de := by
    intro de hde
    rw [DirTree.setDir_of_ne (hobject (by rw [hde]; exact Option.some_ne_none de))]
    exact hentry de hde
  obtain ⟨hdone, hother, hmoved⟩ := renameParent_spec (t := t.setDir oldDir c.dir) oldDir hcount
    hparent hdotdot hentry'
  have hrun : renameOld g oldDir newDir oldIno n de dirDe env t =
      renameParent g oldDir newDir oldIno dirDe env (t.setDir oldDir c.dir) := by
    unfold renameOld DirCall.next
    dsimp only
    rw [← hc, hret]
  rw [hrun]
  refine ⟨hdone, ?_, ?_, ?_⟩
  · have hold : oldDir ≠ oldIno ∨ dirDe = none ∨ oldDir = newDir := by
      by_cases hnone : dirDe = none
      · exact Or.inr (Or.inl hnone)
      · exact Or.inl (hobject hnone).symm
    rw [hother oldDir hold, DirTree.setDir_self]
    exact hmap
  · intro i hi hcase
    rw [hother i hcase, DirTree.setDir_of_ne hi]
  · intro hsome hne
    rw [hmoved hsome hne, DirTree.setDir_of_ne (hobject hsome)]
    rfl

end Old

/-- What a call that succeeds has done: the old parent has lost the old name, the new
parent binds the new name to the object, and a directory that was moved names the new
parent; nothing else has changed. -/
structure Renamed (g : DirGeom) (oldDir newDir oldIno : Nat) (oldName newName : List UInt8)
    (t t' : DirTree) : Prop where
  old : oldDir ≠ newDir →
    (t'.dir oldDir).map g = Function.update ((t.dir oldDir).map g) oldName none
  new : oldDir ≠ newDir → (t'.dir newDir).map g =
    Function.update ((t.dir newDir).map g) newName (some ((t.target oldIno).value g))
  same : oldDir = newDir → (t'.dir newDir).map g = Function.update
    (Function.update ((t.dir newDir).map g) newName (some ((t.target oldIno).value g))) oldName none
  parent : S_ISDIR (t.mode oldIno) = true →
    ∃ type, (t'.dir oldIno).map g [46, 46] = some (newDir, type)
  object : S_ISDIR (t.mode oldIno) = true →
    ∀ name, name ≠ [46, 46] → (t'.dir oldIno).map g name = (t.dir oldIno).map g name
  others : ∀ i, i ≠ oldDir → i ≠ newDir → (i ≠ oldIno ∨ S_ISDIR (t.mode oldIno) = false) →
    t'.dir i = t.dir i

section Rename

variable {g : DirGeom} {oldDir newDir oldIno : Nat} {oldName newName : List UInt8}
  {newInode : Option Nat} {env : RenameEnv} {t : DirTree}

/-- Looking for the old entry changes a hint only. -/
theorem setDir_hint (ino hint i : Nat) :
    ∃ n, (t.setDir ino { t.dir ino with iDirStartLookup := hint }).dir i =
      { t.dir i with iDirStartLookup := n } := by
  by_cases hi : i = ino
  · subst hi
    rw [DirTree.setDir_self]
    exact ⟨hint, rfl⟩
  · rw [DirTree.setDir_of_ne hi]
    exact ⟨(t.dir i).iDirStartLookup, rfl⟩

theorem slots_setDir_hint (ino hint i : Nat) :
    ((t.setDir ino { t.dir ino with iDirStartLookup := hint }).dir i).slots g =
      (t.dir i).slots g := by
  obtain ⟨n, hn⟩ := setDir_hint (t := t) ino hint i
  rw [hn]
  rfl

theorem map_setDir_hint (ino hint i : Nat) :
    ((t.setDir ino { t.dir ino with iDirStartLookup := hint }).dir i).map g = (t.dir i).map g :=
  congrArg Slots.lookup (slots_setDir_hint ino hint i)

theorem full_setDir_hint (ino hint i : Nat) (name : List UInt8) :
    ((t.setDir ino { t.dir ino with iDirStartLookup := hint }).dir i).Full g name ↔
      (t.dir i).Full g name := by
  obtain ⟨n, hn⟩ := setDir_hint (t := t) ino hint i
  rw [hn]
  rfl

/-- The removal of the old entry, when only the directory of the new name has changed. -/
theorem rename_old (hchunk : g.chunkBits ≤ 16) (hcount : g.sInodesCount < 2 ^ 32)
    (hready : RenameReady g oldDir newDir oldIno oldName newName newInode env t) {n de : Nat}
    {w : Nat × UInt8} {dirDe : Option Nat} {t' : DirTree}
    (hdirDe : dirDe = if S_ISDIR (t.mode oldIno) then krDotdot g (t.dir oldIno) else none)
    (hold : (t'.dir oldDir).LaidOut g ∧ Slots.Distinct ((t'.dir oldDir).slots g) ∧
      (t'.dir oldDir).slots g (n, de) = some (oldName, w))
    (hothers : ∀ i, i ≠ oldDir → i ≠ newDir → t'.dir i = t.dir i)
    (hmode : t'.target newDir = t.target newDir) :
    let r := renameOld g oldDir newDir oldIno n de dirDe env t'
    r.1 = .done (.ok ()) ∧
      (r.2.dir oldDir).map g = Function.update ((t'.dir oldDir).map g) oldName none ∧
      (∀ i, i ≠ oldDir → (i ≠ oldIno ∨ dirDe = none ∨ oldDir = newDir) → r.2.dir i = t'.dir i) ∧
      (dirDe ≠ none → oldDir ≠ newDir → (r.2.dir oldIno).map g =
        Function.update ((t.dir oldIno).map g) [46, 46] (some ((t.target newDir).value g))) := by
  intro r
  have hisDir : dirDe ≠ none → S_ISDIR (t.mode oldIno) = true := by
    intro hne
    by_contra hno
    rw [hdirDe, if_neg hno] at hne
    exact hne rfl
  have hobject : dirDe ≠ none → oldIno ≠ oldDir := fun hne => (hready.moved (hisDir hne)).1
  have hkept : dirDe ≠ none → t'.dir oldIno = t.dir oldIno := fun hne =>
    hothers oldIno (hobject hne) (hready.moved (hisDir hne)).2.1
  have hparentEntry : ∀ de, dirDe = some de → ParentEntry g (t'.dir oldIno) de := by
    intro de' hde'
    have hne : dirDe ≠ none := by
      rw [hde']
      exact Option.some_ne_none de'
    obtain ⟨-, -, hgood, hsecond, -⟩ := hready.moved (hisDir hne)
    rw [hkept hne]
    rw [hdirDe, if_pos (hisDir hne)] at hde'
    exact hsecond.entry hgood hde'
  have hparent : (t'.target newDir).Valid g := by
    rw [hmode]
    exact hready.parent
  obtain ⟨hdone, hremoved, hrest, hmoved⟩ := renameOld_spec hchunk hcount hold.1 hold.2.1 hold.2.2
    hparent hready.delete.1 hready.dotdot hobject hparentEntry
  refine ⟨hdone, hremoved, hrest, fun hne hdiffer => ?_⟩
  rw [← hkept hne, ← hmode]
  exact hmoved hne hdiffer

/-- The old entry after the new one is made, and its removal. -/
theorem rename_moved (hchunk : g.chunkBits ≤ 16) (hcount : g.sInodesCount < 2 ^ 32)
    (hready : RenameReady g oldDir newDir oldIno oldName newName newInode env t) {n de : Nat}
    {w : Nat × UInt8} {dirDe : Option Nat} {d' : Dir} {place : Nat × Nat} {t' : DirTree}
    (hslot : (t.dir oldDir).slots g (n, de) = some (oldName, w))
    (hdirDe : dirDe = if S_ISDIR (t.mode oldIno) then krDotdot g (t.dir oldIno) else none)
    (hsome : S_ISDIR (t.mode oldIno) = true → dirDe ≠ none)
    (hdir : t'.dir newDir = d' ∧ (oldDir ≠ newDir → (t'.dir oldDir).Good g ∧
      (t'.dir oldDir).slots g = (t.dir oldDir).slots g) ∧
      ∀ i, i ≠ oldDir → i ≠ newDir → t'.dir i = t.dir i)
    (hmode : t'.target newDir = t.target newDir)
    (hentry : NewEntry g (t.dir newDir) d' newName ((t.target oldIno).value g) place) :
    (renameOld g oldDir newDir oldIno n de dirDe env t').1 = .done (.ok ()) ∧
      Renamed g oldDir newDir oldIno oldName newName t
        (renameOld g oldDir newDir oldIno n de dirDe env t').2 := by
  obtain ⟨hnewDir, holdDir, hothers⟩ := hdir
  have hdistinct : Slots.Distinct (d'.slots g) := by
    rw [hentry.slots]
    exact hready.new.distinct.put hentry.key
  have hmap : d'.map g =
      Function.update ((t.dir newDir).map g) newName (some ((t.target oldIno).value g)) := by
    unfold Dir.map
    rw [hentry.slots]
    exact Slots.lookup_put hready.new.distinct hentry.free hentry.key
  -- the old entry is where it was
  have hold : (t'.dir oldDir).LaidOut g ∧ Slots.Distinct ((t'.dir oldDir).slots g) ∧
      (t'.dir oldDir).slots g (n, de) = some (oldName, w) := by
    by_cases hsame : oldDir = newDir
    · subst hsame
      rw [hnewDir]
      refine ⟨hentry.laidOut, hdistinct, ?_⟩
      have hne : (n, de) ≠ place := by
        rintro rfl
        exact hready.differ rfl (hentry.free _ _ hslot)
      rw [hentry.slots, Function.update_of_ne hne]
      exact hslot
    · obtain ⟨hgood, hslots⟩ := holdDir hsame
      rw [hslots]
      exact ⟨hgood.ok.laidOut, hready.old.distinct, hslot⟩
  obtain ⟨hdone, hremoved, hrest, hmoved⟩ :=
    rename_old hchunk hcount hready hdirDe hold hothers hmode
  have hkept : S_ISDIR (t.mode oldIno) = true → t'.dir oldIno = t.dir oldIno := fun hdir =>
    hothers oldIno (hready.moved hdir).1 (hready.moved hdir).2.1
  refine ⟨hdone, ?_, ?_, ?_, ?_, ?_, ?_⟩
  · intro hne
    rw [hremoved]
    unfold Dir.map
    rw [(holdDir hne).2]
  · intro hne
    have hcase : newDir ≠ oldIno ∨ dirDe = none ∨ oldDir = newDir := by
      by_cases hisDir : S_ISDIR (t.mode oldIno) = true
      · exact Or.inl (hready.moved hisDir).2.1.symm
      · rw [hdirDe, if_neg hisDir]
        exact Or.inr (Or.inl rfl)
    rw [hrest newDir (Ne.symm hne) hcase, hnewDir, hmap]
  · rintro rfl
    rw [hremoved, hnewDir, hmap]
  · intro hdir
    by_cases hsame : oldDir = newDir
    · obtain ⟨hne, -, -, -, type, htype⟩ := hready.moved hdir
      rw [hrest oldIno hne (Or.inr (Or.inr hsame)), hkept hdir, htype, hsame]
      exact ⟨type, rfl⟩
    · rw [hmoved (hsome hdir) hsame, Function.update_self]
      exact ⟨_, rfl⟩
  · intro hdir name hname
    by_cases hsame : oldDir = newDir
    · rw [hrest oldIno (hready.moved hdir).1 (Or.inr (Or.inr hsame)), hkept hdir]
    · rw [hmoved (hsome hdir) hsame, Function.update_of_ne hname]
  · intro i hi hi' hcase
    rw [hrest i hi ?_, hothers i hi hi']
    rcases hcase with h | h
    · exact Or.inl h
    · right
      left
      rw [hdirDe, h]
      rfl

/-- When the new entry was lost, the old one goes all the same. -/
theorem rename_lost (hchunk : g.chunkBits ≤ 16) (hcount : g.sInodesCount < 2 ^ 32)
    (hready : RenameReady g oldDir newDir oldIno oldName newName none env t) {n de : Nat}
    {w : Nat × UInt8} {dirDe : Option Nat} {t' : DirTree}
    (hslot : (t.dir oldDir).slots g (n, de) = some (oldName, w))
    (hdirDe : dirDe = if S_ISDIR (t.mode oldIno) then krDotdot g (t.dir oldIno) else none)
    (hdir : ((t'.dir newDir).LaidOut g ∧ (t'.dir newDir).slots g = (t.dir newDir).slots g) ∧
      (oldDir ≠ newDir → (t'.dir oldDir).Good g ∧
        (t'.dir oldDir).slots g = (t.dir oldDir).slots g) ∧
      ∀ i, i ≠ oldDir → i ≠ newDir → t'.dir i = t.dir i)
    (hmode : t'.target newDir = t.target newDir) :
    let r := renameOld g oldDir newDir oldIno n de dirDe env t'
    r.1 = .done (.ok ()) ∧ (r.2.dir newDir).map g newName = none := by
  intro r
  obtain ⟨⟨hlaid, hslots⟩, holdDir, hothers⟩ := hdir
  have hmap : (t'.dir newDir).map g newName = none := by
    have hnone := hready.absent rfl
    unfold Dir.map at hnone ⊢
    rw [hslots]
    exact hnone
  have hold : (t'.dir oldDir).LaidOut g ∧ (t'.dir oldDir).slots g = (t.dir oldDir).slots g := by
    by_cases hsame : oldDir = newDir
    · subst hsame
      exact ⟨hlaid, hslots⟩
    · obtain ⟨hgood, hslots'⟩ := holdDir hsame
      exact ⟨hgood.ok.laidOut, hslots'⟩
  have hold' : (t'.dir oldDir).LaidOut g ∧ Slots.Distinct ((t'.dir oldDir).slots g) ∧
      (t'.dir oldDir).slots g (n, de) = some (oldName, w) := by
    rw [hold.2]
    exact ⟨hold.1, hready.old.distinct, hslot⟩
  obtain ⟨hdone, hremoved, hrest, -⟩ :=
    rename_old hchunk hcount hready hdirDe hold' hothers hmode
  refine ⟨hdone, ?_⟩
  by_cases hsame : oldDir = newDir
  · subst hsame
    rw [hremoved, Function.update_of_ne (hready.differ rfl).symm]
    exact hmap
  · have hcase : newDir ≠ oldIno ∨ dirDe = none ∨ oldDir = newDir := by
      by_cases hisDir : S_ISDIR (t.mode oldIno) = true
      · exact Or.inl (hready.moved hisDir).2.1.symm
      · rw [hdirDe, if_neg hisDir]
        exact Or.inr (Or.inl rfl)
    rw [hrest newDir (Ne.symm hsame) hcase]
    exact hmap

/-- The new entry, after the old one was found. -/
theorem rename_new (hchunk : g.chunkBits ≤ 16) (hcount : g.sInodesCount < 2 ^ 32)
    (hready : RenameReady g oldDir newDir oldIno oldName newName newInode env t) (isDir : Bool)
    (hint : Nat) :
    NewOutcome g newDir newName ((t.target oldIno).value g) newInode
      (t.setDir oldDir { t.dir oldDir with iDirStartLookup := hint })
      (renameNew g newDir oldIno newName newInode isDir env
        (t.setDir oldDir { t.dir oldDir with iDirStartLookup := hint })) := by
  obtain ⟨k, hk⟩ := setDir_hint (t := t) oldDir hint newDir
  have hgood : ((t.setDir oldDir { t.dir oldDir with iDirStartLookup := hint }).dir newDir).Good g := by
    rw [hk]
    exact hready.new.hint k
  refine renameNew_spec hchunk hcount hgood hready.newPos hready.newLen hready.object ?_ hready.link
  rw [hk]
  exact hready.absent

end Rename

/-- What `kr_rename` is to have done when it returns. -/
def RenameRight (g : DirGeom) (oldDir newDir oldIno : Nat) (oldName newName : List UInt8)
    (t : DirTree) (r : Exec (Except Errno Unit) × DirTree) : Prop :=
  (∀ err, r.1 = .done (.error err) → ∀ i, (r.2.dir i).map g = (t.dir i).map g) ∧
    (r.1 = .done (.ok ()) → Renamed g oldDir newDir oldIno oldName newName t r.2)

/-- The call comes to add a new name to a directory of 64 KiB chunks that has no room
for it. -/
def RenameLoses (g : DirGeom) (oldDir newDir : Nat) (oldName newName : List UInt8)
    (newInode : Option Nat) (flags : UInt32) (env : RenameEnv) (t : DirTree) : Prop :=
  g.chunkBits = 16 ∧ newInode = none ∧ (t.dir newDir).Full g newName ∧ env.Searches flags ∧
    (krFindEntry g (t.dir oldDir) oldName).1 ≠ none

theorem krRename_outcome {g : DirGeom} (hchunk : g.chunkBits ≤ 16) (hcount : g.sInodesCount < 2 ^ 32)
    {oldDir newDir oldIno : Nat} {oldName newName : List UInt8} {newInode : Option Nat}
    {env : RenameEnv} {t : DirTree} (flags : UInt32)
    (hready : RenameReady g oldDir newDir oldIno oldName newName newInode env t) :
    let r := krRename g oldDir newDir oldIno oldName newName newInode flags env t
    (RenameLoses g oldDir newDir oldName newName newInode flags env t ∧ r.1 = .done (.ok ()) ∧
        (r.2.dir newDir).map g newName = none) ∨
      (¬ RenameLoses g oldDir newDir oldName newName newInode flags env t ∧
        RenameRight g oldDir newDir oldIno oldName newName t r) := by
  intro r
  have hcases : RenameCases g oldDir newDir oldIno oldName newName newInode flags env t r := krRename_cases
  cases hcases with
  | early err t' htree hcause heq =>
    rw [heq]
    refine Or.inr ⟨?_, fun _ _ i => ?_, fun h => nomatch h⟩
    · -- a directory that is moved has its parent
      rintro ⟨-, -, -, hsearches, hfound⟩
      obtain ⟨hdir, hnone⟩ := hcause hsearches hfound
      obtain ⟨hne, -, hgood, hsecond, -⟩ := hready.moved hdir
      rw [DirTree.setDir_of_ne hne] at hnone
      rw [hgood.dotdot hsecond] at hnone
      cases hnone
    · rcases htree with rfl | rfl
      · rfl
      · obtain ⟨hint, hhint⟩ := krFindEntry_dir g (t.dir oldDir) oldName
        rw [hhint]
        exact map_setDir_hint oldDir hint i
  | stopped n de d scans hsearches hfound hret heq =>
    have hfind : (krFindEntry g (t.dir oldDir) oldName).1 ≠ none := by
      rw [hfound]
      exact Option.some_ne_none _
    obtain ⟨n', de', scans', w, hfound', -⟩ := krFindEntry_slot hready.old hready.oldLen hfind
    rw [hfound] at hfound'
    cases hfound'
    have hfull := full_setDir_hint (g := g) (t := t) oldDir n newDir newName
    have hnew := rename_new hchunk hcount hready (S_ISDIR (t.mode oldIno)) n
    rw [← heq] at hnew
    cases hnew with
    | failed err hvictim herr hmaps =>
      refine Or.inr ⟨fun hloses => hvictim hloses.2.1, fun _ _ i => ?_, fun h => absurd h hret⟩
      rw [hmaps i]
      exact map_setDir_hint oldDir n i
    | running hbits hroom hrunning =>
      refine Or.inr ⟨fun hloses => hroom (hfull.mpr hloses.2.2.1), fun err herr => ?_,
        fun h => absurd h hret⟩
      rw [hrunning] at herr
      cases herr
    | lost d' hbits habsent hfull' hok hdir hlaid hslots => exact absurd hok hret
    | made d' place hroom hok hdir hentry => exact absurd hok hret
  | moved n de d scans dirDe t' hsearches hfound hdirDe hsome hnewEntry heq =>
    have hfind : (krFindEntry g (t.dir oldDir) oldName).1 ≠ none := by
      rw [hfound]
      exact Option.some_ne_none _
    obtain ⟨n', de', scans', w, hfound', hslot⟩ := krFindEntry_slot hready.old hready.oldLen hfind
    rw [hfound] at hfound'
    cases hfound'
    have hfull := full_setDir_hint (g := g) (t := t) oldDir n newDir newName
    have hnew := rename_new hchunk hcount hready (S_ISDIR (t.mode oldIno)) n
    rw [hnewEntry] at hnew
    have hmode : t'.target newDir = t.target newDir := by
      have hkept : (renameNew g newDir oldIno newName newInode (S_ISDIR (t.mode oldIno)) env
          (t.setDir oldDir { t.dir oldDir with iDirStartLookup := n })).2.target newDir =
          t.target newDir := renameNew_mode _ newDir
      rw [hnewEntry] at hkept
      exact hkept
    have hdirDe' : dirDe =
        if S_ISDIR (t.mode oldIno) then krDotdot g (t.dir oldIno) else none := by
      rw [hdirDe]
      split
      · rename_i hisDir
        rw [DirTree.setDir_of_ne (hready.moved hisDir).1]
      · rfl
    -- only the directory of the new name is not as the search left it
    have hupdate : ∀ d', t'.dir = Function.update
        (t.setDir oldDir { t.dir oldDir with iDirStartLookup := n }).dir newDir d' →
        t'.dir newDir = d' ∧ (oldDir ≠ newDir → (t'.dir oldDir).Good g ∧
          (t'.dir oldDir).slots g = (t.dir oldDir).slots g) ∧
        ∀ i, i ≠ oldDir → i ≠ newDir → t'.dir i = t.dir i := by
      intro d' hdir
      refine ⟨?_, ?_, ?_⟩
      · rw [hdir, Function.update_self]
      · intro hne
        rw [hdir, Function.update_of_ne hne, DirTree.setDir_self]
        exact ⟨hready.old.hint n, rfl⟩
      · intro i hi hi'
        rw [hdir, Function.update_of_ne hi', DirTree.setDir_of_ne hi]
    cases hnew with
    | failed err hvictim herr hmaps => cases herr
    | running hbits hroom hrunning => cases hrunning
    | lost d' hbits habsent hfull' hok hdir hlaid hslots =>
      subst habsent
      obtain ⟨hnewDir, holdDir, hothers⟩ := hupdate d' hdir
      have hslots' : (t'.dir newDir).slots g = (t.dir newDir).slots g := by
        rw [hnewDir, hslots]
        exact slots_setDir_hint oldDir n newDir
      have hlaid' : (t'.dir newDir).LaidOut g := by
        rw [hnewDir]
        exact hlaid
      obtain ⟨hdone, hnone⟩ := rename_lost hchunk hcount hready hslot hdirDe'
        ⟨⟨hlaid', hslots'⟩, holdDir, hothers⟩ hmode
      rw [heq]
      exact Or.inl ⟨⟨hbits, rfl, hfull.mp hfull', hsearches, hfind⟩, hdone, hnone⟩
    | made d' place hroom hok hdir hentry =>
      obtain ⟨hdone, hrenamed⟩ := rename_moved hchunk hcount hready hslot hdirDe' hsome (hupdate d' hdir)
        hmode (hentry.congr (slots_setDir_hint oldDir n newDir))
      rw [heq]
      refine Or.inr ⟨fun hloses => hroom hloses.1 hloses.2.1 (hfull.mpr hloses.2.2.1),
        fun err herr => ?_, fun _ => hrenamed⟩
      rw [hdone] at herr
      cases herr

theorem RenameRight.bound {g : DirGeom} {oldDir newDir oldIno : Nat} {oldName newName : List UInt8}
    {t : DirTree} {r : Exec (Except Errno Unit) × DirTree}
    (h : RenameRight g oldDir newDir oldIno oldName newName t r) (hret : r.1 = .done (.ok ()))
    (hdiffer : oldDir = newDir → oldName ≠ newName) : (r.2.dir newDir).map g newName ≠ none := by
  have hrenamed := h.2 hret
  by_cases hsame : oldDir = newDir
  · rw [hrenamed.same hsame, Function.update_of_ne (hdiffer hsame).symm, Function.update_self]
    exact Option.some_ne_none _
  · rw [hrenamed.new hsame, Function.update_self]
    exact Option.some_ne_none _

/-- A call of `kr_rename` that returns does to the maps what it is for, or nothing when it
fails, just when it does not come to add the new name to a full directory of 64 KiB
chunks. -/
theorem krRename_right_iff {g : DirGeom} (hchunk : g.chunkBits ≤ 16) (hcount : g.sInodesCount < 2 ^ 32)
    {oldDir newDir oldIno : Nat} {oldName newName : List UInt8} {newInode : Option Nat}
    {env : RenameEnv} {t : DirTree} (flags : UInt32)
    (hready : RenameReady g oldDir newDir oldIno oldName newName newInode env t) :
    RenameRight g oldDir newDir oldIno oldName newName t
        (krRename g oldDir newDir oldIno oldName newName newInode flags env t) ↔
      ¬ RenameLoses g oldDir newDir oldName newName newInode flags env t := by
  rcases krRename_outcome hchunk hcount flags hready with ⟨hloses, hret, hnone⟩ | ⟨hkeeps, hright⟩
  · refine iff_of_false ?_ (not_not.mpr hloses)
    intro hright
    exact hright.bound hret hready.differ hnone
  · exact iff_of_true hright hkeeps

/-! ### A full directory -/

/-- Chunks of 64 KiB. -/
def wideGeom : DirGeom := ⟨16, 16, 100, true, by decide, by decide, by decide⟩

/-- The entries `.` and `..`, a record of 488 bytes behind them and then 127 records of
512 bytes. Their names have 255 bytes and begin with the number of the record. -/
def fullPage (i : Nat) : UInt8 :=
  let start := if i < 512 then 24 else i / 512 * 512
  if i < 24 then
    [2, 0, 0, 0, 12, 0, 1, 2, 46, 0, 0, 0, 2, 0, 0, 0, 12, 0, 2, 2, 46, 46, 0, 0].getD i 0
  else
    match i - start with
    | 0 => 11
    | 4 => if i < 512 then 232 else 0
    | 5 => if i < 512 then 1 else 2
    | 6 => 255
    | 7 => 1
    | 8 => UInt8.ofNat (128 + i / 512)
    | n + 9 => if n < 254 then 97 else 0
    | _ => 0

def fullDir : Dir := ⟨2, 65536, 128, 1, 0, fun _ => fullPage, fun _ => true⟩

/-- It is inode 2, and all others are files. -/
def fullTree : DirTree := ⟨fun _ => fullDir, fun i => if i = 2 then 0x41ED else 0x81A4, fun _ => 200⟩

def fullRecords : List Nat := 0 :: 12 :: 24 :: (List.range 127).map fun k => (k + 1) * 512

section Full

variable {n de : Nat} {newName : List UInt8}

/-- It has one page, and this has the records that are listed. -/
theorem fullDir_records : fullDir.pages wideGeom = 1 ∧ krCheckPage wideGeom fullDir 0 = none ∧
    pageRecords wideGeom (fullDir.page 0) (fullDir.used wideGeom 0) = fullRecords ∧
    pageRecords wideGeom fullPage 0 = [] := by
  decide +kernel

/-- The records have an inode and a name that does not begin with `b`, and no room for
another one of 255 bytes. -/
theorem fullRecords_fields : ∀ x ∈ fullRecords, 0 < deNameLen fullPage x ∧
    (deName fullPage x).head? ≠ some 98 ∧ deInode fullPage x ≠ 0 ∧
    deRecLen wideGeom fullPage x % 2 ^ 16 < krDirRecLen (deNameLen fullPage x) + krDirRecLen 255 ∧
    deRecLen wideGeom fullPage x % 2 ^ 16 ≠ 0 := by
  decide +kernel

theorem fullDir_mem (h : de ∈ pageRecords wideGeom (fullDir.page n) (fullDir.used wideGeom n)) :
    n = 0 ∧ de ∈ fullRecords := by
  obtain ⟨hpages, -, hrecords, hempty⟩ := fullDir_records
  by_cases hn : n = 0
  · subst hn
    rw [hrecords] at h
    exact ⟨rfl, h⟩
  · rw [Dir.used_past (by omega)] at h
    rw [show fullDir.page n = fullPage from rfl, hempty] at h
    cases h

theorem fullDir_good : fullDir.Good wideGeom := by
  have hok : fullDir.Ok wideGeom := by
    obtain ⟨hpages, hcheck, -⟩ := fullDir_records
    refine ⟨by decide, fun n hn => ?_⟩
    obtain rfl : n = 0 := by omega
    exact ⟨rfl, hcheck⟩
  refine ⟨hok, fun _ => rfl, ?_⟩
  -- the length of a name and its first byte tell the records apart
  have hkeys : (fullRecords.map fun de => (deNameLen fullPage de, fullPage (de + 8))).Nodup := by
    have hgrow : (fullRecords.map fun de =>
        deNameLen fullPage de * 256 + (fullPage (de + 8)).toNat).IsChain (· < ·) := by
      decide +kernel
    refine List.Nodup.of_map (fun key => key.1 * 256 + key.2.toNat) ?_
    rw [List.map_map]
    exact hgrow.pairwise.imp fun hlt => hlt.ne
  rintro ⟨n, de⟩ ⟨n', de'⟩ name v w h h'
  obtain ⟨hmem, -, hentry⟩ := Dir.slots_eq_some.mp h
  obtain ⟨hmem', -, hentry'⟩ := Dir.slots_eq_some.mp h'
  obtain ⟨rfl, hde⟩ := fullDir_mem hmem
  obtain ⟨rfl, hde'⟩ := fullDir_mem hmem'
  have hname : deName fullPage de = deName fullPage de' :=
    (congrArg Prod.fst hentry).trans (congrArg Prod.fst hentry').symm
  have hlen : deNameLen fullPage de = deNameLen fullPage de' := by
    rw [← length_deName, ← length_deName, hname]
  have hpos : ∀ x ∈ fullRecords, 0 < deNameLen fullPage x := fun x hx => (fullRecords_fields x hx).1
  have hfirst : ∀ x ∈ fullRecords, (deName fullPage x).head? = some (fullPage (x + 8)) := by
    intro x hx
    have hlt := hpos x hx
    unfold deName load
    rw [List.head?_map, List.head?_range, if_neg (by omega)]
    rfl
  have hbyte : fullPage (de + 8) = fullPage (de' + 8) := by
    have hhead := hfirst de hde
    rw [hname, hfirst de' hde'] at hhead
    exact (Option.some_inj.mp hhead).symm
  exact congrArg (Prod.mk 0) (List.inj_on_of_nodup_map hkeys hde hde' (Prod.ext hlen hbyte))

/-- There is no room for another name of 255 bytes. -/
theorem fullDir_full (hlen : newName.length = 255) : fullDir.Full wideGeom newName := by
  intro m x hx
  obtain ⟨-, hmem⟩ := fullDir_mem hx
  obtain ⟨-, -, hlive, hroom, hmod⟩ := fullRecords_fields x hmem
  refine ⟨?_, hmod⟩
  unfold Room
  rw [hlen]
  rintro (⟨hdead, -⟩ | hfits)
  · exact hlive hdead
  · exact absurd hroom (Nat.not_lt.mpr hfits)

/-- The name of the record at 512. -/
def fullName : List UInt8 := 129 :: List.replicate 254 97

/-- A name that begins with `b` is none of its names. -/
theorem fullDir_absent (hname : newName.head? = some 98) : fullDir.map wideGeom newName = none := by
  refine Slots.lookup_eq_none.mpr ?_
  rintro ⟨n, de⟩ v hslot
  obtain ⟨hmem, -, hentry⟩ := Dir.slots_eq_some.mp hslot
  obtain ⟨rfl, hde⟩ := fullDir_mem hmem
  refine (fullRecords_fields de hde).2.1 ?_
  rw [show deName fullPage de = newName from congrArg Prod.fst hentry]
  exact hname

theorem fullTree_ready (hpos : newName.head? = some 98) (hlen : newName.length ≤ 255) :
    RenameReady wideGeom 2 2 11 fullName newName none
      ⟨none, none, ⟨none, 0, none⟩, ⟨none, 0, none⟩, ⟨none, 0, none⟩⟩ fullTree := by
  have hnonempty : newName ≠ [] := by
    rintro rfl
    cases hpos
  have hlength : fullName.length = 255 := by
    rw [fullName, List.length_cons, List.length_replicate]
  refine ⟨fullDir_good, fullDir_good, hlength.le, List.length_pos_iff.mpr hnonempty, hlen, ?_,
    ⟨by decide, by decide⟩, ⟨by decide, by decide⟩, fun _ => fullDir_absent hpos, ?_, ⟨rfl, rfl⟩,
    ⟨rfl, rfl⟩, rfl⟩
  · rintro - rfl
    cases hpos
  · intro hdir
    exact absurd hdir (by decide)

end Full

/-- Of two calls that rename a file of a full directory with 64 KiB chunks the first finds
room for its new name. -/
theorem krRename_right_iff_full :
    RenameRight wideGeom 2 2 11 fullName [98] fullTree
      (krRename wideGeom 2 2 11 fullName [98] none 0
        ⟨none, none, ⟨none, 0, none⟩, ⟨none, 0, none⟩, ⟨none, 0, none⟩⟩ fullTree) := by
  refine (krRename_right_iff (by decide) (by decide) 0 (fullTree_ready rfl (by decide))).mpr ?_
  rintro ⟨-, -, hfull, -⟩
  have hmem : 24 ∈ pageRecords wideGeom (fullDir.page 0) (fullDir.used wideGeom 0) := by decide +kernel
  have hroom : Room wideGeom fullPage [98] 24 := by
    unfold Room
    decide +kernel
  exact (hfull 0 24 hmem).1 hroom

/-- The second returns 0 and the file has lost its name. -/
theorem krRename_lost :
    let newName := List.replicate 255 98
    let env : RenameEnv := ⟨none, none, ⟨none, 0, none⟩, ⟨none, 0, none⟩, ⟨none, 0, none⟩⟩
    let r := krRename wideGeom 2 2 11 fullName newName none 0 env fullTree
    RenameReady wideGeom 2 2 11 fullName newName none env fullTree ∧ r.1 = .done (.ok ()) ∧
      (r.2.dir 2).map wideGeom newName = none ∧
      ¬ RenameRight wideGeom 2 2 11 fullName newName fullTree r := by
  intro newName env r
  have hlen : newName.length = 255 := List.length_replicate
  have hready : RenameReady wideGeom 2 2 11 fullName newName none env fullTree :=
    fullTree_ready rfl hlen.le
  have hfind : (krFindEntry wideGeom fullDir fullName).1 ≠ none := by decide +kernel
  have hloses : RenameLoses wideGeom 2 2 fullName newName none 0 env fullTree :=
    ⟨rfl, rfl, fullDir_full hlen, ⟨by decide, rfl, rfl⟩, hfind⟩
  rcases krRename_outcome (by decide) (by decide) 0 hready with ⟨-, hret, hnone⟩ | ⟨hkeeps, -⟩
  · exact ⟨hready, hret, hnone, fun hright => hright.bound hret hready.differ hnone⟩
  · exact absurd hloses hkeeps

end KrFs
