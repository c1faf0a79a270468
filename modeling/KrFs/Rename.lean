import KrFs.DirOps

/-!
# Renaming

`kr_rename` of `namei.c` over the directories of a file system: it keeps the place of
the old entry while the new one is made, perhaps in the same page, and then deletes
what is at that place. A directory that is moved gets a new `..`; its record is what
`kr_dotdot` finds behind the first record of the directory. Times are left out.
-/

namespace KrFs

open Bytes Tiling

/-- The directories, modes and link counts by inode number. -/
structure DirTree where
  dir : Nat → Dir
  mode : Nat → UInt16
  nlink : Nat → Nat

namespace DirTree

def setDir (t : DirTree) (ino : Nat) (d : Dir) : DirTree :=
  { t with dir := Function.update t.dir ino d }

/-- `inode_inc_link_count`. -/
def incNlink (t : DirTree) (ino : Nat) : DirTree :=
  { t with nlink := Function.update t.nlink ino ((t.nlink ino + 1) % 2 ^ 32) }

/-- `drop_nlink` and `inode_dec_link_count`. -/
def dropNlink (t : DirTree) (ino : Nat) : DirTree :=
  { t with nlink := Function.update t.nlink ino (sub32 (t.nlink ino) 1) }

def target (t : DirTree) (ino : Nat) : LinkTarget := ⟨ino, t.mode ino⟩

section SetDir

variable {t : DirTree} {d : Dir} {i ino : Nat}

@[simp] theorem setDir_self : (t.setDir ino d).dir ino = d := Function.update_self _ _ _

theorem setDir_of_ne (h : i ≠ ino) : (t.setDir ino d).dir i = t.dir i := Function.update_of_ne h _ _

end SetDir

end DirTree

/-- `kr_dotdot`: the record behind the first one. -/
def krDotdot (g : DirGeom) (d : Dir) : Option Nat :=
  (krGetPage g d 0).map fun p => deRecLen g p 0

/-- What a call of `kr_rename` meets: the results of `dquot_initialize` for the two
parents and what happens to the buffers of the three entries that it writes. -/
structure RenameEnv where
  quotaOld : Option Errno
  quotaNew : Option Errno
  link : ChunkEnv
  delete : ChunkEnv
  dotdot : ChunkEnv

/-- `RENAME_NOREPLACE`. -/
def RENAME_NOREPLACE : UInt32 := 1

/-- Goes on after a call that returns. -/
def DirCall.next (c : DirCall) (t : DirTree)
    (rest : Except Errno Unit → Exec (Except Errno Unit) × DirTree) :
    Exec (Except Errno Unit) × DirTree :=
  match c.ret with
  | .done r => rest r
  | .bug => (.bug, t)
  | .running => (.running, t)

section Code

variable (g : DirGeom) (oldDir newDir oldIno : Nat)

/-- The new entry: an entry that is there is set, else one is added. -/
def renameNew (newName : List UInt8) (newInode : Option Nat) (isDir : Bool) (env : RenameEnv)
    (t : DirTree) : Exec (Except Errno Unit) × DirTree :=
  match newInode with
  | some victim =>
    if isDir && !(krEmptyDir g (t.dir victim)).1 then (.done (.error .enotempty), t)
    else
      match krFindEntry g (t.dir newDir) newName with
      | (none, d, _) => (.done (.error .enoent), t.setDir newDir d)
      | (some (n, de), d, _) =>
        let c := krSetLink g d n de (t.target oldIno) env.link
        c.next t fun _ =>
          let t := t.setDir newDir c.dir
          let t := if isDir then t.dropNlink victim else t
          (.done (.ok ()), t.dropNlink victim)
  | none =>
    let c := krAddLink g (t.dir newDir) newName (t.target oldIno) env.link
    c.next t fun r =>
      let t := t.setDir newDir c.dir
      match r with
      | .error err => (.done (.error err), t)
      | .ok () => (.done (.ok ()), if isDir then t.incNlink newDir else t)

/-- The `..` of a directory that was moved. -/
def renameParent (dirDe : Option Nat) (env : RenameEnv) (t : DirTree) :
    Exec (Except Errno Unit) × DirTree :=
  match dirDe with
  | none => (.done (.ok ()), t)
  | some de =>
    if oldDir ≠ newDir then
      let c := krSetLink g (t.dir oldIno) 0 de (t.target newDir) env.dotdot
      c.next t fun _ => (.done (.ok ()), (t.setDir oldIno c.dir).dropNlink oldDir)
    else (.done (.ok ()), t.dropNlink oldDir)

/-- The old entry, at the place where it was found. -/
def renameOld (n de : Nat) (dirDe : Option Nat) (env : RenameEnv) (t : DirTree) :
    Exec (Except Errno Unit) × DirTree :=
  let c := krDeleteEntry g (t.dir oldDir) n de env.delete
  c.next t fun _ => renameParent g oldDir newDir oldIno dirDe env (t.setDir oldDir c.dir)

/-- `kr_rename`. -/
def krRename (oldName newName : List UInt8) (newInode : Option Nat) (flags : UInt32)
    (env : RenameEnv) (t : DirTree) : Exec (Except Errno Unit) × DirTree :=
  if flags &&& ~~~ RENAME_NOREPLACE ≠ 0 then (.done (.error .einval), t)
  else
    match env.quotaOld, env.quotaNew with
    | some err, _ => (.done (.error err), t)
    | none, some err => (.done (.error err), t)
    | none, none =>
      match krFindEntry g (t.dir oldDir) oldName with
      | (none, d, _) => (.done (.error .enoent), t.setDir oldDir d)
      | (some (n, de), d, _) =>
        let t := t.setDir oldDir d
        let isDir := S_ISDIR (t.mode oldIno)
        let dirDe := if isDir then krDotdot g (t.dir oldIno) else none
        if isDir && dirDe.isNone then (.done (.error .eio), t)
        else
          match renameNew g newDir oldIno newName newInode isDir env t with
          | (.done (.ok ()), t) => renameOld g oldDir newDir oldIno n de dirDe env t
          | result => result

end Code

/-! ### `kr_dotdot` -/

/-- The first page has a second record, in use and named `..`. -/
def Dir.ParentSecond (g : DirGeom) (d : Dir) : Prop :=
  let p := d.page 0
  let de := deRecLen g p 0
  de < d.used g 0 ∧ deInode p de ≠ 0 ∧ deName p de = [46, 46]

section Dotdot

variable {g : DirGeom} {d : Dir}

theorem krDotdot_eq_some {de : Nat} (hcheck : krCheckPage g d 0 = none) :
    krDotdot g d = some de ↔ d.readable 0 = true ∧ de = deRecLen g (d.page 0) 0 := by
  unfold krDotdot krGetPage
  by_cases hread : d.readable 0 = true
  · rw [if_pos ⟨hread, hcheck⟩, Option.map_some, Option.some_inj, eq_comm]
    exact ⟨fun h => ⟨hread, h⟩, fun h => h.2⟩
  · rw [if_neg fun h => hread h.1]
    exact ⟨fun h => (nomatch h), fun h => absurd h.1 hread⟩

/-- The second record of an accepted first page. -/
theorem second_boundary (hcheck : krCheckPage g d 0 = none) :
    deRecLen g (d.page 0) 0 < d.used g 0 ↔ d.Boundary g 0 (deRecLen g (d.page 0) 0) := by
  have hin : 0 * g.pageSize ≤ d.iSize := by omega
  obtain ⟨hdvd, offs, htiled⟩ := (krCheckPage_eq_none hin).mp hcheck
  constructor
  · intro hlt
    refine ⟨offs, ⟨hin, hdvd, htiled⟩, ?_⟩
    generalize d.used g 0 = b at hlt htiled
    cases htiled with
    | nil => omega
    | cons ok rest =>
      rw [Nat.zero_add] at rest
      generalize deRecLen g (d.page 0) 0 = a at hlt rest
      cases rest with
      | nil => omega
      | cons ok' rest' => exact List.mem_cons_of_mem _ List.mem_cons_self
  · rintro ⟨offs', hgood, hmem⟩
    have hend := (hgood.tiled.bounds hmem).2
    have hpos := (hgood.tiled.ok_of_mem hmem).pos
    omega

/-- What `kr_dotdot` is for: nothing, or a record in use named `..` inside the page. -/
def Dir.DotdotOk (g : DirGeom) (d : Dir) : Prop :=
  krDotdot g d = none ∨ ∃ de, krDotdot g d = some de ∧ d.Live g 0 de ∧
    de + deRecLen g (d.page 0) de ≤ g.pageSize ∧ deName (d.page 0) de = [46, 46]

theorem dotdotOk_iff (hcheck : krCheckPage g d 0 = none) :
    d.DotdotOk g ↔ (d.readable 0 = true → d.ParentSecond g) := by
  constructor
  · intro hok hread
    have hsome : krDotdot g d = some (deRecLen g (d.page 0) 0) :=
      (krDotdot_eq_some hcheck).mpr ⟨hread, rfl⟩
    rcases hok with hnone | ⟨de, hde, hlive, -, hname⟩
    · rw [hsome] at hnone
      cases hnone
    · rw [hsome] at hde
      cases hde
      exact ⟨(second_boundary hcheck).mpr hlive.2.1, hlive.2.2, hname⟩
  · intro h
    by_cases hread : d.readable 0 = true
    · obtain ⟨hlt, hlive, hname⟩ := h hread
      have hboundary := (second_boundary hcheck).mp hlt
      have hpages : 0 < d.pages g := by
        rw [Dir.lt_pages]
        unfold Dir.used at hlt
        omega
      refine Or.inr ⟨_, (krDotdot_eq_some hcheck).mpr ⟨hread, rfl⟩, ⟨hpages, hboundary, hlive⟩, ?_, hname⟩
      obtain ⟨offs, hgood, hmem⟩ := hboundary
      have hend := (hgood.tiled.bounds hmem).2
      have hused := Dir.used_le g d 0
      omega
    · left
      cases hnone : krDotdot g d with
      | none => rfl
      | some de => exact absurd ((krDotdot_eq_some hcheck).mp hnone).1 hread

/-- The bytes that `kr_set_link` changes. -/
theorem krSetLink_page {n de i : Nat} {inode : LinkTarget} {env : ChunkEnv}
    (h : (krSetLink g d n de inode env).dir.page n i ≠ d.page n i) :
    (de ≤ i ∧ i < de + 4) ∨ (i = de + 7 ∧ deFileType (d.page n) de ≠ deTypeOf g inode.iMode) := by
  unfold krSetLink at h
  cases henv : env.prepare with
  | some err =>
    rw [henv] at h
    exact absurd rfl h
  | none =>
    rw [henv] at h
    simp only [krCommitChunk, Dir.setPage, Function.update_self, apply_cons, apply_nil] at h
    by_cases htype : i = de + 7
    · subst htype
      refine Or.inr ⟨rfl, fun heq => h ?_⟩
      have hstore : store (store (d.page n) de (digits 4 inode.iIno)) (de + 7)
          [deTypeOf g inode.iMode] (de + 7 + 0) = deTypeOf g inode.iMode :=
        store_inside (by simp : 0 < [deTypeOf g inode.iMode].length)
      exact hstore.trans heq.symm
    · left
      by_contra hno
      refine h ((store_outside ?_).trans (store_outside ?_))
      · simp only [List.length_singleton]
        omega
      · rw [length_digits]
        omega

/-- No byte is changed but for the inode number of the record that `kr_dotdot` finds,
which is in use, inside the page and named `..`. -/
def Dir.OnlyInode (g : DirGeom) (d d' : Dir) : Prop :=
  ∀ n i, d'.page n i ≠ d.page n i → n = 0 ∧ ∃ de, krDotdot g d = some de ∧ d.Live g 0 de ∧
    deName (d.page 0) de = [46, 46] ∧ de + deRecLen g (d.page 0) de ≤ g.pageSize ∧
    de ≤ i ∧ i < de + 4

theorem krSetLink_onlyInode (hcheck : krCheckPage g d 0 = none) (hok : d.DotdotOk g)
    (htype : d.readable 0 = true →
      deFileType (d.page 0) (deRecLen g (d.page 0) 0) = deTypeOf g S_IFDIR) {de : Nat}
    (hde : krDotdot g d = some de) {inode : LinkTarget} (hdir : S_ISDIR inode.iMode = true)
    {env : ChunkEnv} : d.OnlyInode g (krSetLink g d 0 de inode env).dir := by
  obtain ⟨hread, rfl⟩ := (krDotdot_eq_some hcheck).mp hde
  have hmode : deTypeOf g inode.iMode = deTypeOf g S_IFDIR := by
    have hmask : inode.iMode &&& S_IFMT = S_IFDIR := by simpa [S_ISDIR] using hdir
    unfold deTypeOf krTypeByMode
    rw [hmask]
    rfl
  intro n i hne
  have hn : n = 0 := by
    by_contra hn
    refine hne ?_
    unfold krSetLink
    cases henv : env.prepare with
    | some err => rfl
    | none => exact congrFun (Function.update_of_ne hn _ _) i
  subst hn
  rcases hok with hnone | ⟨de', hde', hlive, hend, hname⟩
  · rw [hde] at hnone
    cases hnone
  · rw [hde] at hde'
    cases hde'
    rcases krSetLink_page hne with hin | ⟨-, hchanged⟩
    · exact ⟨rfl, _, hde, hlive, hname, hend, hin⟩
    · rw [htype hread, hmode] at hchanged
      exact absurd rfl hchanged

end Dotdot

/-! ### The moved directory -/

section Moved

variable {g : DirGeom} {oldDir newDir oldIno : Nat} {oldName newName : List UInt8}
  {newInode : Option Nat} {flags : UInt32} {env : RenameEnv} {t : DirTree}

theorem renameNew_dir (isDir : Bool) {i : Nat} (hi : i ≠ newDir) :
    (renameNew g newDir oldIno newName newInode isDir env t).2.dir i = t.dir i := by
  unfold renameNew DirCall.next DirTree.setDir DirTree.dropNlink DirTree.incNlink
  cases newInode with
  | some victim =>
    dsimp only
    split
    · rfl
    · split
      · exact Function.update_of_ne hi _ _
      · split
        · split
          · exact Function.update_of_ne hi _ _
          · exact Function.update_of_ne hi _ _
        · rfl
        · rfl
  | none =>
    dsimp only
    split
    · split
      · exact Function.update_of_ne hi _ _
      · split
        · exact Function.update_of_ne hi _ _
        · exact Function.update_of_ne hi _ _
    · rfl
    · rfl

theorem renameParent_dir (dirDe : Option Nat) :
    (renameParent g oldDir newDir oldIno dirDe env t).2.dir oldIno = t.dir oldIno ∨
      ∃ de, dirDe = some de ∧ (renameParent g oldDir newDir oldIno dirDe env t).2.dir oldIno =
        (krSetLink g (t.dir oldIno) 0 de (t.target newDir) env.dotdot).dir := by
  unfold renameParent DirCall.next DirTree.setDir DirTree.dropNlink
  cases dirDe with
  | none => exact Or.inl rfl
  | some de =>
    dsimp only
    split
    · split
      · exact Or.inr ⟨de, rfl, Function.update_self _ _ _⟩
      · exact Or.inl rfl
      · exact Or.inl rfl
    · exact Or.inl rfl

theorem renameOld_dir (n de : Nat) (dirDe : Option Nat) (hold : oldIno ≠ oldDir) :
    (renameOld g oldDir newDir oldIno n de dirDe env t).2.dir oldIno = t.dir oldIno ∨
      ∃ de', dirDe = some de' ∧ (renameOld g oldDir newDir oldIno n de dirDe env t).2.dir oldIno =
        (krSetLink g (t.dir oldIno) 0 de' (t.target newDir) env.dotdot).dir := by
  unfold renameOld DirCall.next
  dsimp only
  have hsame : ∀ d, (t.setDir oldDir d).dir oldIno = t.dir oldIno :=
    fun d => DirTree.setDir_of_ne hold
  split
  · have hkept := hsame (krDeleteEntry g (t.dir oldDir) n de env.delete).dir
    rw [← hkept]
    exact renameParent_dir dirDe
  · exact Or.inl rfl
  · exact Or.inl rfl

theorem renameNew_mode (isDir : Bool) (i : Nat) :
    (renameNew g newDir oldIno newName newInode isDir env t).2.target i = t.target i := by
  unfold renameNew DirCall.next DirTree.setDir DirTree.dropNlink DirTree.incNlink DirTree.target
  cases newInode with
  | some victim =>
    dsimp only
    split
    · rfl
    · split
      · rfl
      · split
        · split <;> rfl
        · rfl
        · rfl
  | none =>
    dsimp only
    split
    · split
      · rfl
      · split <;> rfl
    · rfl
    · rfl

end Moved

/-- The call gets to look for the old entry. -/
def RenameEnv.Searches (env : RenameEnv) (flags : UInt32) : Prop :=
  flags &&& ~~~ RENAME_NOREPLACE = 0 ∧ env.quotaOld = none ∧ env.quotaNew = none

/-- How `kr_rename` goes: it gives up before the new entry is made, it stops there, or
it comes to the old entry. -/
inductive RenameCases (g : DirGeom) (oldDir newDir oldIno : Nat) (oldName newName : List UInt8)
    (newInode : Option Nat) (flags : UInt32) (env : RenameEnv) (t : DirTree)
    (r : Exec (Except Errno Unit) × DirTree) : Prop
  | early (err : Errno) (t' : DirTree)
      (htree : t' = t ∨ t' = t.setDir oldDir (krFindEntry g (t.dir oldDir) oldName).2.1)
      (hcause : env.Searches flags → (krFindEntry g (t.dir oldDir) oldName).1 ≠ none →
        S_ISDIR (t.mode oldIno) = true ∧
          krDotdot g ((t.setDir oldDir (krFindEntry g (t.dir oldDir) oldName).2.1).dir oldIno) = none)
      (heq : r = (.done (.error err), t'))
  | stopped (n de : Nat) (d : Dir) (scans : List Scan) (hsearches : env.Searches flags)
      (hfound : krFindEntry g (t.dir oldDir) oldName = (some (n, de), d, scans))
      (hret : r.1 ≠ .done (.ok ()))
      (heq : r = renameNew g newDir oldIno newName newInode (S_ISDIR (t.mode oldIno)) env
        (t.setDir oldDir d))
  | moved (n de : Nat) (d : Dir) (scans : List Scan) (dirDe : Option Nat) (t' : DirTree)
      (hsearches : env.Searches flags)
      (hfound : krFindEntry g (t.dir oldDir) oldName = (some (n, de), d, scans))
      (hdirDe : dirDe =
        if S_ISDIR (t.mode oldIno) then krDotdot g ((t.setDir oldDir d).dir oldIno) else none)
      (hsome : S_ISDIR (t.mode oldIno) = true → dirDe ≠ none)
      (hnew : renameNew g newDir oldIno newName newInode (S_ISDIR (t.mode oldIno)) env
        (t.setDir oldDir d) = (.done (.ok ()), t'))
      (heq : r = renameOld g oldDir newDir oldIno n de dirDe env t')

section Cases

variable {g : DirGeom} {oldDir newDir oldIno : Nat} {oldName newName : List UInt8}
  {newInode : Option Nat} {flags : UInt32} {env : RenameEnv} {t : DirTree}

theorem krRename_cases : RenameCases g oldDir newDir oldIno oldName newName newInode flags env t
    (krRename g oldDir newDir oldIno oldName newName newInode flags env t) := by
  unfold krRename
  by_cases hflags : flags &&& ~~~ RENAME_NOREPLACE ≠ 0
  · rw [if_pos hflags]
    exact .early .einval t (Or.inl rfl) (fun hsearches => absurd hsearches.1 hflags) rfl
  · rw [if_neg hflags]
    cases hold : env.quotaOld with
    | some err =>
      refine .early err t (Or.inl rfl) (fun hsearches => ?_) rfl
      rw [hsearches.2.1] at hold
      cases hold
    | none =>
      cases hnewQuota : env.quotaNew with
      | some err =>
        refine .early err t (Or.inl rfl) (fun hsearches => ?_) rfl
        rw [hsearches.2.2] at hnewQuota
        cases hnewQuota
      | none =>
        have hsearches : env.Searches flags := ⟨not_not.mp hflags, hold, hnewQuota⟩
        dsimp only
        rcases hfind : krFindEntry g (t.dir oldDir) oldName with ⟨found, d, scans⟩
        cases found with
        | none =>
          refine .early .enoent _ (Or.inr ?_) (fun _ hfound => ?_) rfl
          · rw [hfind]
          · rw [hfind] at hfound
            exact absurd rfl hfound
        | some place =>
          obtain ⟨n, de⟩ := place
          dsimp only
          by_cases hnone : (S_ISDIR ((t.setDir oldDir d).mode oldIno) &&
              (if S_ISDIR ((t.setDir oldDir d).mode oldIno) = true then
                krDotdot g ((t.setDir oldDir d).dir oldIno) else none).isNone) = true
          · rw [if_pos hnone]
            rw [Bool.and_eq_true] at hnone
            have hdir : S_ISDIR ((t.setDir oldDir d).mode oldIno) = true := hnone.1
            rw [if_pos hdir, Option.isNone_iff_eq_none] at hnone
            refine .early .eio _ (Or.inr ?_) (fun _ _ => ⟨hdir, ?_⟩) rfl
            · rw [hfind]
            · rw [hfind]
              exact hnone.2
          · rw [if_neg hnone]
            rcases hnew : renameNew g newDir oldIno newName newInode (S_ISDIR (t.mode oldIno)) env
              (t.setDir oldDir d) with ⟨ret, t'⟩
            have hnew' : renameNew g newDir oldIno newName newInode
                (S_ISDIR ((t.setDir oldDir d).mode oldIno)) env (t.setDir oldDir d) = (ret, t') := hnew
            rw [hnew']
            by_cases hret : ret = .done (.ok ())
            · subst hret
              refine .moved n de d scans _ t' hsearches hfind rfl ?_ hnew rfl
              intro hdir hdirDe
              refine hnone ?_
              have hdir' : S_ISDIR ((t.setDir oldDir d).mode oldIno) = true := hdir
              rw [hdir', Bool.true_and]
              rw [hdir] at hdirDe
              rw [hdirDe]
              rfl
            · refine .stopped n de d scans hsearches hfind ?_ ?_
              · split
                · rename_i heq
                  cases heq
                  exact absurd rfl hret
                · exact hret
              · rw [hnew]
                split
                · rename_i heq
                  cases heq
                  exact absurd rfl hret
                · rfl

/-- A directory that is moved is only changed by `kr_set_link` at what `kr_dotdot`
gives. -/
theorem krRename_moved (hold : oldIno ≠ oldDir) (hnew : oldIno ≠ newDir) :
    (krRename g oldDir newDir oldIno oldName newName newInode flags env t).2.dir oldIno =
        t.dir oldIno ∨
      ∃ de, krDotdot g (t.dir oldIno) = some de ∧
        (krRename g oldDir newDir oldIno oldName newName newInode flags env t).2.dir oldIno =
          (krSetLink g (t.dir oldIno) 0 de (t.target newDir) env.dotdot).dir := by
  have hsame : ∀ d, (t.setDir oldDir d).dir oldIno = t.dir oldIno :=
    fun d => DirTree.setDir_of_ne hold
  have hcases : RenameCases g oldDir newDir oldIno oldName newName newInode flags env t
      (krRename g oldDir newDir oldIno oldName newName newInode flags env t) := krRename_cases
  generalize krRename g oldDir newDir oldIno oldName newName newInode flags env t = r at hcases ⊢
  cases hcases with
  | early err t' htree hcause heq =>
    left
    rw [heq]
    rcases htree with rfl | rfl
    · rfl
    · exact hsame _
  | stopped n de d scans hsearches hfound hret heq =>
    left
    rw [heq, renameNew_dir _ hnew]
    exact hsame d
  | moved n de d scans dirDe t' hsearches hfound hdirDe hsome hnewEntry heq =>
    have hdir : t'.dir oldIno = t.dir oldIno := by
      have hkept : (renameNew g newDir oldIno newName newInode (S_ISDIR (t.mode oldIno)) env
          (t.setDir oldDir d)).2.dir oldIno = (t.setDir oldDir d).dir oldIno := renameNew_dir _ hnew
      rw [hnewEntry, hsame] at hkept
      exact hkept
    have hmode : t'.target newDir = t.target newDir := by
      have hkept : (renameNew g newDir oldIno newName newInode (S_ISDIR (t.mode oldIno)) env
          (t.setDir oldDir d)).2.target newDir = (t.setDir oldDir d).target newDir :=
        renameNew_mode _ newDir
      rw [hnewEntry] at hkept
      exact hkept
    rw [heq]
    rcases renameOld_dir n de dirDe hold with h | ⟨de', hde', h⟩
    · left
      rw [h, hdir]
    · right
      rw [hsame] at hdirDe
      refine ⟨de', ?_, ?_⟩
      · rw [hde'] at hdirDe
        split at hdirDe
        · exact hdirDe.symm
        · cases hdirDe
      · rw [h, hdir, hmode]

end Cases

/-- `kr_dotdot` gives nothing or a record in use named `..`, and a move to another
parent changes nothing but its inode number, just when the second record of a first
page that can be read is such a record, with the type of a directory. -/
theorem krDotdot_rename_iff {g : DirGeom} {d : Dir} (hcheck : krCheckPage g d 0 = none) :
    (d.DotdotOk g ∧
      (∀ de inode env, krDotdot g d = some de → S_ISDIR inode.iMode = true →
        d.OnlyInode g (krSetLink g d 0 de inode env).dir) ∧
      ∀ oldDir newDir oldIno oldName newName newInode flags env (t : DirTree), t.dir oldIno = d →
        oldIno ≠ oldDir → oldIno ≠ newDir → S_ISDIR (t.mode newDir) = true → d.OnlyInode g
          ((krRename g oldDir newDir oldIno oldName newName newInode flags env t).2.dir oldIno)) ↔
      (d.readable 0 = true → d.ParentSecond g ∧
        deFileType (d.page 0) (deRecLen g (d.page 0) 0) = deTypeOf g S_IFDIR) := by
  constructor
  · rintro ⟨hok, hset, -⟩ hread
    refine ⟨(dotdotOk_iff hcheck).mp hok hread, ?_⟩
    by_contra htype
    have hsome : krDotdot g d = some (deRecLen g (d.page 0) 0) :=
      (krDotdot_eq_some hcheck).mpr ⟨hread, rfl⟩
    have honly := hset _ ⟨2, S_IFDIR⟩ ⟨none, 0, none⟩ hsome (by decide) 0
      (deRecLen g (d.page 0) 0 + 7)
    have hbyte : (krSetLink g d 0 (deRecLen g (d.page 0) 0) ⟨2, S_IFDIR⟩ ⟨none, 0, none⟩).dir.page 0
        (deRecLen g (d.page 0) 0 + 7) = deTypeOf g S_IFDIR := by
      simp only [krSetLink, krCommitChunk, Dir.setPage, Function.update_self, apply_cons, apply_nil]
      exact store_inside (by simp : 0 < [deTypeOf g S_IFDIR].length)
    obtain ⟨-, de, hde, -, -, -, -, hlt⟩ := honly (by rw [hbyte]; exact fun h => htype h.symm)
    rw [hsome] at hde
    cases hde
    omega
  · intro h
    have hok := (dotdotOk_iff hcheck).mpr fun hread => (h hread).1
    have hset : ∀ de inode env, krDotdot g d = some de → S_ISDIR inode.iMode = true →
        d.OnlyInode g (krSetLink g d 0 de inode env).dir := fun de inode env hde hdir =>
      krSetLink_onlyInode hcheck hok (fun hread => (h hread).2) hde hdir
    refine ⟨hok, hset, ?_⟩
    rintro oldDir newDir oldIno oldName newName newInode flags env t rfl hold hnew hdir
    rcases krRename_moved hold hnew with heq | ⟨de, hde, heq⟩
    · rw [heq]
      intro n i hne
      exact absurd rfl hne
    · rw [heq]
      exact hset de _ _ hde hdir

/-- A new directory has its parent behind itself. -/
theorem krDotdot_rename_iff_small : smallDir.DotdotOk smallGeom := by
  have hcheck : krCheckPage smallGeom smallDir 0 = none := by decide +kernel
  have hsecond : smallDir.ParentSecond smallGeom := by
    unfold Dir.ParentSecond
    decide +kernel
  exact ((krDotdot_rename_iff hcheck).mpr fun _ => ⟨hsecond, by decide +kernel⟩).1

/-- A page of 4 KiB that is one record. -/
def oneRecordDir : Dir :=
  ⟨11, 4096, 8, 1, 0, fun _ => Bytes.apply (fun _ => 0) [⟨0, [11, 0, 0, 0, 0, 16, 1, 2, 46]⟩],
    fun _ => true⟩

/-- It is accepted, and `kr_dotdot` gives the address behind it, to which
`kr_set_link` writes. -/
theorem krDotdot_outside :
    let g : DirGeom := ⟨12, 12, 100, true, by decide, by decide, by decide⟩
    krCheckPage g oneRecordDir 0 = none ∧ krDotdot g oneRecordDir = some 4096 ∧
      (krSetLink g oneRecordDir 0 4096 ⟨2, 0x41ED⟩ ⟨none, 0, none⟩).stores =
        some (0, [⟨4096, [2, 0, 0, 0]⟩, ⟨4103, [2]⟩]) ∧
      ¬ oneRecordDir.DotdotOk g := by
  intro g
  have hcheck : krCheckPage g oneRecordDir 0 = none := by decide +kernel
  have hdotdot : krDotdot g oneRecordDir = some 4096 := by decide +kernel
  refine ⟨hcheck, hdotdot, rfl, ?_⟩
  intro hok
  have hsecond := (dotdotOk_iff hcheck).mp hok rfl
  have hused : oneRecordDir.used g 0 = 4096 := by decide +kernel
  have hlen : deRecLen g (oneRecordDir.page 0) 0 = 4096 := by decide +kernel
  have hlt := hsecond.1
  rw [hused, hlen] at hlt
  omega

end KrFs
