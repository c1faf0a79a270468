import KrFs.NamePaths

/-!
# The blocks of directories

A search goes over as many pages of a directory as `i_blocks` has room for. When each chunk that
a directory grows by is charged to it, the blocks cover the size after every run of calls, and
each name is found.
-/

namespace KrFs

open Bytes Tiling

/-- The blocks of a directory cover its size. -/
def Dir.Covered (d : Dir) : Prop := d.iSize ≤ d.iBlocks * 512

/-- The chunk that a full directory gets for a name is charged to it. -/
def Dir.Charges (g : DirGeom) (d : Dir) (name : List UInt8) (env : ChunkEnv) : Prop :=
  d.Full g name → env.prepare = none → g.chunkSize ≤ env.sectors * 512

/-! ## The calls of `dir.c` -/

section Dirs

variable {g : DirGeom} {d d' : Dir} {name : List UInt8} {n de pos len : Nat} {inode : LinkTarget}
  {env : ChunkEnv} {e : List UInt8 × (Nat × UInt8)}

theorem krCommitChunk_covered (h : d.Covered) (hend : pos + len ≤ d.iBlocks * 512) :
    (krCommitChunk d pos len).Covered := by
  unfold Dir.Covered krCommitChunk
  dsimp only
  split
  · exact hend
  · exact h

theorem Dir.Covered.charge (h : d.Covered) (n sectors : Nat) (p : Nat → UInt8) :
    ({ d.setPage n p with iBlocks := d.iBlocks + sectors } : Dir).Covered :=
  Nat.le_trans h (Nat.mul_le_mul_right 512 (Nat.le_add_right d.iBlocks sectors))

/-- A search leaves size and blocks as they are. -/
theorem Dir.Covered.find (h : d.Covered) {found : Option (Nat × Nat)} {scans : List Scan}
    (hfound : krFindEntry g d name = (found, d', scans)) : d'.Covered := by
  obtain ⟨k, hk⟩ := krFindEntry_dir g d name
  rw [hfound] at hk
  have hd : d' = { d with iDirStartLookup := k } := hk
  rw [hd]
  exact h

theorem krSetLink_covered (h : d.Covered) (hlaid : d.LaidOut g)
    (hslot : d.slots g (n, de) = some e) : (krSetLink g d n de inode env).dir.Covered := by
  obtain ⟨hmem, -, -⟩ := Dir.slots_eq_some.mp hslot
  have hend := hlaid.inside hmem
  have hcovered : d.iSize ≤ d.iBlocks * 512 := h
  unfold krSetLink
  cases env.prepare with
  | some err => exact h
  | none =>
    refine krCommitChunk_covered h ?_
    dsimp only [Dir.setPage]
    omega

theorem krDeleteEntry_iBlocks : (krDeleteEntry g d n de env).dir.iBlocks = d.iBlocks := by
  unfold krDeleteEntry
  dsimp only
  split
  · cases env.prepare with
    | some err => rfl
    | none => rfl
  · rfl

theorem krDeleteEntry_covered (h : d.Covered) (hchunk : g.chunkBits ≤ 16) (hlaid : d.LaidOut g)
    (hslot : d.slots g (n, de) = some e) (hprepare : env.prepare = none) :
    (krDeleteEntry g d n de env).dir.Covered := by
  obtain ⟨hmem, -, -⟩ := Dir.slots_eq_some.mp hslot
  have hsize := (krDeleteEntry_edit env hchunk hlaid hmem hprepare).2.size
  have hcovered : d.iSize ≤ d.iBlocks * 512 := h
  unfold Dir.Covered
  rw [krDeleteEntry_iBlocks]
  omega

theorem addLinkAt_covered (h : d.Covered) {recLen nameLen : Nat} {first : List Store}
    {scans : List Scan} (hend : env.prepare = none →
      n * g.pageSize + de + recLen ≤ (d.iBlocks + env.sectors) * 512) :
    (addLinkAt g d name inode env n de recLen nameLen first scans).dir.Covered := by
  unfold addLinkAt
  cases hprepare : env.prepare with
  | some err => exact h
  | none => exact krCommitChunk_covered (h.charge n env.sectors _) (hend hprepare)

/-- A name goes into a record inside the directory, or into a chunk that is charged. -/
theorem krAddLink_covered (h : d.Covered) (hok : d.Ok g) (hname : name.length ≤ 255)
    (hcharges : d.Charges g name env) : (krAddLink g d name inode env).dir.Covered := by
  have houtcome : AddOutcome g d name inode env (krAddLink g d name inode env) :=
    krAddLink_outcome hok hname
  have hcovered : d.iSize ≤ d.iBlocks * 512 := h
  cases houtcome with
  | fresh n scans hn hread hroom hfull heq =>
    rw [heq]
    apply addLinkAt_covered h
    intro hprepare
    have hcharged := hcharges hfull hprepare
    have hend := Dir.used_end hn
    have hmod := Nat.mod_le g.chunkSize (2 ^ 16)
    omega
  | room n de recLen nameLen scans hmem hroom hpassed heq =>
    rw [heq]
    apply addLinkAt_covered h
    intro hprepare
    have hend := hok.laidOut.inside hmem
    have hfull := hroom.recLen_full
    omega
  | found n de hmem hmatch hdir hret =>
    rw [hdir]
    exact h
  | loops n de hmem hlen hpassed hdir hret =>
    rw [hdir]
    exact h
  | unread hread hfull hdir hret =>
    rw [hdir]
    exact h

theorem krMakeEmpty_covered {parent : Nat} (h : d.Covered)
    (hcharged : env.prepare = none → g.chunkSize ≤ env.sectors * 512) :
    (krMakeEmpty g d inode parent env).dir.Covered := by
  unfold krMakeEmpty
  cases hprepare : env.prepare with
  | some err => exact h
  | none =>
    have hend : 0 + g.chunkSize ≤ (d.iBlocks + env.sectors) * 512 := by
      have hchunk := hcharged hprepare
      omega
    exact krCommitChunk_covered (h.charge 0 env.sectors _) hend

end Dirs

/-! ## Trees -/

/-- The blocks of the directories in use cover their sizes. -/
def DirTree.Covered (inUse : Nat → Bool) (t : DirTree) : Prop :=
  ∀ i, (inUse i && S_ISDIR (t.mode i)) = true → (t.dir i).Covered

theorem DirTree.Covered.setDir {inUse : Nat → Bool} {t : DirTree} {d : Dir} (h : t.Covered inUse)
    (i : Nat) (hd : d.Covered) : (t.setDir i d).Covered inUse := by
  intro j hj
  by_cases heq : j = i
  · subst heq
    rw [setDir_self]
    exact hd
  · rw [setDir_of_ne heq]
    exact h j hj

namespace NameTree

def Covered (t : NameTree) : Prop := t.toDirTree.Covered t.inUse

section Trees

variable {g : DirGeom} {root : Nat} {t s : NameTree} {dir ino i : Nat} {name : List UInt8}
  {env : NameEnv} {mode : UInt16} {d : Dir}

theorem Covered.blocksCover (h : t.Covered) : t.BlocksCover := fun hlive => h _ hlive.isDirectory

theorem Covered.setDir (h : t.Covered) (i : Nat) (hd : d.Covered) : (t.setDir i d).Covered :=
  DirTree.Covered.setDir h i hd

theorem Covered.incNlink (h : t.Covered) (i : Nat) : (t.incNlink i).Covered := h

theorem Covered.dropNlink (h : t.Covered) (i : Nat) : (t.dropNlink i).Covered := h

theorem Covered.newInode (h : t.Covered) (i : Nat) (mode : UInt16) :
    (t.newInode i mode).Covered := by
  intro j hj
  show ((t.newInode i mode).dir j).Covered
  rw [newInode_dir]
  by_cases heq : j = i
  · subst heq
    rw [Function.update_self]
    exact Nat.zero_le _
  · have hdir : (t.inUse j && S_ISDIR (t.mode j)) = true := by simpa [heq] using hj
    rw [Function.update_of_ne heq]
    exact h j hdir

theorem Covered.iput (h : t.Covered) (i : Nat) : (t.iput i).Covered := by
  by_cases hlinks : t.nlink i = 0
  · rw [iput_of_unlinked hlinks]
    intro j hj
    apply h j
    by_cases heq : j = i
    · subst heq
      simp at hj
    · simpa [heq] using hj
  · unfold NameTree.iput
    rw [if_neg hlinks]
    exact h

theorem andThen_covered {c : DirCall}
    {rest : Except Errno Unit → Exec (Except Errno Unit) × NameTree} (h : s.Covered)
    (hrest : ∀ e, (rest e).2.Covered) : (c.andThen s rest).2.Covered := by
  unfold DirCall.andThen
  split
  · exact hrest _
  · exact h
  · exact h

/-! ### Calls of `namei.c` -/

/-- A call that makes an entry. -/
theorem Site.add_covered (h : t.Site g root dir name) (hcov : t.Covered) {inode : LinkTarget}
    {link : ChunkEnv} {rest : Except Errno Unit → Exec (Except Errno Unit) × NameTree}
    (hs : s.Covered) (hparent : s.dir dir = t.dir dir) (hcharges : (t.dir dir).Charges g name link)
    (hrest : ∀ e, (s.setDir dir (krAddLink g (s.dir dir) name inode link).dir).Covered →
      (rest e).2.Covered) :
    ((krAddLink g (s.dir dir) name inode link).andThen s rest).2.Covered := by
  apply andThen_covered hs
  intro e
  apply hrest
  apply hs.setDir dir
  rw [hparent]
  exact krAddLink_covered (hcov dir h.live.isDirectory) (h.placed.proper h.live).good.ok h.short
    hcharges

theorem Site.addNondir_covered (h : t.Site g root dir name) (hcov : t.Covered)
    (hfresh : t.Fresh g ino) (hcharges : (t.dir dir).Charges g name env.link) :
    (krAddNondir g dir name env ino (t.newInode ino mode)).2.Covered := by
  apply h.add_covered hcov (hcov.newInode ino mode) (h.newInode_parent hfresh) hcharges
  intro e hset
  cases e with
  | ok _ => exact hset
  | error err => exact (hset.dropNlink ino).iput ino

theorem Site.createNode_covered (h : t.Site g root dir name) (hcov : t.Covered)
    (hfresh : ∀ ino, env.newInode = .ok ino → t.Fresh g ino)
    (hcharges : (t.dir dir).Charges g name env.link) :
    (createNode g dir name env mode t).2.Covered := by
  unfold createNode
  cases env.quota with
  | some err => exact hcov
  | none =>
    cases hnew : env.newInode with
    | error err => exact hcov
    | ok ino => exact h.addNondir_covered hcov (hfresh ino hnew) hcharges

theorem Site.krSymlink_covered (h : t.Site g root dir name) (hcov : t.Covered)
    (hfresh : ∀ ino, env.newInode = .ok ino → t.Fresh g ino)
    (hcharges : (t.dir dir).Charges g name env.link) (symname : List UInt8) :
    (krSymlink g dir name env symname t).2.Covered := by
  unfold krSymlink
  dsimp only
  split
  · exact hcov
  · cases env.quota with
    | some err => exact hcov
    | none =>
      cases hnew : env.newInode with
      | error err => exact hcov
      | ok ino =>
        dsimp only
        cases (if 60 < symname.length + 1 then env.pageSymlink else none) with
        | some err => exact ((hcov.newInode ino _).dropNlink ino).iput ino
        | none => exact h.addNondir_covered hcov (hfresh ino hnew) hcharges

theorem Covered.krTmpfile (hcov : t.Covered) (env : NameEnv) (mode : UInt16) :
    (krTmpfile env mode t).2.Covered := by
  unfold KrFs.krTmpfile
  cases env.newInode with
  | error err => exact hcov
  | ok ino => exact (hcov.newInode ino _).dropNlink ino

theorem Site.krLink_covered (h : t.Site g root dir name) (hcov : t.Covered)
    (hcharges : (t.dir dir).Charges g name env.link) (ino : Nat) :
    (krLink g dir name env ino t).2.Covered := by
  unfold krLink
  cases env.quota with
  | some err => exact hcov
  | none =>
    apply h.add_covered hcov (hcov.incNlink ino) rfl hcharges
    intro e hset
    cases e with
    | ok _ => exact hset
    | error err => exact hset.dropNlink ino

theorem Covered.mkdirFail (hcov : t.Covered) (dir ino : Nat) (err : Errno) :
    (mkdirFail dir ino err t).2.Covered :=
  (((hcov.dropNlink ino).dropNlink ino).iput ino).dropNlink dir

theorem Site.krMkdir_covered (h : t.Site g root dir name) (hcov : t.Covered)
    (hfresh : ∀ ino, env.newInode = .ok ino → t.Fresh g ino)
    (hcharges : (t.dir dir).Charges g name env.link)
    (hempty : env.empty.prepare = none → g.chunkSize ≤ env.empty.sectors * 512) :
    (krMkdir g dir name env mode t).2.Covered := by
  unfold krMkdir
  cases env.quota with
  | some err => exact hcov
  | none =>
    have hinc := hcov.incNlink dir
    cases hnew : env.newInode with
    | error err => exact hinc.dropNlink dir
    | ok ino =>
      have hne := (hfresh ino hnew).ne h.live.inUse
      have hmade := (hinc.newInode ino (env.initMode (S_IFDIR ||| mode))).incNlink ino
      have hblank : ((((t.incNlink dir).newInode ino (env.initMode (S_IFDIR ||| mode))).incNlink
          ino).dir ino).Covered := by
        simp [Dir.Covered, Dir.blank]
      have hparent : (((t.incNlink dir).newInode ino (env.initMode (S_IFDIR ||| mode))).incNlink
          ino).dir dir = t.dir dir := by
        simp [hne]
      dsimp only
      generalize ((t.incNlink dir).newInode ino (env.initMode (S_IFDIR ||| mode))).incNlink ino = s
        at hmade hblank hparent ⊢
      have hdots : (krMakeEmpty g (s.dir ino) (s.target ino) dir env.empty).dir.Covered :=
        krMakeEmpty_covered hblank hempty
      apply andThen_covered hmade
      intro e
      have hset := hmade.setDir ino hdots
      cases e with
      | error err => exact hset.mkdirFail dir ino err
      | ok _ =>
        apply h.add_covered hcov hset (by simp [hne, hparent]) hcharges
        intro e hset'
        cases e with
        | error err => exact hset'.mkdirFail dir ino err
        | ok _ => exact hset'

theorem Site.krUnlink_covered (h : t.Site g root dir name) (hcov : t.Covered) (henv : env.Steady)
    (ino : Nat) : (krUnlink g dir name env ino t).2.Covered := by
  have hdir := hcov dir h.live.isDirectory
  unfold krUnlink
  cases env.quota with
  | some err => exact hcov
  | none =>
    rcases hfound : krFindEntry g (t.dir dir) name with ⟨_ | ⟨n, de⟩, d, scans⟩
    · exact hcov.setDir dir (hdir.find hfound)
    · obtain ⟨hstays, w, hslot⟩ := (h.placed.proper h.live).found h.short hfound
      rw [← hstays.slots] at hslot
      have hd := hdir.find hfound
      have hdeleted := krDeleteEntry_covered hd h.chunk hstays.proper.good.ok.laidOut hslot
        henv.prepare
      apply andThen_covered (hcov.setDir dir hd)
      intro e
      have hset := (hcov.setDir dir hd).setDir dir hdeleted
      cases e with
      | error err => exact hset
      | ok _ => exact hset.dropNlink ino

theorem Site.krRmdir_covered (h : t.Site g root dir name) (hcov : t.Covered) (henv : env.Steady)
    (ino : Nat) : (krRmdir g dir name env ino t).2.Covered := by
  have hunlink := h.krUnlink_covered hcov henv ino
  unfold krRmdir
  split
  · exact hcov
  · split
    · rename_i s heq
      rw [heq] at hunlink
      have hempty : ({ s.dir ino with iSize := 0 } : Dir).Covered := Nat.zero_le _
      exact ((hunlink.setDir ino hempty).dropNlink ino).dropNlink dir
    · exact hunlink

end Trees

end NameTree

/-! ### `kr_rename` -/

section Rename

variable {g : DirGeom} {root : Nat} {oldDir newDir oldIno n de : Nat} {oldName newName : List UInt8}
  {newInode : Option Nat} {flags : UInt32} {env : RenameEnv} {inUse : Nat → Bool}
  {e : List UInt8 × (Nat × UInt8)} {dirDe : Option Nat}

theorem next_covered {t : DirTree} {c : DirCall}
    {rest : Except Errno Unit → Exec (Except Errno Unit) × DirTree} (h : t.Covered inUse)
    (hrest : ∀ e, (rest e).2.Covered inUse) : (c.next t rest).2.Covered inUse := by
  unfold DirCall.next
  split
  · exact hrest _
  · exact h
  · exact h

theorem renameParent_covered {t : DirTree} (h : t.Covered inUse)
    (hentry : ∀ de, dirDe = some de → (t.dir oldIno).Covered ∧ ParentEntry g (t.dir oldIno) de) :
    (renameParent g oldDir newDir oldIno dirDe env t).2.Covered inUse := by
  unfold renameParent
  cases dirDe with
  | none => exact h
  | some de =>
    obtain ⟨hobject, hlaid, -, w, hslot⟩ := hentry de rfl
    dsimp only
    split
    · apply next_covered h
      intro e
      exact h.setDir oldIno (krSetLink_covered hobject hlaid hslot)
    · exact h

theorem renameOld_covered {t : DirTree} (h : t.Covered inUse) (hchunk : g.chunkBits ≤ 16)
    (hold : (t.dir oldDir).Covered) (hlaid : (t.dir oldDir).LaidOut g)
    (hslot : (t.dir oldDir).slots g (n, de) = some e) (hprepare : env.delete.prepare = none)
    (hne : oldIno ≠ oldDir)
    (hentry : ∀ de, dirDe = some de → (t.dir oldIno).Covered ∧ ParentEntry g (t.dir oldIno) de) :
    (renameOld g oldDir newDir oldIno n de dirDe env t).2.Covered inUse := by
  have hset := h.setDir oldDir (krDeleteEntry_covered hold hchunk hlaid hslot hprepare)
  unfold renameOld
  apply next_covered h
  intro e
  apply renameParent_covered hset
  rw [DirTree.setDir_of_ne hne]
  exact hentry

namespace NameTree

variable {t s : NameTree}

theorem RenameSite.new_covered
    (h : s.RenameSite g root oldDir newDir oldIno oldName newName newInode) (hcov : s.Covered)
    (hcharges : newInode = none → (s.dir newDir).Charges g newName env.link) (isDir : Bool) :
    (renameNew g newDir oldIno newName newInode isDir env s.toDirTree).2.Covered s.inUse := by
  have hproper := h.placed.proper h.new.live
  have hdir := hcov newDir h.new.live.isDirectory
  unfold renameNew
  cases newInode with
  | some victim =>
    dsimp only
    split
    · exact hcov
    · rcases hfound : krFindEntry g (s.dir newDir) newName with ⟨_ | ⟨n, de⟩, d, scans⟩
      · exact DirTree.Covered.setDir hcov newDir (hdir.find hfound)
      · obtain ⟨hstays, w, hslot⟩ := hproper.found h.new.short hfound
        rw [← hstays.slots] at hslot
        have hset : (krSetLink g d n de (s.target oldIno) env.link).dir.Covered :=
          krSetLink_covered (hdir.find hfound) hstays.proper.good.ok.laidOut hslot
        apply next_covered hcov
        intro e
        cases isDir with
        | true => exact DirTree.Covered.setDir hcov newDir hset
        | false => exact DirTree.Covered.setDir hcov newDir hset
  | none =>
    have hadded : (krAddLink g (s.dir newDir) newName (s.target oldIno) env.link).dir.Covered :=
      krAddLink_covered hdir hproper.good.ok h.new.short (hcharges rfl)
    apply next_covered hcov
    intro e
    cases e with
    | error err => exact DirTree.Covered.setDir hcov newDir hadded
    | ok _ =>
      cases isDir with
      | true => exact DirTree.Covered.setDir hcov newDir hadded
      | false => exact DirTree.Covered.setDir hcov newDir hadded

/-- The rest of a rename after the new entry. -/
theorem RenameSite.old_covered
    (h : s.RenameSite g root oldDir newDir oldIno oldName newName newInode)
    (henv : env.Steady newInode) {w : Nat × UInt8}
    (hslot : (s.dir oldDir).slots g (n, de) = some (oldName, w)) {d : Dir} {v : Nat × UInt8}
    (hbinds : (s.dir newDir).Binds g newDir d newName v) {isDir : Bool}
    (hcov : ((s.setDir newDir d).relinked newDir newInode isDir).toDirTree.Covered s.inUse)
    (hdirDe : dirDe = if S_ISDIR (s.mode oldIno) then krDotdot g (s.dir oldIno) else none) :
    (renameOld g oldDir newDir oldIno n de dirDe env
      ((s.setDir newDir d).relinked newDir newInode isDir).toDirTree).2.Covered s.inUse := by
  obtain ⟨hproper, hslot'⟩ := h.old_entry hslot hbinds
  have hdirs : ∀ {i}, s.isDirectory i = true →
      (((s.setDir newDir d).relinked newDir newInode isDir).dir i).Covered := by
    intro i hi
    apply hcov i
    rw [relinked_mode]
    exact hi
  have hobject : (s.setDir newDir d).dir oldIno = s.dir oldIno :=
    Function.update_of_ne h.outside.symm _ _
  rw [← relinked_dir] at hproper hslot' hobject
  apply renameOld_covered hcov h.chunk (hdirs h.live.isDirectory) hproper.good.ok.laidOut hslot'
    henv.prepare (h.counted.loopless h.entry).symm
  intro de' hde
  cases hdir : S_ISDIR (s.mode oldIno) with
  | false =>
    rw [hdirDe, hdir] at hde
    cases hde
  | true =>
    have hlinked := h.counted.linked_of_named h.entry
    rw [links_nlink h.used] at hlinked
    have hparent := h.placed.proper ⟨h.used, hdir, hlinked⟩
    obtain ⟨w', hdotdot⟩ := hparent.dotdot
    rw [hdirDe, hdir, if_pos rfl, hparent.krDotdot] at hde
    cases hde
    constructor
    · exact hdirs (isDirectory_iff.mpr ⟨h.used, hdir⟩)
    · rw [hobject]
      exact ⟨hparent.good.ok.laidOut, hparent.good.distinct, w', hdotdot⟩

/-- The search for the old entry does not change what the new one is charged. -/
theorem charges_searched {d : Dir} {found : Option (Nat × Nat)} {scans : List Scan}
    (hfound : krFindEntry g (t.dir oldDir) oldName = (found, d, scans)) {link : ChunkEnv}
    (h : (t.dir newDir).Charges g newName link) :
    ((t.setDir oldDir d).dir newDir).Charges g newName link := by
  obtain ⟨k, hk⟩ := krFindEntry_dir g (t.dir oldDir) oldName
  rw [hfound] at hk
  have hd : d = { t.dir oldDir with iDirStartLookup := k } := hk
  obtain ⟨k', hkept⟩ : ∃ k', (t.setDir oldDir d).dir newDir =
      { t.dir newDir with iDirStartLookup := k' } := by
    rw [hd]
    exact setDir_hint oldDir k newDir
  rw [hkept]
  exact h

theorem RenameSite.rename_covered
    (h : t.RenameSite g root oldDir newDir oldIno oldName newName newInode) (hcov : t.Covered)
    (henv : env.Steady newInode)
    (hgrows : env.Searches flags → newInode = none → env.link.prepare = none →
      (t.dir newDir).Grows g newName)
    (hcharges : newInode = none → (t.dir newDir).Charges g newName env.link) :
    (t.rename g oldDir newDir oldIno oldName newName newInode flags env).2.Covered := by
  have hdir := hcov oldDir h.live.isDirectory
  have hcases : RenameCases g oldDir newDir oldIno oldName newName newInode flags env t.toDirTree
      (krRename g oldDir newDir oldIno oldName newName newInode flags env t.toDirTree) :=
    krRename_cases
  unfold rename
  dsimp only
  generalize krRename g oldDir newDir oldIno oldName newName newInode flags env t.toDirTree = r
    at hcases ⊢
  show r.2.Covered t.inUse
  cases hcases with
  | early err t' htree hcause heq =>
    subst heq
    rcases htree with rfl | rfl
    · exact hcov
    · exact DirTree.Covered.setDir hcov oldDir (hdir.find rfl)
  | stopped n de d scans hsearches hfound hret heq =>
    obtain ⟨-, hsite, -, -⟩ := h.searched hfound
    rw [heq]
    exact hsite.new_covered (hcov.setDir oldDir (hdir.find hfound))
      (fun hnone => charges_searched hfound (hcharges hnone)) _
  | moved n de d scans dirDe t' hsearches hfound hdirDe hsome hnew heq =>
    obtain ⟨-, hsite, ⟨w, hslot⟩, hgrows'⟩ := h.searched hfound
    have hend := hsite.new_end henv (fun hnone hprepare => hgrows' (hgrows hsearches hnone hprepare))
      (S_ISDIR (t.mode oldIno))
    have hnew' : renameNew g newDir oldIno newName newInode (S_ISDIR (t.mode oldIno)) env
      (t.setDir oldDir d).toDirTree = (.done (.ok ()), t') := hnew
    have hmade := hsite.new_covered (hcov.setDir oldDir (hdir.find hfound))
      (fun hnone => charges_searched hfound (hcharges hnone)) (S_ISDIR (t.mode oldIno))
    rw [hnew'] at hend hmade
    rw [heq]
    cases hend with
    | unreturned hnever => exact absurd rfl (hnever (.ok ()))
    | fails err s' hsame' hr => cases hr
    | enters d' type hbinds hempty hr =>
      cases hr
      exact hsite.old_covered henv hslot hbinds hmade hdirDe

end NameTree

end Rename

/-! ## Runs -/

/-- The chunks that the directories of a call grow by are charged to them. -/
def NameOp.Charges (g : DirGeom) (dir : Nat) (name : List UInt8) (env : NameEnv) (t : NameTree)
    (op : NameOp) : Prop :=
  match op with
  | create _ | mknod _ | symlink _ | link _ => (t.dir dir).Charges g name env.link
  | mkdir _ => (t.dir dir).Charges g name env.link ∧
      (env.empty.prepare = none → g.chunkSize ≤ env.empty.sectors * 512)
  | unlink _ | rmdir _ => True

def NameEvent.Charges (g : DirGeom) (t : NameTree) : NameEvent → Prop
  | call op dir name env => op.Charges g dir name env t
  | rename _ newDir _ _ newName newInode _ env =>
    newInode = none → (t.dir newDir).Charges g newName env.link
  | tmpfile _ _ | evict _ => True

section Runs

variable {g : DirGeom} {root : Nat} {t t' : NameTree} {e : NameEvent} {events : List NameEvent}

theorem NameTree.Site.call_covered {dir : Nat} {name : List UInt8} {env : NameEnv}
    (h : t.Site g root dir name) (hcov : t.Covered) (henv : env.Steady) (op : NameOp)
    (hallowed : op.Allowed g dir name env t) (hcharges : op.Charges g dir name env t) :
    (op.call g dir name env t).2.Covered := by
  cases op with
  | create mode => exact h.createNode_covered hcov hallowed.2 hcharges
  | mknod mode => exact h.createNode_covered hcov hallowed.2 hcharges
  | symlink symname => exact h.krSymlink_covered hcov hallowed.2 hcharges symname
  | link ino => exact h.krLink_covered hcov hcharges ino
  | mkdir mode => exact h.krMkdir_covered hcov hallowed.2 hcharges.1 hcharges.2
  | unlink ino => exact h.krUnlink_covered hcov henv ino
  | rmdir ino => exact h.krRmdir_covered hcov henv ino

/-- A call that is charged for its chunks keeps the sizes covered. -/
theorem NameEvent.Step.covered (step : e.Step g t t') (hgrows : e.Grows g t)
    (hcharges : e.Charges g t) (hchunk : g.chunkBits ≤ 16) (hcount : g.sInodesCount < 2 ^ 32)
    (h : t.Sound g root) (hcov : t.Covered) : t'.Covered := by
  obtain ⟨hlawful, r, hrun⟩ := step
  have hafter : (e.run g t).2.Covered := by
    cases e with
    | call op dir name env =>
      obtain ⟨hat, henv, hallowed, -⟩ := hlawful
      exact NameTree.Site.call_covered ⟨h, hat, hchunk, hcount⟩ hcov henv op hallowed hcharges
    | tmpfile mode env => exact hcov.krTmpfile env mode
    | rename oldDir newDir oldIno oldName newName newInode flags env =>
      obtain ⟨hrules, henv⟩ := hlawful
      exact (hrules.site h hchunk hcount).rename_covered hcov henv hgrows hcharges
    | evict ino => exact hcov.iput ino
  rw [hrun] at hafter
  exact hafter

/-- In every run of calls in which each chunk is charged, a lookup gives what the name stands for
and `..` leads to the directory that has the name. -/
theorem nameRun_finds (hchunk : g.chunkBits ≤ 16) (hcount : g.sInodesCount < 2 ^ 32)
    (h : t.Sound g root) (hcov : t.Covered)
    (run : Trace (fun s e s' => e.Step g s s' ∧ e.Grows g s ∧ e.Charges g s) t events t') :
    t'.Covered ∧
      (∀ {d name}, t'.Live d → name.length ≤ 255 →
        (t'.krLookup g d name).1 = .ok (((t'.dir d).map g name).map Prod.fst)) ∧
      ∀ {p d name type}, t'.Live p → t'.Live d → ¬ IsDots name →
        (t'.dir p).map g name = some (d, type) → (t'.krGetParent g d).1 = .ok p := by
  have hrun : t'.Sound g root ∧ t'.Covered := by
    induction run with
    | done s => exact ⟨h, hcov⟩
    | cons first _ ih =>
      obtain ⟨step, hgrows, hcharges⟩ := first
      exact ih (step.sound hgrows hchunk hcount h)
        (step.covered hgrows hcharges hchunk hcount h hcov)
  obtain ⟨hsound, hcovered⟩ := hrun
  have hblocks : t'.BlocksCover := hcovered.blocksCover
  exact ⟨hcovered, fun hd hname => hsound.krLookup_eq hblocks hd hname,
    fun hp hd hplain hname => hsound.krGetParent_named hblocks hp hd hplain hname⟩

end Runs

/-- A directory is made in an empty root and found there. -/
theorem nameRun_finds_mkdir :
    let e : NameEvent := .call (.mkdir 0x1ED) KR_ROOT_INO [97] (NameOp.smallEnv ⟨none, 0, none⟩)
    let t := (e.run smallGeom (rootTree smallGeom)).2
    (e.run smallGeom (rootTree smallGeom)).1 = .done (.ok ()) ∧ t.Covered ∧
      (t.krLookup smallGeom KR_ROOT_INO [97]).1 =
        .ok (((t.dir KR_ROOT_INO).map smallGeom [97]).map Prod.fst) := by
  intro e t
  obtain ⟨hret, hstep, hgrows⟩ := rootTree_mkdir
  have hcharges : e.Charges smallGeom (rootTree smallGeom) := by
    refine ⟨fun hfull => ?_, fun _ => by decide⟩
    have hmem : 12 ∈ pageRecords smallGeom (((rootTree smallGeom).dir KR_ROOT_INO).page 0)
        (((rootTree smallGeom).dir KR_ROOT_INO).used smallGeom 0) := by
      decide +kernel
    have hroom : Room smallGeom (((rootTree smallGeom).dir KR_ROOT_INO).page 0) [97] 12 := by
      unfold Room
      decide +kernel
    exact absurd hroom (hfull 0 12 hmem).1
  have hcov : (rootTree smallGeom).Covered := by
    intro i hi
    by_cases hroot : i = KR_ROOT_INO
    · subst hroot
      unfold Dir.Covered
      decide +kernel
    · simp [rootTree, hroot] at hi
  have hlive' : t.Live KR_ROOT_INO := ⟨by decide +kernel, by decide +kernel, by decide +kernel⟩
  obtain ⟨hcovered, hlookup, -⟩ := nameRun_finds (by decide) (by decide)
    (rootTree_sound (by decide) (by decide) (by decide)) hcov
    (.cons ⟨hstep, hgrows, hcharges⟩ (.done t))
  exact ⟨hret, hcovered, hlookup hlive' (by decide)⟩

end KrFs
