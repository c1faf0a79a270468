import KrFs.AddLinkWide
import KrFs.Rename

/-!
# Names

The calls of `namei.c` that make and remove names, over the directories, modes and link
counts of a file system and the inodes in use. `kr_new_inode` is seen through its result;
its allocation is `krNewInode`. The last `iput` of an inode without links frees it.
Times and operation tables are left out.
-/

namespace KrFs

open Bytes Tiling

/-- The directories, modes and link counts, and which inodes are in use. -/
structure NameTree extends DirTree where
  inUse : Nat → Bool

/-- What a call meets: the results of `dquot_initialize`, of `kr_new_inode` with the mode
that it gives the inode, and of `page_symlink`, and what happens to the buffers of the
directory entries. -/
structure NameEnv where
  quota : Option Errno
  newInode : Except Errno Nat
  initMode : UInt16 → UInt16
  pageSymlink : Option Errno
  empty : ChunkEnv
  link : ChunkEnv
  delete : ChunkEnv

/-- Goes on after a call that returns. -/
def DirCall.andThen {T : Type} (c : DirCall) (t : T)
    (rest : Except Errno Unit → Exec (Except Errno Unit) × T) : Exec (Except Errno Unit) × T :=
  match c.ret with
  | .done r => rest r
  | .bug => (.bug, t)
  | .running => (.running, t)

/-- The pages of an inode without blocks. -/
def Dir.blank (ino : Nat) : Dir := ⟨ino, 0, 0, 1, 0, fun _ _ => 0, fun _ => true⟩

namespace NameTree

def setDir (t : NameTree) (ino : Nat) (d : Dir) : NameTree :=
  { t with toDirTree := t.toDirTree.setDir ino d }

/-- `inode_inc_link_count`. -/
def incNlink (t : NameTree) (ino : Nat) : NameTree :=
  { t with toDirTree := t.toDirTree.incNlink ino }

/-- `inode_dec_link_count`. -/
def dropNlink (t : NameTree) (ino : Nat) : NameTree :=
  { t with toDirTree := t.toDirTree.dropNlink ino }

/-- The inode that `kr_new_inode` has made. -/
def newInode (t : NameTree) (ino : Nat) (mode : UInt16) : NameTree where
  dir := Function.update t.dir ino (Dir.blank ino)
  mode := Function.update t.mode ino mode
  nlink := Function.update t.nlink ino 1
  inUse := Function.update t.inUse ino true

/-- The last `iput`. -/
def iput (t : NameTree) (ino : Nat) : NameTree :=
  if t.nlink ino = 0 then { t with inUse := Function.update t.inUse ino false } else t

section Fields

variable (t : NameTree) (ino : Nat) (d : Dir) (mode : UInt16)

@[simp] theorem setDir_dir : (t.setDir ino d).dir = Function.update t.dir ino d := rfl
@[simp] theorem setDir_mode : (t.setDir ino d).mode = t.mode := rfl
@[simp] theorem setDir_nlink : (t.setDir ino d).nlink = t.nlink := rfl
@[simp] theorem setDir_inUse : (t.setDir ino d).inUse = t.inUse := rfl

@[simp] theorem incNlink_dir : (t.incNlink ino).dir = t.dir := rfl
@[simp] theorem incNlink_mode : (t.incNlink ino).mode = t.mode := rfl
@[simp] theorem incNlink_nlink :
    (t.incNlink ino).nlink = Function.update t.nlink ino ((t.nlink ino + 1) % 2 ^ 32) := rfl
@[simp] theorem incNlink_inUse : (t.incNlink ino).inUse = t.inUse := rfl

@[simp] theorem dropNlink_dir : (t.dropNlink ino).dir = t.dir := rfl
@[simp] theorem dropNlink_mode : (t.dropNlink ino).mode = t.mode := rfl
@[simp] theorem dropNlink_nlink :
    (t.dropNlink ino).nlink = Function.update t.nlink ino (sub32 (t.nlink ino) 1) := rfl
@[simp] theorem dropNlink_inUse : (t.dropNlink ino).inUse = t.inUse := rfl

@[simp] theorem newInode_dir :
    (t.newInode ino mode).dir = Function.update t.dir ino (Dir.blank ino) := rfl
@[simp] theorem newInode_mode :
    (t.newInode ino mode).mode = Function.update t.mode ino mode := rfl
@[simp] theorem newInode_nlink : (t.newInode ino mode).nlink = Function.update t.nlink ino 1 := rfl
@[simp] theorem newInode_inUse :
    (t.newInode ino mode).inUse = Function.update t.inUse ino true := rfl

@[simp] theorem iput_dir : (t.iput ino).dir = t.dir := by
  unfold iput
  split <;> rfl

@[simp] theorem iput_nlink : (t.iput ino).nlink = t.nlink := by
  unfold iput
  split <;> rfl

theorem iput_of_unlinked {t : NameTree} {ino : Nat} (h : t.nlink ino = 0) :
    t.iput ino = { t with inUse := Function.update t.inUse ino false } := if_pos h

end Fields

end NameTree

section Code

variable (g : DirGeom) (dir : Nat) (name : List UInt8) (env : NameEnv)

/-- `kr_add_nondir`. -/
def krAddNondir (ino : Nat) (t : NameTree) : Exec (Except Errno Unit) × NameTree :=
  let c := krAddLink g (t.dir dir) name (t.target ino) env.link
  c.andThen t fun r =>
    let t := t.setDir dir c.dir
    match r with
    | .ok () => (.done (.ok ()), t)
    | .error err => (.done (.error err), (t.dropNlink ino).iput ino)

/-- A new inode with an entry, as `kr_create` and `kr_mknod` make it. -/
def createNode (mode : UInt16) (t : NameTree) : Exec (Except Errno Unit) × NameTree :=
  match env.quota with
  | some err => (.done (.error err), t)
  | none =>
    match env.newInode with
    | .error err => (.done (.error err), t)
    | .ok ino => krAddNondir g dir name env ino (t.newInode ino (env.initMode mode))

/-- `kr_create`. -/
def krCreate (mode : UInt16) (t : NameTree) : Exec (Except Errno Unit) × NameTree :=
  createNode g dir name env mode t

/-- `kr_mknod`. -/
def krMknod (mode : UInt16) (t : NameTree) : Exec (Except Errno Unit) × NameTree :=
  createNode g dir name env mode t

/-- `kr_tmpfile`; `d_tmpfile` takes the link of the new inode away. -/
def krTmpfile (mode : UInt16) (t : NameTree) : Exec (Except Errno Unit) × NameTree :=
  match env.newInode with
  | .error err => (.done (.error err), t)
  | .ok ino => (.done (.ok ()), (t.newInode ino (env.initMode mode)).dropNlink ino)

/-- `S_IFLNK | S_IRWXUGO`. -/
def symlinkMode : UInt16 := 0xA1FF

/-- `kr_symlink`; texts that do not fit into `i_data` go through `page_symlink`. -/
def krSymlink (symname : List UInt8) (t : NameTree) : Exec (Except Errno Unit) × NameTree :=
  let l := symname.length + 1
  if g.chunkSize < l then (.done (.error .enametoolong), t)
  else
    match env.quota with
    | some err => (.done (.error err), t)
    | none =>
      match env.newInode with
      | .error err => (.done (.error err), t)
      | .ok ino =>
        let t := t.newInode ino (env.initMode symlinkMode)
        match if 60 < l then env.pageSymlink else none with
        | some err => (.done (.error err), (t.dropNlink ino).iput ino)
        | none => krAddNondir g dir name env ino t

/-- `kr_link`; the caller keeps a reference to the inode. -/
def krLink (ino : Nat) (t : NameTree) : Exec (Except Errno Unit) × NameTree :=
  match env.quota with
  | some err => (.done (.error err), t)
  | none =>
    let t := t.incNlink ino
    let c := krAddLink g (t.dir dir) name (t.target ino) env.link
    c.andThen t fun r =>
      let t := t.setDir dir c.dir
      match r with
      | .ok () => (.done (.ok ()), t)
      | .error err => (.done (.error err), t.dropNlink ino)

/-- The labels `out_fail` and `out_dir` of `kr_mkdir`. -/
def mkdirFail (ino : Nat) (err : Errno) (t : NameTree) : Exec (Except Errno Unit) × NameTree :=
  (.done (.error err), (((t.dropNlink ino).dropNlink ino).iput ino).dropNlink dir)

/-- `kr_mkdir`. -/
def krMkdir (mode : UInt16) (t : NameTree) : Exec (Except Errno Unit) × NameTree :=
  match env.quota with
  | some err => (.done (.error err), t)
  | none =>
    let t := t.incNlink dir
    match env.newInode with
    | .error err => (.done (.error err), t.dropNlink dir)
    | .ok ino =>
      let t := (t.newInode ino (env.initMode (S_IFDIR ||| mode))).incNlink ino
      let c := krMakeEmpty g (t.dir ino) (t.target ino) dir env.empty
      c.andThen t fun r =>
        let t := t.setDir ino c.dir
        match r with
        | .error err => mkdirFail dir ino err t
        | .ok () =>
          let c := krAddLink g (t.dir dir) name (t.target ino) env.link
          c.andThen t fun r =>
            let t := t.setDir dir c.dir
            match r with
            | .error err => mkdirFail dir ino err t
            | .ok () => (.done (.ok ()), t)

/-- `kr_unlink`. -/
def krUnlink (ino : Nat) (t : NameTree) : Exec (Except Errno Unit) × NameTree :=
  match env.quota with
  | some err => (.done (.error err), t)
  | none =>
    match krFindEntry g (t.dir dir) name with
    | (none, d, _) => (.done (.error .enoent), t.setDir dir d)
    | (some (n, de), d, _) =>
      let t := t.setDir dir d
      let c := krDeleteEntry g d n de env.delete
      c.andThen t fun r =>
        let t := t.setDir dir c.dir
        match r with
        | .error err => (.done (.error err), t)
        | .ok () => (.done (.ok ()), t.dropNlink ino)

/-- `kr_rmdir`. -/
def krRmdir (ino : Nat) (t : NameTree) : Exec (Except Errno Unit) × NameTree :=
  if !(krEmptyDir g (t.dir ino)).1 then (.done (.error .enotempty), t)
  else
    match krUnlink g dir name env ino t with
    | (.done (.ok ()), t) =>
      let t := t.setDir ino { t.dir ino with iSize := 0 }
      (.done (.ok ()), (t.dropNlink ino).dropNlink dir)
    | result => result

end Code

/-! ## What the calls of `dir.c` leave -/

section Dirs

variable {g : DirGeom} {d d' : Dir} {name : List UInt8} {inode : LinkTarget} {env : ChunkEnv}

theorem Dir.map_congr (hpage : d'.page = d.page) (hsize : d'.iSize = d.iSize) :
    d'.map g = d.map g := by
  unfold Dir.map Dir.slots Dir.used
  rw [hpage, hsize]

/-- A directory without pages holds nothing. -/
theorem Dir.map_empty (hsize : d.iSize = 0) : d.map g = fun _ => none := by
  funext name
  refine Slots.lookup_eq_none.mpr ?_
  rintro ⟨n, de⟩ v hslot
  obtain ⟨hmem, -, -⟩ := Dir.slots_eq_some.mp hslot
  have hused : d.used g n = 0 := by
    unfold Dir.used
    omega
  rw [hused, pageRecords, walk] at hmem
  cases hmem

/-- The new entry is written and the write of its chunk fails. -/
def AddFails (g : DirGeom) (d : Dir) (name : List UInt8) (env : ChunkEnv) : Prop :=
  env.prepare = none ∧ env.commit ≠ none ∧ (g.chunkBits = 16 → d.MeetsRoom g name)

/-- The entry is made, whether its chunk is then written or not. -/
theorem krAddLink_added (hchunk : g.chunkBits ≤ 16) (hcount : g.sInodesCount < 2 ^ 32)
    (h : d.Good g) (hnonempty : 1 ≤ name.length) (hname : name.length ≤ 255)
    (hnew : d.map g name = none) (hinode : inode.Valid g) (hprepare : env.prepare = none)
    (hmeets : g.chunkBits = 16 → d.MeetsRoom g name) :
    (krAddLink g d name inode env).ret = .done (match env.commit with
        | some err => .error err
        | none => .ok ()) ∧
      (krAddLink g d name inode env).dir.map g =
        Function.update (d.map g) name (some (inode.value g)) := by
  have hlaid := h.ok.laidOut
  have hno := Slots.lookup_eq_none.mp hnew
  have houtcome : AddOutcome g d name inode env (krAddLink g d name inode env) :=
    krAddLink_outcome h.ok hname
  cases houtcome with
  | fresh n scans hn hread hroom hfull heq =>
    have hsmall : g.chunkBits ≤ 15 := by
      by_contra hwide
      obtain ⟨m, de, hmem, hfits, -⟩ := hmeets (by omega)
      exact (hfull m de hmem).1 hfits
    obtain ⟨hret, hnone, hedit⟩ :=
      addLinkAt_fresh scans hsmall hcount hlaid hn rfl hroom hname hinode hprepare
    rw [heq]
    refine ⟨hret, (hedit.put h.distinct (fun name' w hslot => ?_) fun place w hslot => ?_).2⟩
    · rw [hnone] at hslot
      cases hslot
    · exact absurd hslot (hno place w)
  | room n de recLen nameLen scans hmem hroom hpassed heq =>
    obtain ⟨hret, place, hnone, hedit⟩ := addLinkAt_room scans hchunk hcount hlaid hmem hroom
      hnonempty hname hinode hprepare
    rw [heq]
    refine ⟨hret, (hedit.put h.distinct (fun name' w hslot => ?_) fun place w hslot => ?_).2⟩
    · rw [hnone] at hslot
      cases hslot
    · exact absurd hslot (hno place w)
  | found n de hmem hmatch hdir hret =>
    obtain ⟨hlive, heq⟩ := krMatch_iff.mp hmatch
    have hslot : d.slots g (n, de) = some (name, (entryAt (d.page n) de).2) :=
      Dir.slots_eq_some.mpr ⟨hmem, hlive, Prod.ext heq rfl⟩
    exact absurd hslot (hno _ _)
  | unread hread hfull hdir hret =>
    rw [h.readable] at hread
    cases hread
  | loops n de hmem hlen hpassed hdir hret =>
    have hwide : g.chunkBits = 16 := by
      by_contra hne
      have htiled := (hlaid.records n).ok_of_mem hmem
      have hpos := htiled.pos
      have hle := sub_le_chunk g htiled.span
      have hhalf := DirGeom.chunkSize_le_half (show g.chunkBits ≤ 15 by omega)
      omega
    exact ((hmeets hwide).not_loops hmem hlen hpassed).elim

/-- Nothing is entered when the chunk cannot be had, nor, with chunks of 64 KiB, when no
room is met. -/
theorem krAddLink_kept (h : d.Good g) (hname : name.length ≤ 255)
    (hclean : env.prepare ≠ none ∨ g.chunkBits = 16 ∧ ¬ d.MeetsRoom g name) :
    (krAddLink g d name inode env).dir.map g = d.map g := by
  have houtcome : AddOutcome g d name inode env (krAddLink g d name inode env) :=
    krAddLink_outcome h.ok hname
  cases houtcome with
  | fresh n scans hn hread hroom hfull heq =>
    rw [heq]
    cases hprepare : env.prepare with
    | some err =>
      obtain ⟨hsize, -, hbytes⟩ := addLinkAt_unprepared g d name inode hprepare n
        (g.chunkSize % 2 ^ 16) 0 (krRecLenToDisk g g.chunkSize) scans
      have hslots := (h.ok.laidOut.congr hsize hbytes).2
      unfold Dir.map
      rw [hslots]
    | none =>
      obtain ⟨hwide, -⟩ := hclean.resolve_left (not_not.mpr hprepare)
      obtain ⟨-, -, hslots⟩ := addLinkAt_lost name inode scans hwide h.ok.laidOut rfl hn hprepare
      unfold Dir.map
      rw [hslots]
  | room n de recLen nameLen scans hmem hroom hpassed heq =>
    rw [heq]
    rcases hclean with hprepare | ⟨-, hnot⟩
    · obtain ⟨err, hprepare⟩ := Option.ne_none_iff_exists'.mp hprepare
      unfold addLinkAt
      rw [hprepare]
      exact Dir.map_congr (Function.update_eq_self n d.page) rfl
    · exact absurd ⟨n, de, hmem, hroom.room, hpassed⟩ hnot
  | found n de hmem hmatch hdir hret => rw [hdir]
  | unread hread hfull hdir hret => rw [hdir]
  | loops n de hmem hlen hpassed hdir hret => rw [hdir]

/-- A call that fails has entered the name just when the write of the chunk failed. -/
theorem krAddLink_error (hchunk : g.chunkBits ≤ 16) (hcount : g.sInodesCount < 2 ^ 32)
    (h : d.Good g) (hnonempty : 1 ≤ name.length) (hname : name.length ≤ 255)
    (hnew : d.map g name = none) (hinode : inode.Valid g) :
    (AddFails g d name env → ∃ err, (krAddLink g d name inode env).ret = .done (.error err) ∧
      (krAddLink g d name inode env).dir.map g name ≠ none) ∧
    (¬ AddFails g d name env → ∀ err, (krAddLink g d name inode env).ret = .done (.error err) →
      (krAddLink g d name inode env).dir.map g = d.map g) := by
  constructor
  · rintro ⟨hprepare, hcommit, hmeets⟩
    obtain ⟨err, herr⟩ := Option.ne_none_iff_exists'.mp hcommit
    obtain ⟨hret, hmap⟩ :=
      krAddLink_added hchunk hcount h hnonempty hname hnew hinode hprepare hmeets
    rw [herr] at hret
    refine ⟨err, hret, ?_⟩
    rw [hmap, Function.update_self]
    simp
  · intro hnot err hret
    by_cases hprepare : env.prepare = none
    · by_cases hmeets : g.chunkBits = 16 → d.MeetsRoom g name
      · obtain ⟨hdone, -⟩ :=
          krAddLink_added hchunk hcount h hnonempty hname hnew hinode hprepare hmeets
        have hcommit : env.commit = none := by
          by_contra hne
          exact hnot ⟨hprepare, hne, hmeets⟩
        rw [hdone, hcommit] at hret
        cases hret
      · exact krAddLink_kept h hname (.inr (Classical.not_imp.mp hmeets))
    · exact krAddLink_kept h hname (.inl hprepare)

/-- Deleting what a search has found. -/
theorem krDeleteEntry_found (hchunk : g.chunkBits ≤ 16) (h : d.Good g) (hname : name.length ≤ 255)
    {n de : Nat} {scans : List Scan} (hfound : krFindEntry g d name = (some (n, de), d', scans)) :
    (env.prepare ≠ none → (krDeleteEntry g d' n de env).ret = .bug) ∧
    (env.prepare = none → (krDeleteEntry g d' n de env).ret = .done (match env.commit with
        | some err => .error err
        | none => .ok ()) ∧
      (krDeleteEntry g d' n de env).dir.map g = Function.update (d.map g) name none) := by
  obtain ⟨n', de', scans', v, heq, hslot⟩ := krFindEntry_slot h hname (by rw [hfound]; simp)
  rw [hfound] at heq
  cases heq
  obtain ⟨hmem, -, -⟩ := Dir.slots_eq_some.mp hslot
  have hlaid : ({ d with iDirStartLookup := n } : Dir).LaidOut g := ⟨h.ok.chunks, h.ok.laidOut.pages⟩
  constructor
  · intro hprepare
    obtain ⟨err, herr⟩ := Option.ne_none_iff_exists'.mp hprepare
    obtain ⟨xs, ys, zs, -, -, heq⟩ :=
      deleteWalk_eq (fun _ ok => ⟨ok.pos, ok.span⟩) (hlaid.records n) hmem
    unfold krDeleteEntry
    dsimp only
    simp only [heq, herr]
  · intro hprepare
    obtain ⟨hret, hlaid', hsize, hslots, hlong, hread⟩ :=
      krDeleteEntry_edit env hchunk hlaid hmem hprepare
    have hedit : d.Edit g (krDeleteEntry g { d with iDirStartLookup := n } n de env).dir (n, de) none
      0 True := ⟨hlaid', hsize, hslots, hlong, hread⟩
    exact ⟨hret, (hedit.remove h.distinct hslot).2⟩

end Dirs

/-! ## Calls that fail -/

/-- Every entry of a directory names an inode in use. -/
def NameTree.Named (g : DirGeom) (t : NameTree) : Prop :=
  ∀ i, t.inUse i = true → S_ISDIR (t.mode i) = true →
    ∀ name v, (t.dir i).map g name = some v → t.inUse v.1 = true

/-- Nothing has happened to the names and the inodes that were there. -/
structure NameTree.Kept (g : DirGeom) (t t' : NameTree) : Prop where
  maps : ∀ i, t.inUse i = true → (t'.dir i).map g = (t.dir i).map g
  nlinks : ∀ i, t.inUse i = true → t'.nlink i = t.nlink i
  named : t'.Named g

/-- A call that fails has changed nothing. -/
def NameTree.Undone (g : DirGeom) (t : NameTree) (r : Exec (Except Errno Unit) × NameTree) : Prop :=
  ∀ err, r.1 = .done (.error err) → t.Kept g r.2

section Undo

variable {g : DirGeom} {t t' : NameTree} {dir ino : Nat} {name : List UInt8} {env : NameEnv}
  {mode : UInt16} {err : Errno}

theorem NameTree.Kept.of_same (hnamed : t.Named g) (hinUse : t'.inUse = t.inUse)
    (hmode : ∀ i, t.inUse i = true → t'.mode i = t.mode i)
    (hmaps : ∀ i, t.inUse i = true → (t'.dir i).map g = (t.dir i).map g)
    (hnlinks : ∀ i, t.inUse i = true → t'.nlink i = t.nlink i) : t.Kept g t' := by
  refine ⟨hmaps, hnlinks, ?_⟩
  intro i hi hdir name v hentry
  rw [hinUse] at hi ⊢
  rw [hmode i hi] at hdir
  rw [hmaps i hi] at hentry
  exact hnamed i hi hdir name v hentry

theorem NameTree.Kept.refl (hnamed : t.Named g) : t.Kept g t :=
  ⟨fun _ _ => rfl, fun _ _ => rfl, hnamed⟩

/-- The new pages of a directory hold what was in it. -/
theorem NameTree.Kept.setDir {d : Dir} (hnamed : t.Named g)
    (hmap : d.map g = (t.dir dir).map g) : t.Kept g (t.setDir dir d) := by
  refine .of_same hnamed rfl (fun _ _ => rfl) (fun i _ => ?_) fun _ _ => rfl
  by_cases hi : i = dir
  · subst hi
    simpa using hmap
  · simp [hi]

/-- A new inode that is given back. -/
theorem NameTree.Kept.released (hnamed : t.Named g) (hfresh : t.inUse ino = false)
    (hunlinked : t'.nlink ino = 0) (hinUse : t'.inUse = Function.update t.inUse ino true)
    (hmode : ∀ i, i ≠ ino → t'.mode i = t.mode i)
    (hmaps : ∀ i, i ≠ ino → (t'.dir i).map g = (t.dir i).map g)
    (hnlinks : ∀ i, i ≠ ino → t'.nlink i = t.nlink i) : t.Kept g (t'.iput ino) := by
  have hne : ∀ i, t.inUse i = true → i ≠ ino := by
    rintro i hi rfl
    rw [hfresh] at hi
    cases hi
  rw [iput_of_unlinked hunlinked]
  refine .of_same hnamed ?_ (fun i hi => hmode i (hne i hi)) (fun i hi => hmaps i (hne i hi))
    fun i hi => hnlinks i (hne i hi)
  funext i
  by_cases hi : i = ino
  · subst hi
    simp [hfresh]
  · simp [hinUse, hi]

/-- A link that is taken back. -/
theorem NameTree.Kept.dropNlink (h : (t.incNlink ino).Kept g t') (hino : t.inUse ino = true)
    (hbound : t.nlink ino < 2 ^ 32) : t.Kept g (t'.dropNlink ino) := by
  refine ⟨h.maps, fun i hi => ?_, h.named⟩
  have hlink := h.nlinks i hi
  by_cases heq : i = ino
  · subst heq
    rw [incNlink_nlink, Function.update_self] at hlink
    rw [dropNlink_nlink, Function.update_self, hlink]
    unfold sub32
    omega
  · rw [incNlink_nlink, Function.update_of_ne heq] at hlink
    rw [dropNlink_nlink, Function.update_of_ne heq, hlink]

end Undo

section Calls

variable {g : DirGeom} {t : NameTree} {dir ino : Nat} {name : List UInt8} {env : NameEnv}
  {mode : UInt16}

/-- A state before a call on the name of an entry of a directory: link counts are kept in 32
bits, and the directory is in order. -/
structure NameTree.Ready (g : DirGeom) (t : NameTree) (dir : Nat) (name : List UInt8) : Prop where
  chunk : g.chunkBits ≤ 16
  count : g.sInodesCount < 2 ^ 32
  named : t.Named g
  nlink : ∀ i, t.nlink i < 2 ^ 32
  inUse : t.inUse dir = true
  good : (t.dir dir).Good g
  nonempty : 1 ≤ name.length
  short : name.length ≤ 255

/-- The name has no entry. -/
structure NameTree.Vacant (g : DirGeom) (t : NameTree) (dir : Nat) (name : List UInt8) : Prop
    extends t.Ready g dir name where
  vacant : (t.dir dir).map g name = none

/-- An inode that `kr_new_inode` may return. -/
structure NameTree.Fresh (g : DirGeom) (t : NameTree) (ino : Nat) : Prop where
  unused : t.inUse ino = false
  pos : ino ≠ 0
  count : ino ≤ g.sInodesCount

theorem NameTree.Fresh.ne {i : Nat} (h : t.Fresh g ino) (hi : t.inUse i = true) : i ≠ ino := by
  rintro rfl
  rw [h.unused] at hi
  cases hi

/-- A call of `dir.c` with a way back that is the same for every error. -/
theorem NameTree.undone_andThen_iff {c : DirCall} {s back : NameTree} {fails : Prop}
    {rest : Except Errno Unit → Exec (Except Errno Unit) × NameTree}
    (hok : ∀ err, (rest (.ok ())).1 ≠ .done (.error err))
    (herror : ∀ err, rest (.error err) = (.done (.error err), back))
    (hfails : fails → (∃ err, c.ret = .done (.error err)) ∧ ¬ t.Kept g back)
    (hkept : ¬ fails → ∀ err, c.ret = .done (.error err) → t.Kept g back) :
    t.Undone g (c.andThen s rest) ↔ ¬ fails := by
  unfold NameTree.Undone DirCall.andThen
  constructor
  · intro hundone hfail
    obtain ⟨⟨err, hret⟩, hlost⟩ := hfails hfail
    simp only [hret, herror] at hundone
    exact hlost (hundone err rfl)
  · intro hfail err herr
    cases hret : c.ret with
    | done r =>
      simp only [hret] at herr ⊢
      cases r with
      | ok _ => exact absurd herr (hok err)
      | error err' =>
        rw [herror]
        exact hkept hfail err' hret
    | bug =>
      simp only [hret] at herr
      cases herr
    | running =>
      simp only [hret] at herr
      cases herr

/-- A call that makes an entry: what is undone fails when the entry was there already. -/
theorem NameTree.Vacant.undone_iff (h : t.Vacant g dir name) {s back : NameTree}
    {inode : LinkTarget} {link : ChunkEnv}
    {rest : Except Errno Unit → Exec (Except Errno Unit) × NameTree}
    (hparent : s.dir dir = t.dir dir) (hvalid : inode.Valid g)
    (hok : ∀ err, (rest (.ok ())).1 ≠ .done (.error err))
    (herror : ∀ err, rest (.error err) = (.done (.error err), back))
    (hback : back.dir dir = (krAddLink g (s.dir dir) name inode link).dir)
    (hkept : (back.dir dir).map g = (t.dir dir).map g → t.Kept g back) :
    t.Undone g ((krAddLink g (s.dir dir) name inode link).andThen s rest) ↔
      ¬ AddFails g (t.dir dir) name link := by
  obtain ⟨hadded, hsame⟩ := @krAddLink_error g (t.dir dir) name inode link h.chunk h.count h.good
    h.nonempty h.short h.vacant hvalid
  rw [← hparent] at hadded hsame
  refine NameTree.undone_andThen_iff hok herror (fun hfail => ?_) fun hfail err hret => ?_
  · rw [← hparent] at hfail
    obtain ⟨err, hret, hentry⟩ := hadded hfail
    refine ⟨⟨err, hret⟩, fun hkept => hentry ?_⟩
    rw [← hback, hkept.maps dir h.inUse, h.vacant]
  · rw [← hparent] at hfail
    apply hkept
    rw [hback, hsame hfail err hret, hparent]

theorem krAddNondir_undone_iff (h : t.Vacant g dir name) (hfresh : t.Fresh g ino) :
    t.Undone g (krAddNondir g dir name env ino (t.newInode ino mode)) ↔
      ¬ AddFails g (t.dir dir) name env.link := by
  have hne := hfresh.ne h.inUse
  refine h.undone_iff (Function.update_of_ne hne _ _) ⟨hfresh.pos, hfresh.count⟩ (fun _ => nofun)
    (fun _ => rfl) (by simp) fun hmap => ?_
  refine .released h.named hfresh.unused ?_ rfl ?_ ?_ ?_
  · simp [sub32]
  · intro i hi
    simp [hi]
  · intro i hi
    by_cases hdir : i = dir
    · subst hdir
      simpa using hmap
    · simp [hi, hdir]
  · intro i hi
    simp [hi]

/-- A call that asks for the quota first. -/
theorem NameTree.quota_undone_iff (hnamed : t.Named g) {fails : Prop}
    {rest : Exec (Except Errno Unit) × NameTree} (hrest : t.Undone g rest ↔ ¬ fails) :
    t.Undone g (match env.quota with
      | some err => (.done (.error err), t)
      | none => rest) ↔ ¬ (env.quota = none ∧ fails) := by
  cases hquota : env.quota with
  | some err =>
    simp only [reduceCtorEq, false_and, not_false_iff, iff_true]
    exact fun _ _ => .refl hnamed
  | none => simpa using hrest

/-- A call that makes an inode. -/
theorem NameTree.new_undone_iff {s : NameTree} (hs : t.Kept g s) {fails : Prop}
    {rest : Nat → Exec (Except Errno Unit) × NameTree}
    (hrest : ∀ ino, env.newInode = .ok ino → (t.Undone g (rest ino) ↔ ¬ fails)) :
    t.Undone g (match env.newInode with
      | .error err => (.done (.error err), s)
      | .ok ino => rest ino) ↔ ¬ ((∃ ino, env.newInode = .ok ino) ∧ fails) := by
  cases hnew : env.newInode with
  | error err =>
    simp only [reduceCtorEq, exists_false, false_and, not_false_iff, iff_true]
    exact fun _ _ => hs
  | ok ino => simpa using hrest ino hnew

theorem createNode_undone_iff (h : t.Vacant g dir name)
    (hfresh : ∀ ino, env.newInode = .ok ino → t.Fresh g ino) :
    t.Undone g (createNode g dir name env mode t) ↔
      ¬ (env.quota = none ∧ (∃ ino, env.newInode = .ok ino) ∧
        AddFails g (t.dir dir) name env.link) := by
  apply NameTree.quota_undone_iff h.named
  apply NameTree.new_undone_iff (.refl h.named)
  exact fun ino hnew => krAddNondir_undone_iff h (hfresh ino hnew)

theorem krLink_undone_iff (h : t.Vacant g dir name) (hino : t.inUse ino = true)
    (hvalid : (t.target ino).Valid g) :
    t.Undone g (krLink g dir name env ino t) ↔
      ¬ (env.quota = none ∧ AddFails g (t.dir dir) name env.link) := by
  apply NameTree.quota_undone_iff h.named
  refine h.undone_iff rfl hvalid (fun _ => nofun) (fun _ => rfl) (by simp) fun hmap => ?_
  refine NameTree.Kept.dropNlink (.setDir h.named ?_) hino (h.nlink ino)
  simpa using hmap

theorem krSymlink_undone_iff (h : t.Vacant g dir name)
    (hfresh : ∀ ino, env.newInode = .ok ino → t.Fresh g ino) (symname : List UInt8) :
    t.Undone g (krSymlink g dir name env symname t) ↔
      ¬ (symname.length + 1 ≤ g.chunkSize ∧ env.quota = none ∧ (∃ ino, env.newInode = .ok ino) ∧
        (60 < symname.length + 1 → env.pageSymlink = none) ∧
        AddFails g (t.dir dir) name env.link) := by
  unfold krSymlink
  dsimp only
  by_cases hlen : g.chunkSize < symname.length + 1
  · rw [if_pos hlen]
    refine iff_of_true (fun _ _ => .refl h.named) ?_
    rintro ⟨hle, -⟩
    omega
  · rw [if_neg hlen, and_iff_right (Nat.le_of_not_lt hlen)]
    apply NameTree.quota_undone_iff h.named
    apply NameTree.new_undone_iff (.refl h.named)
    intro ino hnew
    have hfresh := hfresh ino hnew
    have hslow : (60 < symname.length + 1 → env.pageSymlink = none) ↔
        (if 60 < symname.length + 1 then env.pageSymlink else none) = none := by
      split <;> simp [*]
    rw [hslow]
    cases (if 60 < symname.length + 1 then env.pageSymlink else none) with
    | some err =>
      refine iff_of_true (fun _ _ => ?_) nofun
      refine .released h.named hfresh.unused (by simp [sub32]) rfl ?_ ?_ ?_
      · exact fun i hi => Function.update_of_ne hi _ _
      · intro i hi
        simp [hi]
      · intro i hi
        simp [hi]
    | none =>
      rw [and_iff_right rfl]
      exact krAddNondir_undone_iff h hfresh

/-- The failure path of `kr_mkdir` takes back both links of the new directory and the link
of its parent. -/
theorem mkdirFail_kept (h : t.Ready g dir name) (hfresh : t.Fresh g ino) {s : NameTree}
    (hlinks : s.nlink ino = 2) (hinUse : s.inUse = Function.update t.inUse ino true)
    (hmode : ∀ i, i ≠ ino → s.mode i = t.mode i)
    (hmaps : ∀ i, i ≠ ino → (s.dir i).map g = (t.dir i).map g)
    (hnlinks : ∀ i, i ≠ ino → s.nlink i = (t.incNlink dir).nlink i) :
    t.Kept g ((((s.dropNlink ino).dropNlink ino).iput ino).dropNlink dir) := by
  refine NameTree.Kept.dropNlink (.released h.named hfresh.unused ?_ hinUse hmode hmaps ?_) h.inUse
    (h.nlink dir)
  · simp [hlinks, sub32]
  · intro i hi
    simpa [hi] using hnlinks i hi

theorem DirCall.andThen_of_ret {c : DirCall} {r : Except Errno Unit} (h : c.ret = .done r)
    (rest : Except Errno Unit → Exec (Except Errno Unit) × NameTree) :
    c.andThen t rest = rest r := by
  unfold DirCall.andThen
  rw [h]

theorem krMakeEmpty_ret {d : Dir} {inode : LinkTarget} {parent : Nat} {env : ChunkEnv} :
    (krMakeEmpty g d inode parent env).ret = .done (match env.prepare.or env.commit with
      | some err => .error err
      | none => .ok ()) := by
  unfold krMakeEmpty
  cases env.prepare with
  | some err => rfl
  | none => rfl

theorem krMkdir_undone_iff (h : t.Vacant g dir name)
    (hfresh : ∀ ino, env.newInode = .ok ino → t.Fresh g ino) :
    t.Undone g (krMkdir g dir name env mode t) ↔
      ¬ (env.quota = none ∧ (∃ ino, env.newInode = .ok ino) ∧
        env.empty.prepare.or env.empty.commit = none ∧ AddFails g (t.dir dir) name env.link) := by
  apply NameTree.quota_undone_iff h.named
  apply NameTree.new_undone_iff
  · exact NameTree.Kept.dropNlink (.refl h.named) h.inUse (h.nlink dir)
  · intro ino hnew
    have hfresh := hfresh ino hnew
    have hne := hfresh.ne h.inUse
    cases hempty : env.empty.prepare.or env.empty.commit with
    | some err =>
      refine iff_of_true ?_ nofun
      dsimp only
      rw [DirCall.andThen_of_ret krMakeEmpty_ret]
      simp only [hempty]
      refine fun _ _ => mkdirFail_kept h.toReady hfresh ?_ rfl ?_ ?_ ?_
      · simp
      · intro i hi
        simp [hi]
      · intro i hi
        simp [hi]
      · intro i hi
        simp [hi]
    | none =>
      rw [and_iff_right rfl]
      dsimp only
      rw [DirCall.andThen_of_ret krMakeEmpty_ret]
      simp only [hempty]
      refine h.undone_iff ?_ ⟨hfresh.pos, hfresh.count⟩ (fun _ => nofun) (fun _ => rfl) ?_ ?_
      · simp [hne]
      · simp
      · intro hmap
        refine mkdirFail_kept h.toReady hfresh ?_ rfl ?_ ?_ ?_
        · simp [hne]
        · intro i hi
          simp [hi]
        · intro i hi
          by_cases hdir : i = dir
          · subst hdir
            simpa using hmap
          · simp [hi, hdir]
        · intro i hi
          simp [hi]

/-- What `kr_unlink` undoes fails when the record of the name is gone already. -/
theorem krUnlink_undone_iff (h : t.Ready g dir name) :
    t.Undone g (krUnlink g dir name env ino t) ↔
      ¬ (env.quota = none ∧ (krFindEntry g (t.dir dir) name).1 ≠ none ∧
        env.delete.prepare = none ∧ env.delete.commit ≠ none) := by
  apply NameTree.quota_undone_iff h.named
  rcases hfound : krFindEntry g (t.dir dir) name with ⟨_ | ⟨n, de⟩, d, scans⟩
  · refine iff_of_true (fun _ _ => .setDir h.named ?_) (by simp)
    have hsame := krFindEntry_map g (t.dir dir) name
    rwa [hfound] at hsame
  · obtain ⟨hbug, hgone⟩ := @krDeleteEntry_found g (t.dir dir) d name env.delete h.chunk h.good
      h.short n de scans hfound
    have hsome : (krFindEntry g (t.dir dir) name).1 ≠ none := by
      rw [hfound]
      simp
    obtain ⟨_, _, _, v, -, hslot⟩ := krFindEntry_slot h.good h.short hsome
    have hentry := h.good.lookup_some.mpr ⟨_, hslot⟩
    rw [and_iff_right (Option.some_ne_none _)]
    refine NameTree.undone_andThen_iff (fun _ => nofun) (fun _ => rfl) ?_ ?_
    · rintro ⟨hprepare, hcommit⟩
      obtain ⟨err, herr⟩ := Option.ne_none_iff_exists'.mp hcommit
      obtain ⟨hret, hmap⟩ := hgone hprepare
      simp only [herr] at hret
      refine ⟨⟨err, hret⟩, fun hkept => ?_⟩
      have hmaps := congrFun (hkept.maps dir h.inUse) name
      rw [hentry] at hmaps
      simp [hmap] at hmaps
    · intro hkeeps err hret
      by_cases hprepare : env.delete.prepare = none
      · have hdone := (hgone hprepare).1
        have hcommit : env.delete.commit = none := not_not.mp fun hne => hkeeps ⟨hprepare, hne⟩
        simp only [hret, hcommit] at hdone
        cases hdone
      · rw [hbug hprepare] at hret
        cases hret

theorem krRmdir_undone_iff (h : t.Ready g dir name) :
    t.Undone g (krRmdir g dir name env ino t) ↔
      ¬ ((krEmptyDir g (t.dir ino)).1 = true ∧ env.quota = none ∧
        (krFindEntry g (t.dir dir) name).1 ≠ none ∧
        env.delete.prepare = none ∧ env.delete.commit ≠ none) := by
  have hunlink := @krUnlink_undone_iff g t dir ino name env h
  unfold krRmdir
  cases (krEmptyDir g (t.dir ino)).1 with
  | false => exact iff_of_true (fun _ _ => .refl h.named) (by simp)
  | true =>
    rw [and_iff_right rfl, ← hunlink]
    unfold NameTree.Undone
    rcases krUnlink g dir name env ino t with ⟨(⟨err⟩ | ⟨⟨⟩⟩) | _ | _, s⟩
    · rfl
    · exact iff_of_true (fun _ => nofun) (fun _ => nofun)
    · rfl
    · rfl

end Calls

/-- A call that makes or removes a name. -/
inductive NameOp where
  | create (mode : UInt16)
  | mknod (mode : UInt16)
  | symlink (symname : List UInt8)
  | link (ino : Nat)
  | mkdir (mode : UInt16)
  | unlink (ino : Nat)
  | rmdir (ino : Nat)

namespace NameOp

section Ops

variable (g : DirGeom) (dir : Nat) (name : List UInt8) (env : NameEnv) (t : NameTree)

def call (op : NameOp) : Exec (Except Errno Unit) × NameTree :=
  match op with
  | create mode => krCreate g dir name env mode t
  | mknod mode => krMknod g dir name env mode t
  | symlink symname => krSymlink g dir name env symname t
  | link ino => krLink g dir name env ino t
  | mkdir mode => krMkdir g dir name env mode t
  | unlink ino => krUnlink g dir name env ino t
  | rmdir ino => krRmdir g dir name env ino t

/-- What the callers see to: a new name has no entry yet, a new inode was free, and a link is
made to an inode that is there. -/
def Allowed (op : NameOp) : Prop :=
  match op with
  | create _ | mknod _ | symlink _ | mkdir _ =>
    (t.dir dir).map g name = none ∧ ∀ ino, env.newInode = .ok ino → t.Fresh g ino
  | link ino => (t.dir dir).map g name = none ∧ t.inUse ino = true ∧ (t.target ino).Valid g
  | unlink _ | rmdir _ => True

/-- The call comes to the chunk of its entry, changes it, and the write of the chunk fails. -/
def WriteFails (op : NameOp) : Prop :=
  let adds := AddFails g (t.dir dir) name env.link
  let deletes := (krFindEntry g (t.dir dir) name).1 ≠ none ∧ env.delete.prepare = none ∧
    env.delete.commit ≠ none
  let made := ∃ ino, env.newInode = .ok ino
  match op with
  | create _ | mknod _ => env.quota = none ∧ made ∧ adds
  | symlink symname => symname.length + 1 ≤ g.chunkSize ∧ env.quota = none ∧ made ∧
      (60 < symname.length + 1 → env.pageSymlink = none) ∧ adds
  | link _ => env.quota = none ∧ adds
  | mkdir _ => env.quota = none ∧ made ∧ env.empty.prepare.or env.empty.commit = none ∧ adds
  | unlink _ => env.quota = none ∧ deletes
  | rmdir ino => (krEmptyDir g (t.dir ino)).1 = true ∧ env.quota = none ∧ deletes

end Ops

/-- A call that fails has left names and link counts as they were, unless it failed at the
write of the chunk with the entry: the entry is then made or gone, and only the inode is
put back. -/
theorem call_undone_iff {g : DirGeom} {dir : Nat} {name : List UInt8} {env : NameEnv}
    {t : NameTree} (h : t.Ready g dir name) (op : NameOp) (hallowed : op.Allowed g dir name env t) :
    (∀ err, (op.call g dir name env t).1 = .done (.error err) →
      t.Kept g (op.call g dir name env t).2) ↔ ¬ op.WriteFails g dir name env t := by
  cases op with
  | create mode => exact createNode_undone_iff ⟨h, hallowed.1⟩ hallowed.2
  | mknod mode => exact createNode_undone_iff ⟨h, hallowed.1⟩ hallowed.2
  | symlink symname => exact krSymlink_undone_iff ⟨h, hallowed.1⟩ hallowed.2 symname
  | link ino => exact krLink_undone_iff ⟨h, hallowed.1⟩ hallowed.2.1 hallowed.2.2
  | mkdir mode => exact krMkdir_undone_iff ⟨h, hallowed.1⟩ hallowed.2
  | unlink ino => exact krUnlink_undone_iff h
  | rmdir ino => exact krRmdir_undone_iff h

/-- A root without entries and a new directory. -/
def smallTree : NameTree where
  dir := fun ino => if ino = 11 then smallDir else Dir.blank ino
  mode := fun _ => 0x41ED
  nlink := fun _ => 2
  inUse := fun ino => ino = 2 || ino = 11

/-- All goes well but for the entry. -/
def smallEnv (link : ChunkEnv) : NameEnv :=
  ⟨none, .ok 12, fun mode => mode, none, ⟨none, 2, none⟩, link, ⟨none, 0, none⟩⟩

theorem smallTree_vacant : smallTree.Vacant smallGeom 11 [97] := by
  obtain ⟨hgood, hmap⟩ := smallDir_good
  have hnamed : smallTree.Named smallGeom := by
    intro i _ _ name v hentry
    by_cases hi : i = 11
    · subst hi
      have hsmall : smallDir.map smallGeom name = some v := hentry
      rw [hmap] at hsmall
      by_cases hdotdot : name = [46, 46]
      · subst hdotdot
        rw [Function.update_self] at hsmall
        cases hsmall
        rfl
      · rw [Function.update_of_ne hdotdot] at hsmall
        by_cases hdot : name = [46]
        · subst hdot
          rw [Function.update_self] at hsmall
          cases hsmall
          rfl
        · rw [Function.update_of_ne hdot] at hsmall
          cases hsmall
    · have hblank : smallTree.dir i = Dir.blank i := if_neg hi
      rw [hblank, Dir.map_empty rfl] at hentry
      cases hentry
  refine ⟨⟨by decide, by decide, hnamed, fun _ => ?_, rfl, hgood, by decide, by decide⟩, ?_⟩
  · exact Nat.lt_of_sub_eq_succ rfl
  · exact (congrFun hmap [97]).trans rfl

theorem smallTree_fresh : smallTree.Fresh smallGeom 12 := ⟨rfl, by decide, by decide⟩

/-- A file whose entry gets no block leaves nothing. -/
theorem call_undone_nospace :
    let r := (create 0x81A4).call smallGeom 11 [97] (smallEnv ⟨some .enospc, 0, none⟩) smallTree
    r.1 = .done (.error .enospc) ∧ smallTree.Kept smallGeom r.2 := by
  intro r
  have hret : r.1 = .done (.error .enospc) := by decide +kernel
  refine ⟨hret, ?_⟩
  refine (call_undone_iff smallTree_vacant.toReady (create 0x81A4)
    ⟨smallTree_vacant.vacant, fun ino hnew => ?_⟩).mpr ?_ _ hret
  · cases hnew
    exact smallTree_fresh
  · rintro ⟨-, -, hprepare, -⟩
    cases hprepare

/-- A file whose entry cannot be written to the disk is given back, and the entry stays. -/
theorem create_lost :
    let r := krCreate smallGeom 11 [97] (smallEnv ⟨none, 0, some .eio⟩) 0x81A4 smallTree
    smallTree.Ready smallGeom 11 [97] ∧ (smallTree.dir 11).map smallGeom [97] = none ∧
      r.1 = .done (.error .eio) ∧ (r.2.dir 11).map smallGeom [97] = some (12, 1) ∧
      r.2.inUse 12 = false ∧ ¬ smallTree.Kept smallGeom r.2 := by
  intro r
  have h := smallTree_vacant
  have hret : r.1 = .done (.error .eio) := by decide +kernel
  have hmap : (r.2.dir 11).map smallGeom [97] = some (12, 1) := by
    obtain ⟨hfail, hadded⟩ := @krAddLink_added smallGeom smallDir [97] ⟨12, 0x81A4⟩
      ⟨none, 0, some .eio⟩ h.chunk h.count h.good h.nonempty h.short h.vacant ⟨by decide, by decide⟩
      rfl nofun
    have hdir : r.2.dir 11 =
        (krAddLink smallGeom smallDir [97] ⟨12, 0x81A4⟩ ⟨none, 0, some .eio⟩).dir := by
      have heq : r = _ := DirCall.andThen_of_ret hfail _
      rw [heq]
      simp
      rfl
    rw [hdir, hadded, Function.update_self]
    rfl
  refine ⟨h.toReady, h.vacant, hret, hmap, by decide +kernel, fun hkept => ?_⟩
  have hsame := congrFun (hkept.maps 11 rfl) [97]
  rw [hmap, h.vacant] at hsame
  cases hsame

end NameOp

end KrFs
