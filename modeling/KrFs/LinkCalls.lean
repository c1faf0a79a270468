import KrFs.NameLinks

/-!
# Calls on the graph of names

Each call that makes or removes a name in a directory of the tree follows steps of the graph
when it returns: a call that fails none, a call that succeeds one or two. Only the growth of a
full directory can fail to do so.
-/

namespace KrFs

open KeyCount

namespace NameTree

/-- A tree whose link counts are right. -/
structure Sound (g : DirGeom) (root : Nat) (t : NameTree) : Prop where
  placed : t.Placed g
  counted : (t.links g).Counted root

/-- A name in a directory that has not been removed. -/
structure At (t : NameTree) (dir : Nat) (name : List UInt8) : Prop where
  live : t.Live dir
  nonempty : 1 ≤ name.length
  short : name.length ≤ 255
  plain : ¬ IsDots name

structure Site (g : DirGeom) (root : Nat) (t : NameTree) (dir : Nat) (name : List UInt8) : Prop
    extends t.Sound g root, t.At dir name where
  chunk : g.chunkBits ≤ 16
  count : g.sInodesCount < 2 ^ 32

/-- When the call returns it has followed steps of the graph. -/
def TracksBy (R : LinkGraph Nat (List UInt8) → LinkGraph Nat (List UInt8) → Prop) (g : DirGeom)
    (t : NameTree) (r : Exec (Except Errno Unit) × NameTree) : Prop :=
  ∀ e, r.1 = .done e → FollowsBy R g t r.2

end NameTree

/-- Blocks of directories that are there can be written, and `kr_new_inode` makes an inode of
the kind that it is asked for. -/
structure NameEnv.Steady (env : NameEnv) : Prop where
  link : env.link.commit = none
  prepare : env.delete.prepare = none
  delete : env.delete.commit = none
  kind : ∀ mode, S_ISDIR (env.initMode mode) = S_ISDIR mode

namespace NameTree

section Tracks

variable {g : DirGeom} {root : Nat} {t s : NameTree} {dir ino : Nat} {name : List UInt8}
  {env : NameEnv} {e : Except Errno Unit} {mode : UInt16}
  {R : LinkGraph Nat (List UInt8) → LinkGraph Nat (List UInt8) → Prop}

theorem Same.tracks (hsame : Same g t s) (h : t.Placed g) : t.TracksBy R g (.done e, s) :=
  fun _ _ => hsame.follows h

theorem FollowsBy.tracks (h : FollowsBy R g t s) : t.TracksBy R g (.done e, s) := fun _ _ => h

theorem quota_tracks {rest : Exec (Except Errno Unit) × NameTree} (h : t.Placed g)
    (hrest : env.quota = none → t.TracksBy R g rest) :
    t.TracksBy R g (match env.quota with
      | some err => (.done (.error err), t)
      | none => rest) := by
  cases hquota : env.quota with
  | some err => exact (Same.refl t).tracks h
  | none => exact hrest hquota

theorem new_tracks {rest : Nat → Exec (Except Errno Unit) × NameTree} (h : t.Placed g)
    (hsame : Same g t s) (hrest : ∀ ino, env.newInode = .ok ino → t.TracksBy R g (rest ino)) :
    t.TracksBy R g (match env.newInode with
      | .error err => (.done (.error err), s)
      | .ok ino => rest ino) := by
  cases hnew : env.newInode with
  | error err => exact hsame.tracks h
  | ok ino => exact hrest ino hnew

theorem tracks_andThen {c : DirCall}
    {rest : Except Errno Unit → Exec (Except Errno Unit) × NameTree}
    (hrest : ∀ e, c.ret = .done e → t.TracksBy R g (rest e)) : t.TracksBy R g (c.andThen s rest) := by
  unfold DirCall.andThen
  cases hret : c.ret with
  | done e => exact hrest e hret
  | bug =>
    intro e he
    cases he
  | running =>
    intro e he
    cases he

/-- A name that is bound to nothing is free in the graph. -/
theorem links_entry_free (hfree : (t.dir dir).map g name = none) :
    (t.links g).entry (dir, name) = none := by
  simp [links, Dir.names, hfree]

/-- A link count of the tree is one of the graph. -/
theorem links_update_nlink (hi : t.inUse ino = true) (nlink : Nat → Nat) (n : Nat) :
    (fun j => if t.inUse j = true then Function.update nlink ino n j else 0) =
      Function.update (fun j => if t.inUse j = true then nlink j else 0) ino n := by
  funext j
  by_cases hj : j = ino
  · subst hj
    simp [hi]
  · simp [hj]

theorem Site.links_entry (h : t.Site g root dir name) {type : UInt8}
    (hname : (t.dir dir).map g name = some (ino, type)) :
    (t.links g).entry (dir, name) = some ino := by
  rw [NameTree.links_entry h.live.isDirectory]
  unfold Dir.names
  rw [if_neg h.plain, hname]
  rfl

/-- A call that makes an entry. -/
theorem Site.add_tracks (h : t.Site g root dir name) (hfree : (t.dir dir).map g name = none)
    {inode : LinkTarget} {link : ChunkEnv}
    {rest : Except Errno Unit → Exec (Except Errno Unit) × NameTree}
    (hparent : s.dir dir = t.dir dir) (hvalid : inode.Valid g) (hcommit : link.commit = none)
    (hgrows : link.prepare = none → (t.dir dir).Grows g name)
    (hok : (s.dir dir).Binds g dir (krAddLink g (s.dir dir) name inode link).dir name
      (inode.value g) → t.TracksBy R g (rest (.ok ())))
    (herror : ∀ err, (s.dir dir).Stays g dir (krAddLink g (s.dir dir) name inode link).dir →
      t.TracksBy R g (rest (.error err))) :
    t.TracksBy R g ((krAddLink g (s.dir dir) name inode link).andThen s rest) := by
  have hdot : name ≠ [46] := fun heq => h.plain (Or.inl heq)
  have hend := krAddLink_end h.chunk h.count (h.placed.proper h.live) h.nonempty h.short hdot hfree
    hvalid hcommit hgrows
  rw [← hparent] at hend
  apply tracks_andThen
  intro e he
  cases hend with
  | running hret =>
    rw [hret] at he
    cases he
  | fails err hprepare hret hstays =>
    rw [hret] at he
    cases he
    exact herror err hstays
  | enters hprepare hret hbinds =>
    rw [hret] at he
    cases he
    exact hok hbinds

/-- A new inode that gets a name in another directory than itself. -/
theorem Site.newInode_parent (h : t.Site g root dir name) (hfresh : t.Fresh g ino) :
    (t.newInode ino mode).dir dir = t.dir dir :=
  Function.update_of_ne (hfresh.ne h.live.inUse) _ _

theorem Site.newInode_isDirectory (h : t.Site g root dir name) (hfresh : t.Fresh g ino) :
    (t.newInode ino mode).isDirectory dir = true := by
  have hne := hfresh.ne h.live.inUse
  rw [isDirectory_iff]
  constructor
  · simpa [hne] using h.live.inUse
  · simpa [hne] using h.live.isDir

theorem Site.addNondir_tracks (h : t.Site g root dir name) (hfresh : t.Fresh g ino)
    (hfile : S_ISDIR mode = false) (hfree : (t.dir dir).map g name = none)
    (hcommit : env.link.commit = none)
    (hgrows : env.link.prepare = none → (t.dir dir).Grows g name) :
    t.TracksBy LinkGraph.Edit g (krAddNondir g dir name env ino (t.newInode ino mode)) := by
  have hne := hfresh.ne h.live.inUse
  have hparent : (t.newInode ino mode).dir dir = t.dir dir := h.newInode_parent hfresh
  apply h.add_tracks hfree hparent ⟨hfresh.pos, hfresh.count⟩ hcommit hgrows
  · intro hbinds
    generalize (krAddLink g ((t.newInode ino mode).dir dir) name
      ((t.newInode ino mode).target ino) env.link).dir = d at hbinds
    obtain ⟨hnames, hup⟩ := Dir.names_update h.plain hbinds.map
    have hlinks : ((t.newInode ino mode).setDir dir d).links g =
        ((t.links g).addFile ino).link (dir, name) ino := by
      rw [links_setDir_entry (h.newInode_isDirectory hfresh) hnames hup,
        links_newFile hfresh.unused hfile]
      simp [LinkGraph.link, LinkGraph.addFile, LinkTarget.value, DirTree.target]
    have hlive : ((t.links g).addFile ino).Live dir := by
      apply (live_links.mpr h.live).of_same
      · exact Function.update_of_ne hne _ _
      · exact Function.update_of_ne hne _ _
      · exact Function.update_of_ne hne _ _
    apply FollowsBy.tracks
    constructor
    · exact (h.placed.newInode ⟨hfresh.pos, hfresh.count⟩ hfile).setDir hbinds.proper
    · refine (Relation.ReflTransGen.single (.addFile ino hfresh.unused)).tail ?_
      rw [hlinks]
      refine .link (dir, name) ino hlive (links_entry_free hfree) ?_ ?_
      · exact Function.update_self _ _ _
      · exact Function.update_self _ _ _
  · intro err hstays
    rw [hparent] at hstays
    refine Same.tracks (.released hfresh.unused ?_ rfl ?_ ?_ ?_) h.placed
    · simp [sub32]
    · intro i hi
      simp [hi]
    · intro i hi
      simp [hi]
    · intro i hi
      by_cases hdir : i = dir
      · subst hdir
        right
        simpa [hparent] using hstays
      · left
        simp [hi, hdir]

end Tracks

section Calls

variable {g : DirGeom} {root : Nat} {t : NameTree} {dir ino : Nat} {name : List UInt8}
  {env : NameEnv} {mode : UInt16}

theorem Site.createNode_tracks (h : t.Site g root dir name)
    (hfresh : ∀ ino, env.newInode = .ok ino → t.Fresh g ino) (hfile : S_ISDIR mode = false)
    (hfree : (t.dir dir).map g name = none) (henv : env.Steady)
    (hgrows : env.quota = none → (∃ ino, env.newInode = .ok ino) → env.link.prepare = none →
      (t.dir dir).Grows g name) :
    t.TracksBy LinkGraph.Edit g (createNode g dir name env mode t) := by
  apply quota_tracks h.placed
  intro hquota
  apply new_tracks h.placed (.refl t)
  intro ino hnew
  exact h.addNondir_tracks (hfresh ino hnew) ((henv.kind mode).trans hfile) hfree henv.link
    (hgrows hquota ⟨ino, hnew⟩)

theorem Site.krSymlink_tracks (h : t.Site g root dir name)
    (hfresh : ∀ ino, env.newInode = .ok ino → t.Fresh g ino)
    (hfree : (t.dir dir).map g name = none) (henv : env.Steady)
    {symname : List UInt8}
    (hgrows : symname.length + 1 ≤ g.chunkSize → env.quota = none →
      (∃ ino, env.newInode = .ok ino) → (60 < symname.length + 1 → env.pageSymlink = none) →
      env.link.prepare = none → (t.dir dir).Grows g name) :
    t.TracksBy LinkGraph.Edit g (krSymlink g dir name env symname t) := by
  unfold krSymlink
  dsimp only
  split
  · exact (Same.refl t).tracks h.placed
  · rename_i hlen
    apply quota_tracks h.placed
    intro hquota
    apply new_tracks h.placed (.refl t)
    intro ino hnew
    have hfresh := hfresh ino hnew
    cases hslow : (if 60 < symname.length + 1 then env.pageSymlink else none) with
    | none =>
      have hpage : 60 < symname.length + 1 → env.pageSymlink = none := by
        intro hlong
        rwa [if_pos hlong] at hslow
      exact h.addNondir_tracks hfresh ((henv.kind symlinkMode).trans rfl) hfree henv.link
        (hgrows (Nat.le_of_not_lt hlen) hquota ⟨ino, hnew⟩ hpage)
    | some err =>
      refine Same.tracks (.released hfresh.unused ?_ rfl ?_ ?_ ?_) h.placed
      · simp [sub32]
      · intro i hi
        simp [hi]
      · intro i hi
        simp [hi]
      · intro i hi
        left
        simp [hi]

/-- A file without a name has no link. -/
theorem Sound.krTmpfile_tracks (h : t.Sound g root)
    (hfresh : ∀ ino, env.newInode = .ok ino → t.Fresh g ino) (hfile : S_ISDIR mode = false)
    (henv : env.Steady) : t.TracksBy LinkGraph.Edit g (krTmpfile env mode t) := by
  apply new_tracks h.placed (.refl t)
  intro ino hnew
  have hfresh := hfresh ino hnew
  have hfile' : S_ISDIR (env.initMode mode) = false := (henv.kind mode).trans hfile
  have hplaced := h.placed.newInode ⟨hfresh.pos, hfresh.count⟩ hfile'
  have hused : (t.newInode ino (env.initMode mode)).inUse ino = true := Function.update_self _ _ _
  have hone : (t.newInode ino (env.initMode mode)).nlink ino = 1 := Function.update_self _ _ _
  apply FollowsBy.tracks
  constructor
  · exact hplaced.dropNlink hused (by omega)
  · have hlinks : ((t.newInode ino (env.initMode mode)).dropNlink ino).links g =
        (t.links g).addFile ino := by
      rw [links_dropNlink hused (by omega) (by omega), links_newFile hfresh.unused hfile']
      simp [LinkGraph.addFile]
    rw [hlinks]
    exact .single (.addFile ino hfresh.unused)

theorem Site.krLink_tracks (h : t.Site g root dir name) (hused : t.inUse ino = true)
    (hfile : S_ISDIR (t.mode ino) = false) (hfew : t.nlink ino + 1 < 2 ^ 16)
    (hfree : (t.dir dir).map g name = none) (henv : env.Steady)
    (hgrows : env.quota = none → env.link.prepare = none → (t.dir dir).Grows g name) :
    t.TracksBy LinkGraph.Edit g (krLink g dir name env ino t) := by
  have hisDir : (t.incNlink ino).isDirectory dir = true := h.live.isDirectory
  have hparent : (t.incNlink ino).dir dir = t.dir dir := rfl
  have hvalid : ((t.incNlink ino).target ino).Valid g :=
    ⟨(h.placed.number hused).1, (h.placed.number hused).2⟩
  apply quota_tracks h.placed
  intro hquota
  apply h.add_tracks hfree hparent hvalid henv.link (hgrows hquota)
  · intro hbinds
    dsimp only
    generalize (krAddLink g ((t.incNlink ino).dir dir) name ((t.incNlink ino).target ino)
      env.link).dir = d at hbinds ⊢
    obtain ⟨hnames, hup⟩ := Dir.names_update h.plain hbinds.map
    have hlinks : ((t.incNlink ino).setDir dir d).links g = (t.links g).link (dir, name) ino := by
      rw [links_setDir_entry hisDir hnames hup, links_incNlink hused (by omega)]
      rfl
    apply FollowsBy.tracks
    constructor
    · refine (h.placed.incNlink hfew fun hdir => ?_).setDir hbinds.proper
      rw [hfile] at hdir
      cases hdir
    · rw [hlinks]
      refine .single (.link (dir, name) ino (live_links.mpr h.live) (links_entry_free hfree) hused ?_)
      show t.isDirectory ino = false
      rw [isDirectory, hfile, Bool.and_false]
  · intro err hstays
    refine Same.tracks (.dropNlink (.setDir hstays) ?_) h.placed
    omega

/-- The failure path of `kr_mkdir` takes back all three links. -/
theorem mkdirFail_same (h : t.Placed g) (hdir : t.inUse dir = true) (hfresh : t.inUse ino = false)
    {s : NameTree} (hlinks : s.nlink ino = 2) (hinUse : s.inUse = Function.update t.inUse ino true)
    (hmode : ∀ i, i ≠ ino → s.mode i = t.mode i)
    (hnlink : ∀ i, i ≠ ino → s.nlink i = (t.incNlink dir).nlink i)
    (hdirs : ∀ i, i ≠ ino → s.dir i = t.dir i ∨ (t.dir i).Stays g i (s.dir i)) :
    Same g t ((((s.dropNlink ino).dropNlink ino).iput ino).dropNlink dir) := by
  have hbound := h.bound hdir
  refine .dropNlink (.released hfresh ?_ hinUse hmode ?_ hdirs) (by omega)
  · simp [hlinks, sub32]
  · intro i hi
    simpa [hi] using hnlink i hi

/-- The entry of a new directory. -/
theorem Site.mkdir_follows (h : t.Site g root dir name) (hfresh : t.Fresh g ino)
    (hkind : S_ISDIR mode = true) (hfew : t.nlink dir + 1 < 2 ^ 16)
    (hfree : (t.dir dir).map g name = none) {d e : Dir} {type : UInt8} (hproper : e.Proper g ino)
    (hnames : e.names g = fun _ => none) (hup : e.up g = some dir)
    (hbinds : (t.dir dir).Binds g dir d name (ino, type)) :
    FollowsBy LinkGraph.Edit g t (((((t.incNlink dir).newInode ino mode).incNlink ino).setDir ino e).setDir dir d) := by
  have hne := hfresh.ne h.live.inUse
  have hunused : (t.incNlink dir).inUse ino = false := hfresh.unused
  have hplaced : (t.incNlink dir).Placed g := h.placed.incNlink hfew fun _ => h.live.linked
  obtain ⟨hnames', hup'⟩ := Dir.names_update h.plain hbinds.map
  constructor
  · exact (hplaced.newDir ⟨hfresh.pos, hfresh.count⟩ hproper).setDir hbinds.proper
  · have hisDir : ((((t.incNlink dir).newInode ino mode).incNlink ino).setDir ino e).isDirectory dir =
        true := by
      rw [isDirectory_iff]
      constructor
      · simpa [hne] using h.live.inUse
      · simpa [hne] using h.live.isDir
    have hparent : ((((t.incNlink dir).newInode ino mode).incNlink ino).setDir ino e).dir dir =
        t.dir dir := by
      simp [hne]
    have hlinks : (((((t.incNlink dir).newInode ino mode).incNlink ino).setDir ino e).setDir dir d).links g =
        (t.links g).mkdir (dir, name) ino := by
      rw [← hparent] at hnames' hup'
      rw [links_setDir_entry hisDir hnames' hup', links_newDir hunused hkind hnames,
        links_incNlink h.live.inUse (by omega), hup]
      rfl
    rw [hlinks]
    exact .single (.mkdir (dir, name) ino (live_links.mpr h.live) (links_entry_free hfree) hfresh.unused)

theorem Site.krMkdir_tracks (h : t.Site g root dir name)
    (hfresh : ∀ ino, env.newInode = .ok ino → t.Fresh g ino)
    (hdir : S_ISDIR (S_IFDIR ||| mode) = true) (hfew : t.nlink dir + 1 < 2 ^ 16)
    (hfree : (t.dir dir).map g name = none) (henv : env.Steady)
    (hgrows : env.quota = none → (∃ ino, env.newInode = .ok ino) →
      env.empty.prepare.or env.empty.commit = none → env.link.prepare = none →
      (t.dir dir).Grows g name) :
    t.TracksBy LinkGraph.Edit g (krMkdir g dir name env mode t) := by
  apply quota_tracks h.placed
  intro hquota
  apply new_tracks h.placed
  · exact .dropNlink (.refl _) (by omega)
  · intro ino hnew
    have hfresh := hfresh ino hnew
    have hne := hfresh.ne h.live.inUse
    have hkind : S_ISDIR (env.initMode (S_IFDIR ||| mode)) = true := (henv.kind _).trans hdir
    dsimp only
    generalize env.initMode (S_IFDIR ||| mode) = mode' at hkind ⊢
    rw [DirCall.andThen_of_ret krMakeEmpty_ret]
    cases hempty : env.empty.prepare.or env.empty.commit with
    | some err =>
      refine (mkdirFail_same h.placed h.live.inUse hfresh.unused ?_ rfl ?_ ?_ ?_).tracks h.placed
      · simp
      · intro i hi
        simp [hi]
      · intro i hi
        simp [hi]
      · intro i hi
        left
        simp [hi]
    | none =>
      obtain ⟨hprepare, hcommit⟩ := Option.or_eq_none_iff.mp hempty
      have hvalid : ((((t.incNlink dir).newInode ino mode').incNlink ino).target ino).Valid g :=
        ⟨hfresh.pos, hfresh.count⟩
      have hblank : (((t.incNlink dir).newInode ino mode').incNlink ino).dir ino = Dir.blank ino :=
        Function.update_self _ _ _
      obtain ⟨-, hproper, hmap⟩ := krMakeEmpty_proper h.chunk h.count (d := Dir.blank ino) rfl
        (fun _ => rfl) hvalid (h.placed.number h.live.inUse) hprepare hcommit
      rw [← hblank] at hproper hmap
      dsimp only
      generalize (krMakeEmpty g ((((t.incNlink dir).newInode ino mode').incNlink ino).dir ino)
        ((((t.incNlink dir).newInode ino mode').incNlink ino).target ino) dir env.empty).dir = e
        at hproper hmap ⊢
      have hparent : ((((t.incNlink dir).newInode ino mode').incNlink ino).setDir ino e).dir dir =
          t.dir dir := by
        simp [hne]
      obtain ⟨hnames, hup⟩ := Dir.names_made hmap
      generalize hs : (((t.incNlink dir).newInode ino mode').incNlink ino).setDir ino e = s
        at hparent ⊢
      apply h.add_tracks hfree hparent ⟨hfresh.pos, hfresh.count⟩ henv.link
        (hgrows hquota ⟨ino, hnew⟩ hempty)
      · intro hbinds
        dsimp only
        generalize (krAddLink g (s.dir dir) name (s.target ino) env.link).dir = d at hbinds ⊢
        rw [hparent] at hbinds
        subst hs
        exact (h.mkdir_follows hfresh hkind hfew hfree hproper hnames hup hbinds).tracks
      · intro err hstays
        dsimp only
        generalize (krAddLink g (s.dir dir) name (s.target ino) env.link).dir = d at hstays ⊢
        rw [hparent] at hstays
        subst hs
        refine (mkdirFail_same h.placed h.live.inUse hfresh.unused ?_ rfl ?_ ?_ ?_).tracks h.placed
        · simp
        · intro i hi
          simp [hi]
        · intro i hi
          simp [hi]
        · intro i hi
          by_cases hdir : i = dir
          · subst hdir
            right
            simpa using hstays
          · left
            simp [hi, hdir]

/-- How `kr_unlink` goes. -/
theorem Site.krUnlink_end (h : t.Site g root dir name) (henv : env.Steady) :
    (∃ err s, krUnlink g dir name env ino t = (.done (.error err), s) ∧ Same g t s) ∨
      ∃ d, (t.dir dir).Drops g dir d name ∧
        krUnlink g dir name env ino t = (.done (.ok ()), (t.setDir dir d).dropNlink ino) := by
  have hproper := h.placed.proper h.live
  unfold krUnlink
  cases env.quota with
  | some err => exact Or.inl ⟨err, t, rfl, .refl t⟩
  | none =>
    rcases hfound : krFindEntry g (t.dir dir) name with ⟨_ | ⟨n, de⟩, d, scans⟩
    · have hstays := hproper.find name
      rw [hfound] at hstays
      exact Or.inl ⟨.enoent, t.setDir dir d, rfl, .setDir hstays⟩
    · obtain ⟨hstays, w, hslot⟩ := hproper.found h.short hfound
      rw [← hstays.slots] at hslot
      obtain ⟨hret, hdrops⟩ := krDeleteEntry_drops h.chunk hstays.proper hslot
        (fun heq => h.plain (Or.inl heq)) (fun heq => h.plain (Or.inr heq)) henv.prepare henv.delete
      right
      refine ⟨_, ⟨hdrops.proper, ?_⟩, ?_⟩
      · rw [hdrops.map, hstays.map]
      · dsimp only
        rw [DirCall.andThen_of_ret hret]
        dsimp only
        rw [setDir_setDir]

theorem Site.krUnlink_tracks (h : t.Site g root dir name) {type : UInt8}
    (hname : (t.dir dir).map g name = some (ino, type)) (hfile : S_ISDIR (t.mode ino) = false)
    (henv : env.Steady) : t.TracksBy LinkGraph.Edit g (krUnlink g dir name env ino t) := by
  have hentry := h.links_entry hname
  have hused : t.inUse ino = true := h.counted.target hentry
  have hlinked := h.counted.linked_of_named hentry
  rw [links_nlink hused] at hlinked
  have hbound := h.placed.bound hused
  rcases h.krUnlink_end henv with ⟨err, s, heq, hsame⟩ | ⟨d, hdrops, heq⟩
  · rw [heq]
    exact hsame.tracks h.placed
  · obtain ⟨hnames, hup⟩ := Dir.names_update h.plain hdrops.map
    have hused' : (t.setDir dir d).inUse ino = true := hused
    have hpos : 0 < (t.setDir dir d).nlink ino := Nat.pos_of_ne_zero hlinked
    have hsmall : (t.setDir dir d).nlink ino < 2 ^ 32 := hbound.trans (by decide)
    have hlinks : ((t.setDir dir d).dropNlink ino).links g =
        (t.links g).unlink (dir, name) ino := by
      rw [links_dropNlink hused' hpos hsmall, links_setDir_entry h.live.isDirectory hnames hup]
      rfl
    rw [heq]
    apply FollowsBy.tracks
    constructor
    · exact (h.placed.setDir hdrops.proper).dropNlink hused (Nat.pos_of_ne_zero hlinked)
    · rw [hlinks]
      refine .single (.unlink (dir, name) ino hentry ?_)
      show t.isDirectory ino = false
      rw [isDirectory, hfile, Bool.and_false]

/-- A directory that `kr_empty_dir` takes for empty. -/
theorem Placed.names_none (h : t.Placed g) (hlive : t.Live ino)
    (hempty : (krEmptyDir g (t.dir ino)).1 = true) : (t.dir ino).names g = fun _ => none := by
  funext name
  unfold Dir.names
  split
  · rfl
  · rename_i hplain
    rw [(h.proper hlive).empty hempty (fun heq => hplain (Or.inl heq)) fun heq =>
      hplain (Or.inr heq)]
    rfl

/-- A directory that is removed has lost both its links, and its parent one. -/
theorem Site.rmdir_follows (h : t.Site g root dir name) (hlive : t.Live ino)
    (hentry : (t.links g).entry (dir, name) = some ino)
    (hnone : (t.dir ino).names g = fun _ => none) {d e : Dir} (hdrops : (t.dir dir).Drops g dir d name)
    (hsize : e.iSize = 0) :
    FollowsBy LinkGraph.Edit g t
      (((((t.setDir dir d).dropNlink ino).setDir ino e).dropNlink ino).dropNlink dir) := by
  have hne : dir ≠ ino := h.counted.loopless hentry
  have hleaf : ∀ n, (t.links g).entry (ino, n) = none := by
    intro n
    rw [NameTree.links_entry hlive.isDirectory, hnone]
  have htwo : t.nlink ino = 2 := by
    have hlinks := h.counted.leaf (live_links.mpr hlive) hleaf
    rwa [links_nlink hlive.inUse] at hlinks
  have hthree : 3 ≤ t.nlink dir := by
    have hlinks := h.counted.three_le hentry hlive.isDirectory
    rwa [links_nlink h.live.inUse] at hlinks
  have hbound := h.placed.bound h.live.inUse
  have hone : ((t.setDir dir d).dropNlink ino).nlink ino = 1 := by
    simp [htwo, sub32]
  have hparent : (((t.setDir dir d).dropNlink ino).dropNlink ino).nlink dir = t.nlink dir := by
    simp [hne]
  have htwo' : (t.setDir dir d).nlink ino = 2 := htwo
  have hused₀ : (t.setDir dir d).inUse ino = true := hlive.inUse
  have hused : ((t.setDir dir d).dropNlink ino).inUse ino = true := hlive.inUse
  have hused' : (((t.setDir dir d).dropNlink ino).dropNlink ino).inUse dir = true := h.live.inUse
  have hfirst : ((t.setDir dir d).dropNlink ino).Placed g :=
    (h.placed.setDir hdrops.proper).dropNlink hlive.inUse (by omega)
  have hsecond : (((t.setDir dir d).dropNlink ino).dropNlink ino).Placed g :=
    hfirst.dropNlink hused (by omega)
  have hlast : ((((t.setDir dir d).dropNlink ino).dropNlink ino).dropNlink dir).nlink ino = 0 := by
    simp [hne.symm, htwo, sub32]
  constructor
  · -- the directory has no link left when its size is set
    exact (hsecond.dropNlink hused' (by omega)).setDir_dead hlast
  · have hlinks : (((((t.setDir dir d).dropNlink ino).dropNlink ino).dropNlink dir).setDir ino e).links g =
        (t.links g).rmdir (dir, name) ino (e.up g) := by
      have hisDir : ((((t.setDir dir d).dropNlink ino).dropNlink ino).dropNlink dir).isDirectory ino =
          true := hlive.isDirectory
      have hgone : e.names g =
          (((((t.setDir dir d).dropNlink ino).dropNlink ino).dropNlink dir).dir ino).names g := by
        simp [Dir.names_empty hsize, hne.symm, hnone]
      have hgraph : (t.links g).nlink ino = 2 := (links_nlink hlive.inUse).trans htwo
      obtain ⟨hnames, hup⟩ := Dir.names_update h.plain hdrops.map
      rw [links_setDir_up hisDir hgone, links_dropNlink hused' (by omega) (by omega),
        links_dropNlink hused (by omega) (by omega), links_dropNlink hused₀ (by omega) (by omega),
        links_setDir_entry h.live.isDirectory hnames hup]
      simp [LinkGraph.rmdir, hgraph, hne]
    have hstep := LinkGraph.Edit.rmdir (dir, name) ino (e.up g) hentry hlive.isDirectory hleaf
    rw [← hlinks] at hstep
    exact .single hstep

theorem Site.krRmdir_tracks (h : t.Site g root dir name) {type : UInt8}
    (hname : (t.dir dir).map g name = some (ino, type)) (hdir : S_ISDIR (t.mode ino) = true)
    (henv : env.Steady) : t.TracksBy LinkGraph.Edit g (krRmdir g dir name env ino t) := by
  have hentry := h.links_entry hname
  have hused : t.inUse ino = true := h.counted.target hentry
  have hlinked := h.counted.linked_of_named hentry
  rw [links_nlink hused] at hlinked
  have hlive : t.Live ino := ⟨hused, hdir, hlinked⟩
  have hne : dir ≠ ino := h.counted.loopless hentry
  unfold krRmdir
  cases hempty : (krEmptyDir g (t.dir ino)).1 with
  | false => exact (Same.refl t).tracks h.placed
  | true =>
    have hnone := h.placed.names_none hlive hempty
    rcases h.krUnlink_end henv with ⟨err, s, heq, hsame⟩ | ⟨d, hdrops, heq⟩
    · rw [heq]
      exact hsame.tracks h.placed
    · rw [heq]
      exact (h.rmdir_follows hlive hentry hnone hdrops rfl).tracks

/-- The last reference to an inode without links. -/
theorem Sound.iput_follows (h : t.Sound g root) (hlinks : t.nlink ino = 0) :
    FollowsBy LinkGraph.Edit g t (t.iput ino) := by
  have hzero : (t.links g).nlink ino = 0 := by
    simp [links, hlinks]
  have hempty : ∀ n, (t.links g).entry (ino, n) = none := by
    intro n
    cases hentry : (t.links g).entry (ino, n) with
    | none => rfl
    | some j => exact absurd hzero (h.counted.place hentry).linked
  constructor
  · exact h.placed.iput hlinks
  · rw [links_iput hlinks hempty]
    exact .single (.evict ino hzero)

theorem Follows.sound {s : NameTree} (hsteps : Follows g t s) (h : t.Sound g root) : s.Sound g root :=
  ⟨hsteps.placed, h.counted.run hsteps.steps⟩

theorem FollowsBy.trans {R : LinkGraph Nat (List UInt8) → LinkGraph Nat (List UInt8) → Prop}
    {s s' : NameTree} (hfirst : FollowsBy R g t s) (hrest : FollowsBy R g s s') :
    FollowsBy R g t s' :=
  ⟨hrest.placed, hfirst.steps.trans hrest.steps⟩

end Calls

end NameTree

end KrFs
