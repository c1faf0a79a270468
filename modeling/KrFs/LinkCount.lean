import KrFs.LinkRename
import KrFs.Superblock
import KrFs.Lib.Trace

/-!
# Link counts over runs

The calls of `namei.c` in any order, with any of their failures but that of a write to a
block that a directory has, as the callers make them. As long as no call comes to grow a
directory that cannot grow, the link counts are what the entries say.
-/

namespace KrFs

open KeyCount

/-- A call, with what it meets, or the end of an inode without links. -/
inductive NameEvent where
  | call (op : NameOp) (dir : Nat) (name : List UInt8) (env : NameEnv)
  | tmpfile (mode : UInt16) (env : NameEnv)
  | rename (oldDir newDir oldIno : Nat) (oldName newName : List UInt8) (newInode : Option Nat)
      (flags : UInt32) (env : RenameEnv)
  | evict (ino : Nat)

/-- The kind of inode that the callers ask for, and what they have seen of the object. The
links that a call adds have to fit into the 16 bits that the disk has for them. -/
def NameOp.Rules (g : DirGeom) (dir : Nat) (name : List UInt8) (t : NameTree) (op : NameOp) : Prop :=
  match op with
  | create mode | mknod mode => S_ISDIR mode = false
  | symlink _ => True
  | link ino => S_ISDIR (t.mode ino) = false ∧ t.nlink ino + 1 < 2 ^ 16
  | mkdir mode => mode &&& S_IFMT = 0 ∧ t.nlink dir + 1 < 2 ^ 16
  | unlink ino => (∃ type, (t.dir dir).map g name = some (ino, type)) ∧ S_ISDIR (t.mode ino) = false
  | rmdir ino => (∃ type, (t.dir dir).map g name = some (ino, type)) ∧ S_ISDIR (t.mode ino) = true

/-- When the call comes to `kr_add_link` and a chunk can be had, the directory can grow. -/
def NameOp.Grows (g : DirGeom) (dir : Nat) (name : List UInt8) (env : NameEnv) (t : NameTree)
    (op : NameOp) : Prop :=
  let adds := env.link.prepare = none → (t.dir dir).Grows g name
  let made := ∃ ino, env.newInode = .ok ino
  match op with
  | create _ | mknod _ => env.quota = none → made → adds
  | symlink symname => symname.length + 1 ≤ g.chunkSize → env.quota = none → made →
      (60 < symname.length + 1 → env.pageSymlink = none) → adds
  | link _ => env.quota = none → adds
  | mkdir _ => env.quota = none → made → env.empty.prepare.or env.empty.commit = none → adds
  | unlink _ | rmdir _ => True

namespace NameEvent

section Events

variable (g : DirGeom) (t : NameTree)

def run (e : NameEvent) : Exec (Except Errno Unit) × NameTree :=
  match e with
  | call op dir name env => op.call g dir name env t
  | tmpfile mode env => krTmpfile env mode t
  | rename oldDir newDir oldIno oldName newName newInode flags env =>
    t.rename g oldDir newDir oldIno oldName newName newInode flags env
  | evict ino => (.done (.ok ()), t.iput ino)

/-- The rules of the callers, and what does not fail. -/
def Lawful (e : NameEvent) : Prop :=
  match e with
  | call op dir name env =>
    t.At dir name ∧ env.Steady ∧ op.Allowed g dir name env t ∧ op.Rules g dir name t
  | tmpfile mode env =>
    env.Steady ∧ (∀ ino, env.newInode = .ok ino → t.Fresh g ino) ∧ S_ISDIR mode = false
  | rename oldDir newDir oldIno oldName newName newInode _ env =>
    t.RenameRules g oldDir newDir oldIno oldName newName newInode ∧ env.Steady newInode
  | evict ino => t.nlink ino = 0

/-- The call does not come to grow a directory that cannot grow. -/
def Grows (e : NameEvent) : Prop :=
  match e with
  | call op dir name env => op.Grows g dir name env t
  | rename _ newDir _ _ newName newInode flags env =>
    env.Searches flags → newInode = none → env.link.prepare = none → (t.dir newDir).Grows g newName
  | tmpfile _ _ | evict _ => True

/-- A lawful call that returns. -/
structure Step (e : NameEvent) (t' : NameTree) : Prop where
  lawful : e.Lawful g t
  returns : ∃ r, e.run g t = (.done r, t')

end Events

end NameEvent

/-- A file has as many links as there are entries that name it, and a directory that has not
been removed has two and one for each directory in it. -/
structure NameTree.LinkCounts (g : DirGeom) (t : NameTree) : Prop where
  file : ∀ {i}, t.inUse i = true → S_ISDIR (t.mode i) = false → (t.nlink i : ℕ∞) =
    {k : Nat × List UInt8 | t.Live k.1 ∧ ∃ type, (t.dir k.1).map g k.2 = some (i, type)}.encard
  dir : ∀ {i}, t.Live i → (t.nlink i : ℕ∞) = {c | t.isDirectory c = true ∧
    ∃ name type, ¬ IsDots name ∧ (t.dir i).map g name = some (c, type)}.encard + 2

section Counts

variable {g : DirGeom} {root : Nat} {t : NameTree} {dir ino : Nat} {name : List UInt8}

theorem NameTree.links_entry_iff (hdir : t.isDirectory dir = true) :
    (t.links g).entry (dir, name) = some ino ↔
      ¬ IsDots name ∧ ∃ type, (t.dir dir).map g name = some (ino, type) := by
  rw [NameTree.links_entry hdir]
  unfold Dir.names
  split
  · rename_i hdots
    simp [hdots]
  · rename_i hplain
    simp [hplain]

/-- `.` and `..` name directories. -/
theorem NameTree.Sound.dots (h : t.Sound g root) (hlive : t.Live dir) (hdots : IsDots name)
    {type : UInt8} (hname : (t.dir dir).map g name = some (ino, type)) : t.isDirectory ino = true := by
  rcases hdots with rfl | rfl
  · obtain ⟨type', hself⟩ := (h.placed.proper hlive).self
    rw [hname] at hself
    cases hself
    exact hlive.isDirectory
  · have hup : (t.links g).up dir = some ino := by
      rw [links_up hlive.isDirectory, Dir.up, hname]
      rfl
    by_cases hroot : dir = root
    · subst hroot
      rw [h.counted.rootUp] at hup
      cases hup
      exact hlive.isDirectory
    · obtain ⟨k, hk⟩ := h.counted.linked (live_links.mpr hlive) hroot
      have hparent := h.counted.parent hlive.isDirectory hk
      rw [hup] at hparent
      cases hparent
      exact (h.counted.place hk).isDir

/-- The counts of the graph are those of the tree. -/
theorem NameTree.Sound.linkCounts (h : t.Sound g root) : t.LinkCounts g := by
  constructor
  · intro i hi hfile
    have hkind : t.isDirectory i = false := by
      rw [isDirectory, hfile, Bool.and_false]
    have hkeys : {k : Nat × List UInt8 | t.Live k.1 ∧
        ∃ type, (t.dir k.1).map g k.2 = some (i, type)} =
        keys (t.links g).entry fun _ j => j = i := by
      ext k
      constructor
      · rintro ⟨hlive, type, hname⟩
        refine ⟨i, (links_entry_iff hlive.isDirectory).mpr ⟨fun hdots => ?_, type, hname⟩, rfl⟩
        rw [h.dots hlive hdots hname] at hkind
        cases hkind
      · rintro ⟨j, hentry, rfl⟩
        have hlive := live_links.mp (h.counted.place hentry)
        exact ⟨hlive, ((links_entry_iff hlive.isDirectory).mp hentry).2⟩
    have hcount := h.counted.file hi hkind
    rw [hkeys, hcount, links_nlink hi]
  · intro i hi
    have hcount := h.counted.children (live_links.mpr hi)
    have hchildren : {c | (t.links g).isDir c = true ∧ ∃ n, (t.links g).entry (i, n) = some c} =
        {c | t.isDirectory c = true ∧
          ∃ name type, ¬ IsDots name ∧ (t.dir i).map g name = some (c, type)} := by
      ext c
      constructor
      · rintro ⟨hdir, name, hentry⟩
        obtain ⟨hplain, type, hname⟩ := (links_entry_iff hi.isDirectory).mp hentry
        exact ⟨hdir, name, type, hplain, hname⟩
      · rintro ⟨hdir, name, type, hplain, hname⟩
        exact ⟨hdir, name, (links_entry_iff hi.isDirectory).mpr ⟨hplain, type, hname⟩⟩
    rw [links_nlink hi.inUse, hchildren] at hcount
    exact hcount

end Counts

/-! ### Trees with one directory -/

section Flat

variable {g : DirGeom} {root : Nat} {t : NameTree}

/-- A directory with files in it. -/
theorem NameTree.Placed.sound_flat (h : t.Placed g) (hlive : t.Live root) (htwo : t.nlink root = 2)
    (honly : ∀ {i}, t.isDirectory i = true → i = root) (hup : (t.links g).up root = some root)
    (hfiles : ∀ {k i}, (t.links g).entry k = some i → t.inUse i = true ∧ t.isDirectory i = false)
    (hcounts : ∀ {i}, t.inUse i = true → t.isDirectory i = false →
      Counts (t.links g).entry (fun _ j => j = i) (t.nlink i)) : t.Sound g root := by
  have hplace : ∀ {k i}, (t.links g).entry k = some i → k.1 = root := by
    intro k i hentry
    apply honly
    by_contra hnot
    have hnone : (t.links g).entry k = none := if_neg hnot
    rw [hnone] at hentry
    cases hentry
  have hfile : ∀ {k i}, t.isDirectory i = true → (t.links g).entry k ≠ some i := by
    intro k i hdir hentry
    rw [(hfiles hentry).2] at hdir
    cases hdir
  refine ⟨h, ?_⟩
  constructor
  case target => exact fun hentry => (hfiles hentry).1
  case place =>
    intro k i hentry
    rw [hplace hentry]
    exact live_links.mpr hlive
  case loopless =>
    intro k i hentry heq
    refine hfile ?_ hentry
    rw [← heq, hplace hentry]
    exact hlive.isDirectory
  case once => exact fun hdir hentry => absurd hentry (hfile hdir)
  case parent => exact fun hdir hentry => absurd hentry (hfile hdir)
  case file =>
    intro i hi hdir
    rw [links_nlink hi]
    exact hcounts hi hdir
  case dir =>
    intro i hi
    obtain rfl := honly hi.isDir
    refine ⟨0, (links_nlink hlive.inUse).trans htwo, ?_⟩
    apply Counts.zero
    rintro k j hentry ⟨-, hdir⟩
    exact hfile hdir hentry
  case dead => exact fun _ hdir _ k => hfile hdir
  case linked => exact fun hi hroot => absurd (honly hi.isDir) hroot
  case rootLive => exact live_links.mpr hlive
  case top => exact fun k => hfile hlive.isDirectory
  case rootUp => exact hup

/-- A file system with an empty root. -/
def rootTree (g : DirGeom) : NameTree where
  dir := fun ino => if ino = KR_ROOT_INO then
    (krMakeEmpty g (Dir.blank KR_ROOT_INO) ⟨KR_ROOT_INO, 0x41ED⟩ KR_ROOT_INO ⟨none, 2, none⟩).dir else Dir.blank ino
  mode := fun _ => 0x41ED
  nlink := fun _ => 2
  inUse := fun ino => ino = KR_ROOT_INO

theorem rootTree_proper (hchunk : g.chunkBits ≤ 16) (hcount : g.sInodesCount < 2 ^ 32)
    (htwo : KR_ROOT_INO ≤ g.sInodesCount) :
    ((rootTree g).dir KR_ROOT_INO).Proper g KR_ROOT_INO ∧ ((rootTree g).dir KR_ROOT_INO).map g =
      Function.update (Function.update (fun _ => none) [46] (some (KR_ROOT_INO, deTypeOf g 0x41ED)))
        [46, 46] (some (KR_ROOT_INO, deTypeOf g 0x41ED)) :=
  (@krMakeEmpty_proper g (Dir.blank KR_ROOT_INO) ⟨KR_ROOT_INO, 0x41ED⟩ ⟨none, 2, none⟩ KR_ROOT_INO
    hchunk hcount rfl (fun _ => rfl)
    ⟨by decide, htwo⟩ ⟨by decide, htwo⟩ rfl rfl).2

theorem rootTree_sound (hchunk : g.chunkBits ≤ 16) (hcount : g.sInodesCount < 2 ^ 32)
    (htwo : KR_ROOT_INO ≤ g.sInodesCount) : (rootTree g).Sound g KR_ROOT_INO := by
  obtain ⟨hproper, hmap⟩ := rootTree_proper hchunk hcount htwo
  obtain ⟨hnames, hup⟩ := Dir.names_made hmap
  have honly : ∀ {i}, (rootTree g).inUse i = true → i = KR_ROOT_INO := fun hi => of_decide_eq_true hi
  have hdir : S_ISDIR 0x41ED = true := by decide
  have hlive : (rootTree g).Live KR_ROOT_INO := ⟨rfl, hdir, Nat.succ_ne_zero 1⟩
  have hempty : ∀ k, ((rootTree g).links g).entry k = none := by
    intro k
    by_cases hk : (rootTree g).isDirectory k.1 = true
    · have hroot := honly (NameTree.isDirectory_iff.mp hk).1
      have hentry : ((rootTree g).links g).entry k = ((rootTree g).dir k.1).names g k.2 := if_pos hk
      rw [hentry, hroot, hnames]
    · exact if_neg hk
  apply NameTree.Placed.sound_flat _ hlive rfl
  · exact fun hi => honly (NameTree.isDirectory_iff.mp hi).1
  · exact (NameTree.links_up hlive.isDirectory).trans hup
  · intro k i hentry
    rw [hempty] at hentry
    cases hentry
  · intro i hi hfile
    obtain rfl := honly hi
    rw [hlive.isDirectory] at hfile
    cases hfile
  · constructor
    · intro i hi
      obtain rfl := honly hi
      exact ⟨by decide, htwo⟩
    · exact fun _ => show 2 < 2 ^ 16 by decide
    · intro i hi
      obtain rfl := honly hi.inUse
      exact hproper

end Flat

/-! ### Runs -/

section Runs

variable {g : DirGeom} {root : Nat} {t t' : NameTree} {e : NameEvent} {events : List NameEvent}

/-- The permissions of a new directory do not change what it is. -/
theorem S_ISDIR_or {mode : UInt16} (h : mode &&& S_IFMT = 0) : S_ISDIR (S_IFDIR ||| mode) = true := by
  have hmask : (S_IFDIR ||| mode) &&& S_IFMT = (S_IFDIR &&& S_IFMT) ||| (mode &&& S_IFMT) := by
    apply UInt16.eq_of_toBitVec_eq
    exact BitVec.and_or_distrib_right
  unfold S_ISDIR
  rw [hmask, h]
  rfl

theorem NameTree.Site.call_tracks {dir : Nat} {name : List UInt8} {env : NameEnv}
    (h : t.Site g root dir name) (henv : env.Steady) (op : NameOp)
    (hallowed : op.Allowed g dir name env t) (hrules : op.Rules g dir name t)
    (hgrows : op.Grows g dir name env t) :
    t.TracksBy LinkGraph.Edit g (op.call g dir name env t) := by
  cases op with
  | create mode => exact h.createNode_tracks hallowed.2 hrules hallowed.1 henv hgrows
  | mknod mode => exact h.createNode_tracks hallowed.2 hrules hallowed.1 henv hgrows
  | symlink symname => exact h.krSymlink_tracks hallowed.2 hallowed.1 henv hgrows
  | link ino => exact h.krLink_tracks hallowed.2.1 hrules.1 hrules.2 hallowed.1 henv hgrows
  | mkdir mode =>
    exact h.krMkdir_tracks hallowed.2 (S_ISDIR_or hrules.1) hrules.2 hallowed.1 henv hgrows
  | unlink ino =>
    obtain ⟨⟨type, hname⟩, hfile⟩ := hrules
    exact h.krUnlink_tracks hname hfile henv
  | rmdir ino =>
    obtain ⟨⟨type, hname⟩, hdir⟩ := hrules
    exact h.krRmdir_tracks hname hdir henv

/-- The steps that a call can come to: only a rename moves anything. -/
def NameEvent.Steps : NameEvent → LinkGraph Nat (List UInt8) → LinkGraph Nat (List UInt8) → Prop
  | rename _ newDir oldIno _ _ _ _ _ => LinkGraph.Turn oldIno newDir
  | call _ _ _ _ | tmpfile _ _ | evict _ => LinkGraph.Edit

/-- A call follows steps of its kind. -/
theorem NameEvent.Step.follows (step : e.Step g t t') (hgrows : e.Grows g t)
    (hchunk : g.chunkBits ≤ 16) (hcount : g.sInodesCount < 2 ^ 32) (h : t.Sound g root) :
    NameTree.FollowsBy e.Steps g t t' := by
  obtain ⟨hlawful, r, hrun⟩ := step
  have htracks : t.TracksBy e.Steps g (e.run g t) := by
    cases e with
    | call op dir name env =>
      obtain ⟨hat, henv, hallowed, hrules⟩ := hlawful
      exact NameTree.Site.call_tracks ⟨h, hat, hchunk, hcount⟩ henv op hallowed hrules hgrows
    | tmpfile mode env =>
      obtain ⟨henv, hfresh, hfile⟩ := hlawful
      exact h.krTmpfile_tracks hfresh hfile henv
    | rename oldDir newDir oldIno oldName newName newInode flags env =>
      obtain ⟨hrules, henv⟩ := hlawful
      exact (hrules.site h hchunk hcount).rename_tracks henv hgrows
    | evict ino => exact (h.iput_follows hlawful).tracks
  have hfollows : NameTree.FollowsBy e.Steps g t (e.run g t).2 := htracks r (by rw [hrun])
  rw [hrun] at hfollows
  exact hfollows

theorem NameEvent.Steps.step {L L' : LinkGraph Nat (List UInt8)} (h : e.Steps L L') : L.Step L' := by
  cases e with
  | call op dir name env => exact LinkGraph.Edit.step h
  | tmpfile mode env => exact LinkGraph.Edit.step h
  | rename oldDir newDir oldIno oldName newName newInode flags env => exact LinkGraph.Turn.step h
  | evict ino => exact LinkGraph.Edit.step h

/-- A call keeps the tree sound. -/
theorem NameEvent.Step.sound (step : e.Step g t t') (hgrows : e.Grows g t) (hchunk : g.chunkBits ≤ 16)
    (hcount : g.sInodesCount < 2 ^ 32) (h : t.Sound g root) : t'.Sound g root :=
  ((step.follows hgrows hchunk hcount h).follows fun _ _ => NameEvent.Steps.step).sound h

/-- In every run of calls of which none comes to grow a directory that cannot grow, each state
has the link counts that its entries say. -/
theorem nameRun_linkCounts (hchunk : g.chunkBits ≤ 16) (hcount : g.sInodesCount < 2 ^ 32)
    (h : t.Sound g root) (run : Trace (fun s e s' => e.Step g s s' ∧ e.Grows g s) t events t') :
    t'.LinkCounts g := by
  have hsound : t'.Sound g root := by
    induction run with
    | done s => exact h
    | cons first _ ih => exact ih (first.1.sound first.2 hchunk hcount h)
  exact hsound.linkCounts

end Runs

/-- A directory is made in an empty root. -/
theorem nameRun_linkCounts_mkdir :
    let e : NameEvent := .call (.mkdir 0x1ED) KR_ROOT_INO [100] (NameOp.smallEnv ⟨none, 0, none⟩)
    (e.run smallGeom (rootTree smallGeom)).1 = .done (.ok ()) ∧
      (e.run smallGeom (rootTree smallGeom)).2.LinkCounts smallGeom := by
  intro e
  have hret : (e.run smallGeom (rootTree smallGeom)).1 = .done (.ok ()) := by decide +kernel
  obtain ⟨-, hmap⟩ := @rootTree_proper smallGeom (by decide) (by decide) (by decide)
  have hfree : ((rootTree smallGeom).dir KR_ROOT_INO).map smallGeom [100] = none := by
    rw [hmap]
    rfl
  have hat : (rootTree smallGeom).At KR_ROOT_INO [100] :=
    ⟨⟨rfl, by decide, by decide⟩, by decide, by decide, by decide⟩
  have hfresh : (rootTree smallGeom).Fresh smallGeom 12 := ⟨rfl, by decide, by decide⟩
  have hlawful : e.Lawful smallGeom (rootTree smallGeom) := by
    refine ⟨hat, ⟨rfl, rfl, rfl, fun _ => rfl⟩, ⟨hfree, fun ino hnew => ?_⟩, by decide, by decide⟩
    cases hnew
    exact hfresh
  have hgrows : e.Grows smallGeom (rootTree smallGeom) :=
    fun _ _ _ _ _ => ⟨by decide, by decide +kernel⟩
  have hrun := nameRun_linkCounts (by decide) (by decide)
    (rootTree_sound (by decide) (by decide) (by decide))
    (.cons ⟨⟨hlawful, .ok (), Prod.ext hret rfl⟩, hgrows⟩ (.done _))
  exact ⟨hret, hrun⟩

/-! ### A directory that cannot grow -/

/-- The full directory of 64 KiB is the root, and all its names are for one file. -/
def fullRoot : NameTree where
  dir := fun _ => fullDir
  mode := fun ino => if ino = KR_ROOT_INO then 0x41ED else 0x81A4
  nlink := fun ino => if ino = KR_ROOT_INO then 2 else 128
  inUse := fun ino => ino = KR_ROOT_INO || ino = 11

section Full

variable {name : List UInt8} {ino de : Nat}

/-- Its records but `.` and `..`. -/
def fullFiles : List Nat := fullRecords.drop 2

/-- They are 128 in growing order, each with a name of 255 bytes for the file. -/
theorem fullFiles_fields : fullFiles.IsChain (· < ·) ∧ fullFiles.length = 128 ∧
    ∀ x ∈ fullFiles, deInode fullPage x = 11 ∧ deNameLen fullPage x = 255 := by
  decide +kernel

theorem fullFiles_slot (h : de ∈ fullFiles) :
    ¬ IsDots (deName fullPage de) ∧
      fullDir.slots wideGeom (0, de) = some (deName fullPage de, (11, deFileType fullPage de)) := by
  obtain ⟨-, -, hrecords, -⟩ := fullDir_records
  obtain ⟨-, -, hall⟩ := fullFiles_fields
  have hmem : de ∈ fullRecords := List.mem_of_mem_drop h
  obtain ⟨hinode, hlen⟩ := hall de h
  constructor
  · have hlength : (deName fullPage de).length = 255 := (length_deName _ _).trans hlen
    rintro (hdot | hdotdot)
    · rw [hdot] at hlength
      cases hlength
    · rw [hdotdot] at hlength
      cases hlength
  · have hentry : entryAt fullPage de = (deName fullPage de, (11, deFileType fullPage de)) := by
      unfold entryAt
      rw [hinode]
    refine Dir.slots_eq_some.mpr ⟨?_, ?_, hentry⟩
    · rw [hrecords]
      exact hmem
    · intro hzero
      have hlive : deInode fullPage de = 0 := hzero
      rw [hinode] at hlive
      cases hlive

theorem fullDir_names : fullDir.names wideGeom name = some ino ↔
    ino = 11 ∧ ∃ de ∈ fullFiles, deName fullPage de = name := by
  have hdots : ∀ x ∈ fullRecords, x ∈ fullFiles ∨ IsDots (deName fullPage x) := by
    have hsplit : fullRecords = 0 :: 12 :: fullFiles := rfl
    have hself : IsDots (deName fullPage 0) := by decide
    have hparent : IsDots (deName fullPage 12) := by decide
    intro x hx
    rw [hsplit, List.mem_cons, List.mem_cons] at hx
    rcases hx with rfl | rfl | hfile
    · exact Or.inr hself
    · exact Or.inr hparent
    · exact Or.inl hfile
  unfold Dir.names
  constructor
  · intro h
    split at h
    · cases h
    · rename_i hplain
      obtain ⟨v, hv, rfl⟩ := Option.map_eq_some_iff.mp h
      obtain ⟨⟨n, de⟩, hslot⟩ := fullDir_good.lookup_some.mp hv
      obtain ⟨hmem, -, hentry⟩ := Dir.slots_eq_some.mp hslot
      obtain ⟨rfl, hde⟩ := fullDir_mem hmem
      have hname : deName fullPage de = name := congrArg Prod.fst hentry
      rcases hdots de hde with hfile | hdot
      · obtain ⟨-, hfound⟩ := fullFiles_slot hfile
        rw [hslot, hname, Option.some_inj] at hfound
        exact ⟨congrArg (fun e => e.2.1) hfound, de, hfile, hname⟩
      · rw [hname] at hdot
        exact absurd hdot hplain
  · rintro ⟨rfl, de, hfile, rfl⟩
    obtain ⟨hplain, hslot⟩ := fullFiles_slot hfile
    rw [if_neg hplain, fullDir_good.lookup_some.mpr ⟨_, hslot⟩]
    rfl

theorem fullDir_dotdot : fullDir.slots wideGeom (0, 12) = some ([46, 46], (KR_ROOT_INO, 2)) := by
  obtain ⟨-, -, hrecords, -⟩ := fullDir_records
  refine Dir.slots_eq_some.mpr ⟨?_, by decide, rfl⟩
  rw [hrecords]
  decide

theorem fullDir_proper : fullDir.Proper wideGeom KR_ROOT_INO := by
  obtain ⟨-, -, hrecords, -⟩ := fullDir_records
  refine ⟨fullDir_good, ⟨2, ?_⟩, ⟨_, fullDir_dotdot⟩, ?_⟩
  · refine Dir.slots_eq_some.mpr ⟨?_, by decide, rfl⟩
    rw [hrecords]
    decide
  · rintro ⟨n, de⟩ v hslot
    obtain ⟨hmem, -, hentry⟩ := Dir.slots_eq_some.mp hslot
    obtain ⟨rfl, hde⟩ := fullDir_mem hmem
    have hpos : ∀ x ∈ fullRecords, 0 < deNameLen fullPage x := fun x hx => (fullRecords_fields x hx).1
    have hname : deName fullPage de = [] := congrArg Prod.fst hentry
    have hlt := hpos de hde
    rw [← length_deName, hname] at hlt
    cases hlt

theorem fullRoot_live : fullRoot.Live KR_ROOT_INO := ⟨rfl, by decide, by decide⟩

theorem fullRoot_only {i : Nat} (hi : fullRoot.isDirectory i = true) : i = KR_ROOT_INO := by
  by_contra hne
  have hmode : fullRoot.mode i = 0x81A4 := if_neg hne
  have hdir := (NameTree.isDirectory_iff.mp hi).2
  rw [hmode] at hdir
  exact absurd hdir (by decide)

theorem fullRoot_entry {k : Nat × List UInt8} : (fullRoot.links wideGeom).entry k = some ino ↔
    k.1 = KR_ROOT_INO ∧ ino = 11 ∧ ∃ de ∈ fullFiles, deName fullPage de = k.2 := by
  constructor
  · intro hentry
    have hdir : fullRoot.isDirectory k.1 = true := by
      by_contra hno
      have hnone : (fullRoot.links wideGeom).entry k = none := if_neg hno
      rw [hnone] at hentry
      cases hentry
    have hnames : fullDir.names wideGeom k.2 = some ino := (NameTree.links_entry hdir).symm.trans hentry
    exact ⟨fullRoot_only hdir, fullDir_names.mp hnames⟩
  · rintro ⟨hroot, hnames⟩
    have hdir : fullRoot.isDirectory k.1 = true := by
      rw [hroot]
      exact fullRoot_live.isDirectory
    exact (NameTree.links_entry hdir).trans (fullDir_names.mpr hnames)

/-- The file has 128 names. -/
theorem fullRoot_counts : Counts (fullRoot.links wideGeom).entry (fun _ j => j = 11) 128 := by
  have hkeys : keys (fullRoot.links wideGeom).entry (fun _ j => j = 11) =
      (fun de => (KR_ROOT_INO, deName fullPage de)) '' (fullFiles.toFinset : Set Nat) := by
    ext k
    constructor
    · rintro ⟨_, hentry, rfl⟩
      obtain ⟨hroot, -, de, hfile, hname⟩ := fullRoot_entry.mp hentry
      exact ⟨de, List.mem_toFinset.mpr hfile, Prod.ext hroot.symm hname⟩
    · rintro ⟨de, hfile, rfl⟩
      exact ⟨11, fullRoot_entry.mpr ⟨rfl, rfl, de, List.mem_toFinset.mp hfile, rfl⟩, rfl⟩
  have hinj : Set.InjOn (fun de => (KR_ROOT_INO, deName fullPage de)) (fullFiles.toFinset : Set Nat) := by
    intro de hde de' hde' heq
    have hname : deName fullPage de = deName fullPage de' := congrArg Prod.snd heq
    obtain ⟨-, hslot⟩ := fullFiles_slot (List.mem_toFinset.mp hde)
    obtain ⟨-, hslot'⟩ := fullFiles_slot (List.mem_toFinset.mp hde')
    rw [hname] at hslot
    exact congrArg Prod.snd (fullDir_good.distinct _ _ _ _ _ hslot hslot')
  obtain ⟨hgrow, hlength, -⟩ := fullFiles_fields
  have hnodup : fullFiles.Nodup := hgrow.pairwise.imp fun hlt => hlt.ne
  have hcard : fullFiles.toFinset.card = 128 := (List.toFinset_card_of_nodup hnodup).trans hlength
  unfold Counts
  rw [hkeys, hinj.encard_image, Set.encard_coe_eq_coe_finsetCard, hcard]

theorem fullRoot_sound : fullRoot.Sound wideGeom KR_ROOT_INO := by
  have hused : ∀ {i}, fullRoot.inUse i = true → i = KR_ROOT_INO ∨ i = 11 := by
    intro i hi
    simpa [fullRoot] using hi
  have hplaced : fullRoot.Placed wideGeom := by
    constructor
    · intro i hi
      rcases hused hi with rfl | rfl
      · decide
      · decide
    · intro i hi
      rcases hused hi with rfl | rfl
      · decide
      · decide
    · intro i hi
      obtain rfl := fullRoot_only hi.isDirectory
      exact fullDir_proper
  apply hplaced.sound_flat fullRoot_live rfl fullRoot_only
  · rw [NameTree.links_up fullRoot_live.isDirectory]
    have hmap : fullDir.map wideGeom [46, 46] = some (KR_ROOT_INO, 2) :=
      fullDir_good.lookup_some.mpr ⟨_, fullDir_dotdot⟩
    show (fullDir.map wideGeom [46, 46]).map Prod.fst = some KR_ROOT_INO
    rw [hmap]
    rfl
  · intro k i hentry
    obtain ⟨-, rfl, -⟩ := fullRoot_entry.mp hentry
    exact ⟨by decide, by decide⟩
  · intro i hi hfile
    rcases hused hi with rfl | rfl
    · rw [fullRoot_live.isDirectory] at hfile
      cases hfile
    · exact fullRoot_counts

/-- One more name is linked to the file. -/
def fullEvent : NameEvent :=
  .call (.link 11) KR_ROOT_INO (List.replicate 255 98) (NameOp.smallEnv ⟨none, 0, none⟩)

/-- The name goes into a chunk that cannot hold it. -/
theorem fullRoot_add :
    (krAddLink wideGeom fullDir (List.replicate 255 98) (fullRoot.target 11) ⟨none, 0, none⟩).ret =
        .done (.ok ()) ∧
      (krAddLink wideGeom fullDir (List.replicate 255 98) (fullRoot.target 11)
        ⟨none, 0, none⟩).dir.map wideGeom = fullDir.map wideGeom := by
  have hlen : (List.replicate 255 (98 : UInt8)).length = 255 := List.length_replicate
  have hfull := fullDir_full hlen
  have hvalid : (fullRoot.target 11).Valid wideGeom := ⟨by decide, by decide⟩
  rcases @krAddLink_cases wideGeom fullDir (List.replicate 255 98) (fullRoot.target 11) ⟨none, 0, none⟩
    (by decide) (by decide) fullDir_good (by omega) hlen.le (fullDir_absent rfl) hvalid rfl rfl with ⟨-, hroom, -⟩ | ⟨-, -, hret, -, hslots⟩ | ⟨hroom, -⟩
  · exact absurd hfull hroom
  · exact ⟨hret, congrArg Slots.lookup hslots⟩
  · exact absurd hfull (hroom rfl)

/-- The call returns 0, and the file has one link too many. -/
theorem nameRun_lost : fullRoot.Sound wideGeom KR_ROOT_INO ∧
    ∃ t, Trace (NameEvent.Step wideGeom) fullRoot [fullEvent] t ∧ ¬ t.LinkCounts wideGeom := by
  refine ⟨fullRoot_sound, ?_⟩
  obtain ⟨hret, hmap⟩ := fullRoot_add
  have hrun : fullEvent.run wideGeom fullRoot = (.done (.ok ()),
      (fullRoot.incNlink 11).setDir KR_ROOT_INO (krAddLink wideGeom fullDir (List.replicate 255 98)
        (fullRoot.target 11) ⟨none, 0, none⟩).dir) := DirCall.andThen_of_ret hret _
  refine ⟨_, .cons ⟨?_, .ok (), hrun⟩ (.done _), fun hcounts => ?_⟩
  · have hlen : (List.replicate 255 (98 : UInt8)).length = 255 := List.length_replicate
    have hat : fullRoot.At KR_ROOT_INO (List.replicate 255 98) := by
      refine ⟨fullRoot_live, by omega, hlen.le, ?_⟩
      rintro (hdot | hdotdot)
      · rw [hdot] at hlen
        cases hlen
      · rw [hdotdot] at hlen
        cases hlen
    exact ⟨hat, ⟨rfl, rfl, rfl, fun _ => rfl⟩, ⟨fullDir_absent rfl, rfl, by decide, by decide⟩,
      by decide, by decide⟩
  · generalize (krAddLink wideGeom fullDir (List.replicate 255 98) (fullRoot.target 11)
      ⟨none, 0, none⟩).dir = d at hmap hcounts
    have hfile : S_ISDIR (fullRoot.mode 11) = false := by decide
    have hbefore := fullRoot_sound.linkCounts.file (i := 11) rfl hfile
    have hafter := hcounts.file (i := 11) rfl hfile
    have hsame : {k : Nat × List UInt8 | ((fullRoot.incNlink 11).setDir KR_ROOT_INO d).Live k.1 ∧
        ∃ type, (((fullRoot.incNlink 11).setDir KR_ROOT_INO d).dir k.1).map wideGeom k.2 =
          some (11, type)} = {k | fullRoot.Live k.1 ∧
        ∃ type, (fullRoot.dir k.1).map wideGeom k.2 = some (11, type)} := by
      ext k
      have hdir : (((fullRoot.incNlink 11).setDir KR_ROOT_INO d).dir k.1).map wideGeom =
          (fullRoot.dir k.1).map wideGeom := by
        by_cases hk : k.1 = KR_ROOT_INO
        · rw [hk]
          exact hmap
        · exact congrArg (Dir.map wideGeom) (Function.update_of_ne hk _ _)
      have hlive : ((fullRoot.incNlink 11).setDir KR_ROOT_INO d).Live k.1 ↔ fullRoot.Live k.1 := by
        have hlinked : fullRoot.nlink k.1 ≠ 0 := by
          unfold fullRoot
          dsimp only
          split <;> decide
        refine ⟨fun h => ⟨h.inUse, h.isDir, hlinked⟩, fun h => ⟨h.inUse, h.isDir, ?_⟩⟩
        have hother : k.1 ≠ 11 := by
          intro heq
          have hdir := h.isDir
          rw [heq, hfile] at hdir
          cases hdir
        have hlink : (fullRoot.incNlink 11).nlink k.1 = fullRoot.nlink k.1 :=
          Function.update_of_ne hother _ _
        intro hzero
        exact hlinked (hlink.symm.trans hzero)
      exact and_congr hlive (by rw [hdir])
    rw [hsame, ← hbefore] at hafter
    have heq : (fullRoot.incNlink 11).nlink 11 = fullRoot.nlink 11 := Nat.cast_inj.mp hafter
    exact absurd heq (by decide)

end Full

end KrFs
