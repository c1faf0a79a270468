import KrFs.LinkCount
import KrFs.Statfs

/-!
# The tree of directories over runs

`kr_lookup`, `kr_get_parent` and `kr_inode_by_name`, and what every run of the calls of
`namei.c` keeps of the shape of the file system: each directory has one name, its `..` is
the directory with that name, and everything with a link is found from the root. The caller
of `kr_rename` sees to it that no directory is moved below itself.
-/

namespace KrFs

/-- `kr_inode_by_name`, with the directory as the search leaves it. -/
def krInodeByName (g : DirGeom) (d : Dir) (name : List UInt8) : Nat × Dir :=
  match krFindEntry g d name with
  | (some (n, de), d', _) => (deInode (d'.page n) de, d')
  | (none, d', _) => (0, d')

namespace NameTree

variable (g : DirGeom)

/-- `kr_iget` of a number of the tree: an inode that is gone is stale. -/
def krIget (t : NameTree) (ino : Nat) : Except Errno Nat :=
  if t.inUse ino then .ok ino else .error .estale

/-- `kr_lookup`. -/
def krLookup (t : NameTree) (dir : Nat) (name : List UInt8) : Except Errno (Option Nat) × NameTree :=
  if EXT2_NAME_LEN < name.length then (.error .enametoolong, t)
  else
    let (ino, d) := krInodeByName g (t.dir dir) name
    let t := t.setDir dir d
    if ino ≠ 0 then
      match t.krIget ino with
      | .error .estale => (.error .eio, t)
      | .error err => (.error err, t)
      | .ok inode => (.ok (some inode), t)
    else (.ok none, t)

/-- `kr_get_parent`. -/
def krGetParent (t : NameTree) (child : Nat) : Except Errno Nat × NameTree :=
  let (ino, d) := krInodeByName g (t.dir child) [46, 46]
  let t := t.setDir child d
  if ino = 0 then (.error .enoent, t) else (t.krIget ino, t)

/-- The object a path of names leads to. -/
noncomputable def resolve (t : NameTree) : Nat → List (List UInt8) → Option Nat
  | i, [] => some i
  | i, name :: path => ((t.dir i).map g name).bind fun v => resolve t v.1 path

/-- All pages of the directories that have not been removed can be reached by a search. -/
def BlocksCover (t : NameTree) : Prop := ∀ {i}, t.Live i → (t.dir i).iSize ≤ (t.dir i).iBlocks * 512

/-- The directories are one tree below `root`, and names and `..` agree on it. -/
structure OneTree (root : Nat) (t : NameTree) : Prop where
  place : ∀ {d}, t.Live d → d ≠ root → ∃! k : Nat × List UInt8,
    t.Live k.1 ∧ ¬ IsDots k.2 ∧ ∃ type, (t.dir k.1).map g k.2 = some (d, type)
  parent : t.BlocksCover → ∀ {p d name type}, t.Live p → t.Live d → ¬ IsDots name →
    (t.dir p).map g name = some (d, type) → (t.krGetParent g d).1 = .ok p
  climbs : ∀ {d}, t.Live d →
    Relation.ReflTransGen (fun a b => (t.dir a).up g = some b) d root
  reached : ∀ {i}, t.inUse i = true → t.nlink i ≠ 0 →
    ∃ path, (∀ name ∈ path, ¬ IsDots name) ∧ t.resolve g root path = some i
  fresh : ∀ {d name}, t.Live d → name.length ≤ 255 → (t.krLookup g d name).1 = .ok none ∨
    ∃ ino type, (t.dir d).map g name = some (ino, type) ∧ (t.krLookup g d name).1 = .ok (some ino)
  lookup : t.BlocksCover → ∀ {d name}, t.Live d → name.length ≤ 255 →
    (t.krLookup g d name).1 = .ok (((t.dir d).map g name).map Prod.fst)

end NameTree

/-! ## Searches -/

section Search

variable {g : DirGeom} {root : Nat} {t : NameTree} {d : Dir} {ino : Nat} {name : List UInt8}

/-- What the search finds is an entry. -/
theorem krInodeByName_cases (h : d.Proper g ino) (hname : name.length ≤ 255) :
    ((krFindEntry g d name).1 = none ∧ (krInodeByName g d name).1 = 0) ∨
      ∃ w, d.map g name = some w ∧ (krInodeByName g d name).1 = w.1 := by
  unfold krInodeByName
  rcases hfound : krFindEntry g d name with ⟨_ | ⟨n, de⟩, d', scans⟩
  · exact Or.inl ⟨rfl, rfl⟩
  · obtain ⟨hstays, w, hslot⟩ := h.found hname hfound
    have hpage : d'.page n = d.page n := by
      obtain ⟨k, hk⟩ := krFindEntry_dir g d name
      rw [hfound] at hk
      have hd : d' = { d with iDirStartLookup := k } := hk
      rw [hd]
    have hinode : deInode (d.page n) de = w.1 := by
      obtain ⟨-, -, hentry⟩ := Dir.slots_eq_some.mp hslot
      exact congrArg (fun e => e.2.1) hentry
    refine Or.inr ⟨w, h.good.lookup_some.mpr ⟨_, hslot⟩, ?_⟩
    dsimp only
    rw [hpage, hinode]

/-- The number that the search gives. -/
theorem krInodeByName_eq (h : d.Proper g ino) (hblocks : d.iSize ≤ d.iBlocks * 512)
    (hname : name.length ≤ 255) :
    (krInodeByName g d name).1 = ((d.map g name).map Prod.fst).getD 0 := by
  rcases krInodeByName_cases h hname with ⟨hnone, hzero⟩ | ⟨w, hmap, hino⟩
  · have hfree : d.map g name = none := by
      refine Slots.lookup_eq_none.mpr ?_
      rintro ⟨n, de⟩ v hslot
      obtain ⟨hlive, heq⟩ := h.good.ok.live_iff.mpr ⟨v, hslot⟩
      exact krFindEntry_none h.good.ok hname hblocks hnone n de hlive heq
    rw [hfree, hzero]
    rfl
  · rw [hmap, hino]
    rfl

theorem NameTree.Sound.named_inUse (h : t.Sound g root) {i : Nat} (hlive : t.Live i)
    {v : Nat × UInt8} (hname : (t.dir i).map g name = some v) : t.inUse v.1 = true := by
  obtain ⟨j, type⟩ := v
  by_cases hdots : IsDots name
  · exact (isDirectory_iff.mp (h.dots hlive hdots hname)).1
  · have hentry : (t.links g).entry (i, name) = some j :=
      (links_entry_iff hlive.isDirectory).mpr ⟨hdots, type, hname⟩
    exact h.counted.target hentry

/-- No lookup meets an inode that is gone. -/
theorem NameTree.Sound.krLookup_fresh (h : t.Sound g root) {i : Nat} (hlive : t.Live i)
    (hname : name.length ≤ 255) :
    ((krInodeByName g (t.dir i) name).1 = 0 ∧ (t.krLookup g i name).1 = .ok none) ∨
      ∃ ino type, (t.dir i).map g name = some (ino, type) ∧
        (t.krLookup g i name).1 = .ok (some ino) := by
  have hfound := krInodeByName_cases (h.placed.proper hlive) hname
  have hlong : ¬ EXT2_NAME_LEN < name.length := Nat.not_lt.mpr hname
  unfold krLookup
  rw [if_neg hlong]
  generalize krInodeByName g (t.dir i) name = found at hfound
  obtain ⟨ino, d⟩ := found
  dsimp only at hfound ⊢
  rcases hfound with ⟨-, hzero⟩ | ⟨w, hmap, hino⟩
  · rw [if_neg (not_not.mpr hzero)]
    exact Or.inl ⟨hzero, rfl⟩
  · have hused := h.named_inUse hlive hmap
    have hnumber : ino ≠ 0 := by
      rw [hino]
      exact (h.placed.number hused).1
    have higet : (t.setDir i d).krIget ino = .ok w.1 := by
      rw [hino]
      exact if_pos hused
    rw [if_pos hnumber, higet]
    exact Or.inr ⟨w.1, w.2, hmap, rfl⟩

/-- Where all pages can be reached, a lookup gives what the name stands for. -/
theorem NameTree.Sound.krLookup_eq (h : t.Sound g root) (hblocks : t.BlocksCover) {i : Nat}
    (hlive : t.Live i) (hname : name.length ≤ 255) :
    (t.krLookup g i name).1 = .ok (((t.dir i).map g name).map Prod.fst) := by
  rcases h.krLookup_fresh hlive hname with ⟨hzero, hnone⟩ | ⟨ino, type, hmap, hsome⟩
  · have hino := krInodeByName_eq (h.placed.proper hlive) (hblocks hlive) hname
    rw [hzero] at hino
    cases hmap : (t.dir i).map g name with
    | none => exact hnone
    | some v =>
      rw [hmap] at hino
      exact absurd hino.symm (h.placed.number (h.named_inUse hlive hmap)).1
  · rw [hmap]
    exact hsome

/-- `..` leads to the directory that has the name. -/
theorem NameTree.Sound.krGetParent_eq (h : t.Sound g root) (hblocks : t.BlocksCover) {p i : Nat}
    (hlive : t.Live i) (hup : (t.dir i).up g = some p) : (t.krGetParent g i).1 = .ok p := by
  have hfound : (krInodeByName g (t.dir i) [46, 46]).1 = p := by
    rw [krInodeByName_eq (h.placed.proper hlive) (hblocks hlive) (by decide)]
    show ((t.dir i).up g).getD 0 = p
    rw [hup]
    rfl
  obtain ⟨v, hmap, hv⟩ := Option.map_eq_some_iff.mp hup
  have hused : t.inUse p = true := by
    rw [← hv]
    exact h.named_inUse hlive hmap
  unfold krGetParent
  generalize krInodeByName g (t.dir i) [46, 46] = found at hfound
  obtain ⟨ino, d⟩ := found
  obtain rfl : ino = p := hfound
  dsimp only
  rw [if_neg (h.placed.number hused).1]
  exact if_pos hused

theorem NameTree.Sound.krGetParent_named (h : t.Sound g root) (hblocks : t.BlocksCover) {p i : Nat}
    (hp : t.Live p) (hi : t.Live i) (hplain : ¬ IsDots name) {type : UInt8}
    (hname : (t.dir p).map g name = some (i, type)) : (t.krGetParent g i).1 = .ok p := by
  have hentry : (t.links g).entry (p, name) = some i :=
    (links_entry_iff hp.isDirectory).mpr ⟨hplain, type, hname⟩
  have hup := h.counted.parent hi.isDirectory hentry
  rw [links_up hi.isDirectory] at hup
  exact h.krGetParent_eq hblocks hi hup

end Search

/-! ## Trees -/

section Shape

variable {g : DirGeom} {root : Nat} {t t' : NameTree} {e : NameEvent} {events : List NameEvent}

theorem NameTree.dotdot_of_climbs {a b : Nat} (h : (t.links g).Climbs a b) :
    Relation.ReflTransGen (fun a b => (t.dir a).up g = some b) a b := by
  refine Relation.ReflTransGen.mono ?_ a b h
  intro a b hup
  by_cases hdir : t.isDirectory a = true
  · rwa [NameTree.links_up hdir] at hup
  · have hnone : (t.links g).up a = none := if_neg hdir
    rw [hnone] at hup
    cases hup

theorem NameTree.resolve_of_links (path : List (List UInt8)) : ∀ {a b : Nat},
    (t.links g).resolve a path = some b →
      (∀ name ∈ path, ¬ IsDots name) ∧ t.resolve g a path = some b := by
  induction path with
  | nil => exact fun h => ⟨by simp, h⟩
  | cons name path ih =>
    intro a b h
    obtain ⟨j, hentry, hrest⟩ := Option.bind_eq_some_iff.mp h
    have hdir : t.isDirectory a = true := by
      by_contra hno
      have hnone : (t.links g).entry (a, name) = none := if_neg hno
      rw [hnone] at hentry
      cases hentry
    obtain ⟨hplain, type, hmap⟩ := (NameTree.links_entry_iff hdir).mp hentry
    obtain ⟨hpath, hresolve⟩ := ih hrest
    constructor
    · intro n hn
      rcases List.mem_cons.mp hn with rfl | hn
      · exact hplain
      · exact hpath n hn
    · simp only [NameTree.resolve, hmap, Option.bind_some]
      exact hresolve

/-- What has a link has a name. -/
theorem NameTree.Sound.named (h : t.Sound g root) {i : Nat} (hi : t.inUse i = true)
    (hfile : t.isDirectory i = false) (hlinks : t.nlink i ≠ 0) :
    ∃ k, (t.links g).entry k = some i := by
  have hcount := h.counted.file hi hfile
  rw [NameTree.links_nlink hi] at hcount
  by_contra hnone
  rw [not_exists] at hnone
  have hzero : KeyCount.Counts (t.links g).entry (fun _ j => j = i) 0 := by
    apply KeyCount.Counts.zero
    rintro k j hk rfl
    exact hnone k hk
  exact hlinks (hcount.unique hzero)

theorem NameTree.Sound.oneTree (h : t.Sound g root) (hrooted : (t.links g).Rooted root) :
    t.OneTree g root := by
  constructor
  · intro d hd hroot
    obtain ⟨k, hk⟩ := h.counted.linked (live_links.mpr hd) hroot
    have hlive := live_links.mp (h.counted.place hk)
    refine ⟨k, ⟨hlive, (links_entry_iff hlive.isDirectory).mp hk⟩, ?_⟩
    rintro k' ⟨hlive', hname⟩
    have hk' : (t.links g).entry k' = some d := (links_entry_iff hlive'.isDirectory).mpr hname
    exact h.counted.once hd.isDirectory hk' hk
  · exact fun hblocks p d name type hp hd hplain hname =>
      h.krGetParent_named hblocks hp hd hplain hname
  · exact fun hd => dotdot_of_climbs (hrooted _ (live_links.mpr hd))
  · intro i hi hlinks
    have hpath : ∃ path, (t.links g).resolve root path = some i := by
      cases hdir : t.isDirectory i with
      | true =>
        exact h.counted.resolves hrooted (live_links.mpr ⟨hi, (isDirectory_iff.mp hdir).2, hlinks⟩)
      | false =>
        obtain ⟨k, hk⟩ := h.named hi hdir hlinks
        exact h.counted.resolves_named hrooted hk
    obtain ⟨path, hpath⟩ := hpath
    exact ⟨path, resolve_of_links path hpath⟩
  · exact fun hd hname => (h.krLookup_fresh hd hname).imp_left And.right
  · exact fun hblocks d name hd hname => h.krLookup_eq hblocks hd hname

/-! ### Runs -/

/-- The caller of `kr_rename` has found the new parent neither to be the object itself nor to be
below it. -/
def NameEvent.Outside (g : DirGeom) (t : NameTree) : NameEvent → Prop
  | rename _ newDir oldIno _ _ _ _ _ =>
    ¬ Relation.ReflTransGen (fun a b => (t.dir a).up g = some b) newDir oldIno
  | call _ _ _ _ | tmpfile _ _ | evict _ => True

/-- A call keeps the directories one tree. -/
theorem NameEvent.Step.rooted (step : e.Step g t t') (hgrows : e.Grows g t) (houtside : e.Outside g t)
    (hchunk : g.chunkBits ≤ 16) (hcount : g.sInodesCount < 2 ^ 32) (h : t.Sound g root)
    (hrooted : (t.links g).Rooted root) : (t'.links g).Rooted root := by
  have hfollows := step.follows hgrows hchunk hcount h
  cases e with
  | call op dir name env => exact (hrooted.edits h.counted hfollows.steps).2
  | tmpfile mode env => exact (hrooted.edits h.counted hfollows.steps).2
  | evict ino => exact (hrooted.edits h.counted hfollows.steps).2
  | rename oldDir newDir oldIno oldName newName newInode flags env =>
    have hapart : (t.links g).Apart root oldIno newDir :=
      ⟨h.counted, hrooted, fun hclimbs => houtside (NameTree.dotdot_of_climbs hclimbs)⟩
    exact (hapart.turns hfollows.steps).rooted

/-- In every run of calls of which none comes to grow a directory that cannot grow and no rename
is into the object itself, each state is one tree. -/
theorem nameRun_oneTree (hchunk : g.chunkBits ≤ 16) (hcount : g.sInodesCount < 2 ^ 32)
    (h : t.Sound g root) (hrooted : (t.links g).Rooted root)
    (run : Trace (fun s e s' => e.Step g s s' ∧ e.Grows g s ∧ e.Outside g s) t events t') :
    t'.OneTree g root := by
  have hrun : t'.Sound g root ∧ (t'.links g).Rooted root := by
    induction run with
    | done s => exact ⟨h, hrooted⟩
    | cons first _ ih =>
      obtain ⟨step, hgrows, houtside⟩ := first
      exact ih (step.sound hgrows hchunk hcount h)
        (step.rooted hgrows houtside hchunk hcount h hrooted)
  exact hrun.1.oneTree hrun.2

end Shape

/-- A directory can be made in an empty root. -/
theorem rootTree_mkdir :
    let e : NameEvent := .call (.mkdir 0x1ED) KR_ROOT_INO [97] (NameOp.smallEnv ⟨none, 0, none⟩)
    (e.run smallGeom (rootTree smallGeom)).1 = .done (.ok ()) ∧
      e.Step smallGeom (rootTree smallGeom) (e.run smallGeom (rootTree smallGeom)).2 ∧
      e.Grows smallGeom (rootTree smallGeom) := by
  intro e
  have hret : (e.run smallGeom (rootTree smallGeom)).1 = .done (.ok ()) := by decide +kernel
  obtain ⟨-, hmap⟩ := @rootTree_proper smallGeom (by decide) (by decide) (by decide)
  have hfree : ((rootTree smallGeom).dir KR_ROOT_INO).map smallGeom [97] = none := by
    rw [hmap]
    rfl
  have hlive : (rootTree smallGeom).Live KR_ROOT_INO := ⟨rfl, by decide, by decide⟩
  have hlawful : e.Lawful smallGeom (rootTree smallGeom) := by
    refine ⟨⟨hlive, by decide, by decide, by decide⟩, ⟨rfl, rfl, rfl, fun _ => rfl⟩,
      ⟨hfree, fun ino hnew => ?_⟩, by decide, by decide⟩
    cases hnew
    exact ⟨rfl, by decide, by decide⟩
  exact ⟨hret, ⟨hlawful, .ok (), Prod.ext hret rfl⟩,
    fun _ _ _ _ _ => ⟨by decide, by decide +kernel⟩⟩

/-- A new directory leads back to the root that it is made in. -/
theorem nameRun_oneTree_mkdir :
    let e : NameEvent := .call (.mkdir 0x1ED) KR_ROOT_INO [97] (NameOp.smallEnv ⟨none, 0, none⟩)
    (e.run smallGeom (rootTree smallGeom)).1 = .done (.ok ()) ∧
      (e.run smallGeom (rootTree smallGeom)).2.OneTree smallGeom KR_ROOT_INO := by
  intro e
  obtain ⟨hret, hstep, hgrows⟩ := rootTree_mkdir
  have hrooted : ((rootTree smallGeom).links smallGeom).Rooted KR_ROOT_INO := by
    intro d hd
    have hroot : d = KR_ROOT_INO := of_decide_eq_true hd.used
    rw [hroot]
    exact .refl
  exact ⟨hret, nameRun_oneTree (by decide) (by decide)
    (rootTree_sound (by decide) (by decide) (by decide)) hrooted
    (.cons ⟨hstep, hgrows, trivial⟩ (.done _))⟩

end KrFs
