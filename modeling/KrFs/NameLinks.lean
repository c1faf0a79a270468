import KrFs.DirEntries
import KrFs.Namei
import KrFs.Lib.LinkTree

/-!
# Names and links

The directories, modes and link counts of a file system, seen as the graph of its names. A
change of one directory, of one link count or of one inode is a change of one part of the
graph.
-/

namespace KrFs

open KeyCount

/-- `.` and `..`. -/
def IsDots (name : List UInt8) : Prop := name = [46] ∨ name = [46, 46]

instance (name : List UInt8) : Decidable (IsDots name) := inferInstanceAs (Decidable (_ ∨ _))

/-- The inode that an entry names, `.` and `..` aside. -/
noncomputable def Dir.names (g : DirGeom) (d : Dir) (name : List UInt8) : Option Nat :=
  if IsDots name then none else (d.map g name).map Prod.fst

/-- The inode that `..` names. -/
noncomputable def Dir.up (g : DirGeom) (d : Dir) : Option Nat := (d.map g [46, 46]).map Prod.fst

section Dirs

variable {g : DirGeom} {ino : Nat} {d d' : Dir} {name : List UInt8} {v : Nat × UInt8}

theorem Dir.names_of_map (h : d'.map g = d.map g) : d'.names g = d.names g := by
  unfold Dir.names
  rw [h]

theorem Dir.up_of_map (h : d'.map g = d.map g) : d'.up g = d.up g := by
  unfold Dir.up
  rw [h]

/-- A change at one name. -/
theorem Dir.names_update (hname : ¬ IsDots name) {v : Option (Nat × UInt8)}
    (h : d'.map g = Function.update (d.map g) name v) :
    d'.names g = Function.update (d.names g) name (v.map Prod.fst) ∧ d'.up g = d.up g := by
  constructor
  · funext name'
    unfold Dir.names
    rw [h]
    by_cases hn : name' = name
    · subst hn
      rw [if_neg hname, Function.update_self, Function.update_self]
    · rw [Function.update_of_ne hn, Function.update_of_ne hn]
  · have hne : [46, 46] ≠ name := fun heq => hname (Or.inr heq.symm)
    unfold Dir.up
    rw [h, Function.update_of_ne hne]

/-- A change of `..`. -/
theorem Dir.up_update (h : d'.map g = Function.update (d.map g) [46, 46] (some v)) :
    d'.names g = d.names g ∧ d'.up g = some v.1 := by
  constructor
  · funext name'
    unfold Dir.names
    split
    · rfl
    · rename_i hname
      rw [h, Function.update_of_ne fun heq => hname (Or.inr heq)]
  · unfold Dir.up
    rw [h, Function.update_self]
    rfl

theorem Dir.names_empty (hsize : d.iSize = 0) : d.names g = fun _ => none := by
  funext name
  unfold Dir.names
  rw [Dir.map_empty hsize]
  simp

theorem Dir.up_empty (hsize : d.iSize = 0) : d.up g = none := by
  unfold Dir.up
  rw [Dir.map_empty hsize]
  rfl

/-- The entries that `kr_make_empty` writes. -/
theorem Dir.names_made {v w : Nat × UInt8} (h : d.map g =
    Function.update (Function.update (fun _ => none) [46] (some v)) [46, 46] (some w)) :
    d.names g = (fun _ => none) ∧ d.up g = some w.1 := by
  constructor
  · funext name
    unfold Dir.names
    split
    · rfl
    · rename_i hname
      rw [h, Function.update_of_ne fun heq => hname (Or.inr heq),
        Function.update_of_ne fun heq => hname (Or.inl heq)]
      rfl
  · unfold Dir.up
    rw [h, Function.update_self]
    rfl

theorem Dir.Proper.self (h : d.Proper g ino) : ∃ type, d.map g [46] = some (ino, type) := by
  obtain ⟨type, hslot⟩ := h.dot
  exact ⟨type, h.good.lookup_some.mpr ⟨_, hslot⟩⟩

end Dirs

namespace NameTree

section View

variable (g : DirGeom) (t : NameTree)

def isDirectory (i : Nat) : Bool := t.inUse i && S_ISDIR (t.mode i)

/-- The graph of the names. -/
noncomputable def links : LinkGraph Nat (List UInt8) where
  used := t.inUse
  isDir := t.isDirectory
  nlink i := if t.inUse i then t.nlink i else 0
  entry k := if t.isDirectory k.1 then (t.dir k.1).names g k.2 else none
  up i := if t.isDirectory i then (t.dir i).up g else none

/-- A directory in use that has not been removed. -/
structure Live (i : Nat) : Prop where
  inUse : t.inUse i = true
  isDir : S_ISDIR (t.mode i) = true
  linked : t.nlink i ≠ 0

/-- Numbers and link counts are in their ranges, and the directories of the tree are in
order. -/
structure Placed : Prop where
  number : ∀ {i}, t.inUse i = true → i ≠ 0 ∧ i ≤ g.sInodesCount
  bound : ∀ {i}, t.inUse i = true → t.nlink i < 2 ^ 16
  proper : ∀ {i}, t.Live i → (t.dir i).Proper g i

end View

section Changes

variable {g : DirGeom} {t t' : NameTree} {i ino : Nat} {d : Dir} {name : List UInt8}
  {mode : UInt16}

theorem setDir_setDir (d' : Dir) : (t.setDir i d).setDir i d' = t.setDir i d' := by
  simp [setDir, DirTree.setDir]

theorem isDirectory_iff : t.isDirectory i = true ↔ t.inUse i = true ∧ S_ISDIR (t.mode i) = true :=
  Bool.and_eq_true_iff

theorem Live.isDirectory (h : t.Live i) : t.isDirectory i = true :=
  isDirectory_iff.mpr ⟨h.inUse, h.isDir⟩

theorem links_nlink (h : t.inUse i = true) : (t.links g).nlink i = t.nlink i := if_pos h

theorem links_entry (h : t.isDirectory i = true) :
    (t.links g).entry (i, name) = (t.dir i).names g name := if_pos h

theorem links_up (h : t.isDirectory i = true) : (t.links g).up i = (t.dir i).up g := if_pos h

theorem live_links : (t.links g).Live i ↔ t.Live i := by
  constructor
  · rintro ⟨hused, hdir, hlink⟩
    rw [links_nlink hused] at hlink
    exact ⟨hused, (isDirectory_iff.mp hdir).2, hlink⟩
  · intro h
    refine ⟨h.inUse, h.isDirectory, ?_⟩
    rw [links_nlink h.inUse]
    exact h.linked

theorem links_setDir_entry {v : Option Nat} (hdir : t.isDirectory i = true)
    (hnames : d.names g = Function.update ((t.dir i).names g) name v)
    (hup : d.up g = (t.dir i).up g) :
    (t.setDir i d).links g =
      { t.links g with entry := Function.update (t.links g).entry (i, name) v } := by
  have hsame : (t.setDir i d).isDirectory = t.isDirectory := rfl
  refine LinkGraph.ext rfl rfl rfl ?_ ?_
  · funext k
    obtain ⟨j, n⟩ := k
    simp only [links, hsame, setDir_dir]
    by_cases hj : j = i
    · subst hj
      rw [if_pos hdir, Function.update_self, hnames]
      by_cases hn : n = name
      · subst hn
        rw [Function.update_self, Function.update_self]
      · rw [Function.update_of_ne hn, Function.update_of_ne fun h => hn (congrArg Prod.snd h),
          if_pos hdir]
    · rw [Function.update_of_ne hj, Function.update_of_ne fun h => hj (congrArg Prod.fst h)]
  · funext j
    simp only [links, hsame, setDir_dir]
    by_cases hj : j = i
    · subst hj
      rw [Function.update_self, hup]
    · rw [Function.update_of_ne hj]

theorem links_setDir_up (hdir : t.isDirectory i = true)
    (hnames : d.names g = (t.dir i).names g) :
    (t.setDir i d).links g =
      { t.links g with up := Function.update (t.links g).up i (d.up g) } := by
  have hsame : (t.setDir i d).isDirectory = t.isDirectory := rfl
  refine LinkGraph.ext rfl rfl rfl ?_ ?_
  · funext k
    obtain ⟨j, n⟩ := k
    simp only [links, hsame, setDir_dir]
    by_cases hj : j = i
    · subst hj
      rw [Function.update_self, hnames]
    · rw [Function.update_of_ne hj]
  · funext j
    simp only [links, hsame, setDir_dir]
    by_cases hj : j = i
    · subst hj
      rw [Function.update_self, Function.update_self, if_pos hdir]
    · rw [Function.update_of_ne hj, Function.update_of_ne hj]

theorem links_recount (hinUse : t'.inUse = t.inUse) (hmode : t'.mode = t.mode)
    (hdir : t'.dir = t.dir) :
    t'.links g =
      { t.links g with nlink := fun j => if t.inUse j then t'.nlink j else 0 } := by
  have hsame : t'.isDirectory = t.isDirectory := by
    funext j
    unfold isDirectory
    rw [hinUse, hmode]
  unfold links
  rw [hsame, hinUse, hdir]

theorem links_incNlink (hi : t.inUse i = true) (hbound : t.nlink i + 1 < 2 ^ 32) :
    (t.incNlink i).links g = { t.links g with
      nlink := Function.update (t.links g).nlink i ((t.links g).nlink i + 1) } := by
  refine LinkGraph.ext rfl rfl ?_ rfl rfl
  funext j
  simp only [links, incNlink_inUse, incNlink_nlink, Nat.mod_eq_of_lt hbound]
  by_cases hj : j = i
  · subst hj
    simp [hi]
  · simp [hj]

theorem links_dropNlink (hi : t.inUse i = true) (hpos : 0 < t.nlink i)
    (hbound : t.nlink i < 2 ^ 32) :
    (t.dropNlink i).links g = { t.links g with
      nlink := Function.update (t.links g).nlink i ((t.links g).nlink i - 1) } := by
  refine LinkGraph.ext rfl rfl ?_ rfl rfl
  funext j
  simp only [links, dropNlink_inUse, dropNlink_nlink, sub32_of_le hpos hbound]
  by_cases hj : j = i
  · subst hj
    simp [hi]
  · simp [hj]

/-- A new inode has one link and no entries. -/
theorem links_newInode (hi : t.inUse i = false) :
    (t.newInode i mode).links g = { t.links g with
      used := Function.update (t.links g).used i true
      isDir := Function.update (t.links g).isDir i (S_ISDIR mode)
      nlink := Function.update (t.links g).nlink i 1 } := by
  have hno : t.isDirectory i = false := by
    unfold isDirectory
    rw [hi, Bool.false_and]
  have hdirs : (t.newInode i mode).isDirectory =
      Function.update t.isDirectory i (S_ISDIR mode) := by
    funext j
    unfold isDirectory
    by_cases hj : j = i
    · subst hj
      simp
    · simp [hj]
  refine LinkGraph.ext rfl hdirs ?_ ?_ ?_
  · funext j
    simp only [links, newInode_inUse, newInode_nlink]
    by_cases hj : j = i
    · subst hj
      simp
    · simp [hj]
  · funext k
    obtain ⟨j, n⟩ := k
    simp only [links, hdirs, newInode_dir]
    by_cases hj : j = i
    · subst hj
      rw [Function.update_self, Function.update_self, Dir.names_empty rfl, ite_self, if_neg]
      rw [hno]
      exact Bool.false_ne_true
    · rw [Function.update_of_ne hj, Function.update_of_ne hj]
  · funext j
    simp only [links, hdirs, newInode_dir]
    by_cases hj : j = i
    · subst hj
      rw [Function.update_self, Function.update_self, Dir.up_empty rfl, ite_self, if_neg]
      rw [hno]
      exact Bool.false_ne_true
    · rw [Function.update_of_ne hj, Function.update_of_ne hj]

/-- A new file has a link for the entry that it will get. -/
theorem links_newFile (hi : t.inUse i = false) (hfile : S_ISDIR mode = false) :
    (t.newInode i mode).links g =
      { (t.links g).addFile i with nlink := Function.update (t.links g).nlink i 1 } := by
  have hup : (t.links g).up i = none := by
    simp [links, isDirectory, hi]
  rw [links_newInode hi, hfile]
  refine LinkGraph.ext rfl rfl rfl rfl ?_
  rw [LinkGraph.addFile, ← hup, Function.update_eq_self]

/-- A new directory has its two links and names its parent. -/
theorem links_newDir (hi : t.inUse i = false) (hdir : S_ISDIR mode = true)
    (hempty : d.names g = fun _ => none) :
    (((t.newInode i mode).incNlink i).setDir i d).links g = { t.links g with
      used := Function.update (t.links g).used i true
      isDir := Function.update (t.links g).isDir i true
      nlink := Function.update (t.links g).nlink i 2
      up := Function.update (t.links g).up i (d.up g) } := by
  have hused : (t.newInode i mode).inUse i = true := Function.update_self _ _ _
  have hone : (t.newInode i mode).nlink i = 1 := Function.update_self _ _ _
  have hisDir : ((t.newInode i mode).incNlink i).isDirectory i = true := by
    rw [isDirectory_iff]
    constructor
    · exact hused
    · simpa using hdir
  have hnames : d.names g = (((t.newInode i mode).incNlink i).dir i).names g := by
    rw [hempty, incNlink_dir, newInode_dir, Function.update_self, Dir.names_empty rfl]
  rw [links_setDir_up hisDir hnames, links_incNlink hused (by omega), links_newInode hi, hdir]
  simp

/-- The last reference to an inode without links goes. -/
theorem links_iput (hlinks : t.nlink i = 0) (hempty : ∀ n, (t.links g).entry (i, n) = none) :
    (t.iput i).links g = (t.links g).evict i := by
  have hdirs : (t.iput i).isDirectory = Function.update t.isDirectory i false := by
    funext j
    unfold isDirectory
    rw [iput_of_unlinked hlinks]
    by_cases hj : j = i
    · subst hj
      simp
    · simp [hj]
  refine LinkGraph.ext ?_ hdirs ?_ ?_ ?_
  · simp only [links, iput_of_unlinked hlinks, LinkGraph.evict]
  · funext j
    simp only [links, iput_of_unlinked hlinks, LinkGraph.evict]
    by_cases hj : j = i
    · subst hj
      simp [hlinks]
    · simp [hj]
  · funext k
    obtain ⟨j, n⟩ := k
    have hold := hempty n
    simp only [links, hdirs, iput_dir, LinkGraph.evict] at hold ⊢
    by_cases hj : j = i
    · subst hj
      rw [Function.update_self, hold]
      rfl
    · rw [Function.update_of_ne hj]
  · funext j
    simp only [links, hdirs, iput_dir, LinkGraph.evict]
    by_cases hj : j = i
    · subst hj
      rw [Function.update_self, Function.update_self]
      rfl
    · rw [Function.update_of_ne hj, Function.update_of_ne hj]

end Changes

/-- Nothing has happened to the graph. -/
structure Same (g : DirGeom) (t t' : NameTree) : Prop where
  inUse : t'.inUse = t.inUse
  mode : ∀ {i}, t.inUse i = true → t'.mode i = t.mode i
  nlink : ∀ {i}, t.inUse i = true → t'.nlink i = t.nlink i
  dirs : ∀ {i}, t.inUse i = true → t'.dir i = t.dir i ∨ (t.dir i).Stays g i (t'.dir i)

/-- What has happened is a run of steps of the graph. -/
structure Follows (g : DirGeom) (t t' : NameTree) : Prop where
  placed : t'.Placed g
  steps : Relation.ReflTransGen LinkGraph.Step (t.links g) (t'.links g)

/-- The same with steps of a certain kind. -/
structure FollowsBy (R : LinkGraph Nat (List UInt8) → LinkGraph Nat (List UInt8) → Prop)
    (g : DirGeom) (t t' : NameTree) : Prop where
  placed : t'.Placed g
  steps : Relation.ReflTransGen R (t.links g) (t'.links g)

section Same

variable {g : DirGeom} {t t' s : NameTree} {i ino dir : Nat} {d : Dir}
  {R : LinkGraph Nat (List UInt8) → LinkGraph Nat (List UInt8) → Prop}

theorem FollowsBy.follows (h : FollowsBy R g t t') (hR : ∀ L L', R L L' → L.Step L') :
    Follows g t t' := ⟨h.placed, Relation.ReflTransGen.mono hR _ _ h.steps⟩

/-- The directories that a change does not leave as they are are in order. -/
theorem Placed.change (h : t.Placed g)
    (hnumber : ∀ {i}, t'.inUse i = true → t.inUse i = true ∨ i ≠ 0 ∧ i ≤ g.sInodesCount)
    (hbound : ∀ {i}, t'.inUse i = true → t'.nlink i < 2 ^ 16)
    (hdirs : ∀ {i}, t'.Live i → (t.Live i ∧ t'.dir i = t.dir i) ∨ (t'.dir i).Proper g i) :
    t'.Placed g where
  number := fun hi => (hnumber hi).elim h.number id
  bound := hbound
  proper := by
    intro i hi
    rcases hdirs hi with ⟨hlive, heq⟩ | hproper
    · rw [heq]
      exact h.proper hlive
    · exact hproper

/-- New link counts. -/
theorem Placed.recount (h : t.Placed g) (hinUse : t'.inUse = t.inUse) (hmode : t'.mode = t.mode)
    (hdir : t'.dir = t.dir) (hbound : ∀ {i}, t.inUse i = true → t'.nlink i < 2 ^ 16)
    (hlinked : ∀ {i}, t'.Live i → t.nlink i ≠ 0) : t'.Placed g := by
  have hin : ∀ {i}, t'.inUse i = true → t.inUse i = true := by
    intro i hi
    rw [hinUse] at hi
    exact hi
  apply h.change
  · exact fun hi => Or.inl (hin hi)
  · exact fun hi => hbound (hin hi)
  · intro i hi
    have hisDir := hi.isDir
    rw [hmode] at hisDir
    exact Or.inl ⟨⟨hin hi.inUse, hisDir, hlinked hi⟩, congrFun hdir i⟩

theorem Placed.setDir (h : t.Placed g) (hproper : d.Proper g i) : (t.setDir i d).Placed g := by
  apply h.change
  · exact Or.inl
  · exact h.bound
  · intro j hj
    by_cases hji : j = i
    · subst hji
      right
      simpa using hproper
    · left
      exact ⟨⟨hj.inUse, hj.isDir, hj.linked⟩, Function.update_of_ne hji _ _⟩

/-- What is in a directory that has been removed does not matter. -/
theorem Placed.setDir_dead (h : t.Placed g) (hlinks : t.nlink i = 0) : (t.setDir i d).Placed g := by
  apply h.change
  · exact Or.inl
  · exact h.bound
  · intro j hj
    have hji : j ≠ i := by
      rintro rfl
      exact hj.linked hlinks
    left
    exact ⟨⟨hj.inUse, hj.isDir, hj.linked⟩, Function.update_of_ne hji _ _⟩

theorem Placed.incNlink (h : t.Placed g) (hbound : t.nlink i + 1 < 2 ^ 16)
    (hlive : S_ISDIR (t.mode i) = true → t.nlink i ≠ 0) : (t.incNlink i).Placed g := by
  apply h.recount (incNlink_inUse t i) (incNlink_mode t i) (incNlink_dir t i)
  · intro j hj
    by_cases hji : j = i
    · subst hji
      rw [incNlink_nlink, Function.update_self]
      omega
    · rw [incNlink_nlink, Function.update_of_ne hji]
      exact h.bound hj
  · intro j hj
    by_cases hji : j = i
    · subst hji
      exact hlive hj.isDir
    · have hlinked := hj.linked
      rw [incNlink_nlink, Function.update_of_ne hji] at hlinked
      exact hlinked

theorem Placed.dropNlink (h : t.Placed g) (hi : t.inUse i = true) (hpos : 0 < t.nlink i) :
    (t.dropNlink i).Placed g := by
  have hbound := h.bound hi
  apply h.recount (dropNlink_inUse t i) (dropNlink_mode t i) (dropNlink_dir t i)
  · intro j hj
    by_cases hji : j = i
    · subst hji
      rw [dropNlink_nlink, Function.update_self, sub32_of_le hpos (by omega)]
      omega
    · rw [dropNlink_nlink, Function.update_of_ne hji]
      exact h.bound hj
  · intro j hj
    by_cases hji : j = i
    · subst hji
      exact hpos.ne'
    · have hlinked := hj.linked
      rw [dropNlink_nlink, Function.update_of_ne hji] at hlinked
      exact hlinked

theorem Placed.newInode (h : t.Placed g) (hnumber : ino ≠ 0 ∧ ino ≤ g.sInodesCount)
    (hfile : S_ISDIR mode = false) : (t.newInode ino mode).Placed g := by
  apply h.change
  · intro i hi
    by_cases hne : i = ino
    · exact Or.inr (hne ▸ hnumber)
    · rw [newInode_inUse, Function.update_of_ne hne] at hi
      exact Or.inl hi
  · intro i hi
    by_cases hne : i = ino
    · subst hne
      simp
    · rw [newInode_inUse, Function.update_of_ne hne] at hi
      rw [newInode_nlink, Function.update_of_ne hne]
      exact h.bound hi
  · intro i hi
    have hne : i ≠ ino := by
      rintro rfl
      have hisDir := hi.isDir
      rw [newInode_mode, Function.update_self, hfile] at hisDir
      cases hisDir
    left
    refine ⟨⟨?_, ?_, ?_⟩, Function.update_of_ne hne _ _⟩
    · simpa [hne] using hi.inUse
    · simpa [hne] using hi.isDir
    · simpa [hne] using hi.linked

theorem Placed.newDir (h : t.Placed g) (hnumber : ino ≠ 0 ∧ ino ≤ g.sInodesCount)
    (hproper : d.Proper g ino) : (((t.newInode ino mode).incNlink ino).setDir ino d).Placed g := by
  apply h.change
  · intro i hi
    by_cases hne : i = ino
    · exact Or.inr (hne ▸ hnumber)
    · left
      simpa [hne] using hi
  · intro i hi
    by_cases hne : i = ino
    · subst hne
      simp
    · have hold : t.inUse i = true := by simpa [hne] using hi
      simpa [hne] using h.bound hold
  · intro i hi
    by_cases hne : i = ino
    · subst hne
      right
      simpa using hproper
    · left
      refine ⟨⟨?_, ?_, ?_⟩, ?_⟩
      · simpa [hne] using hi.inUse
      · simpa [hne] using hi.isDir
      · simpa [hne] using hi.linked
      · simp [hne]

theorem Placed.iput (h : t.Placed g) (hlinks : t.nlink i = 0) : (t.iput i).Placed g := by
  rw [iput_of_unlinked hlinks]
  have hin : ∀ {j}, Function.update t.inUse i false j = true → t.inUse j = true := by
    intro j hj
    by_cases hji : j = i
    · subst hji
      simp at hj
    · simpa [hji] using hj
  apply h.change
  · exact fun hj => Or.inl (hin hj)
  · exact fun hj => h.bound (hin hj)
  · exact fun hj => Or.inl ⟨⟨hin hj.inUse, hj.isDir, hj.linked⟩, rfl⟩

theorem Same.isDirectory (h : Same g t t') : t'.isDirectory = t.isDirectory := by
  funext i
  unfold NameTree.isDirectory
  rw [h.inUse]
  cases hi : t.inUse i with
  | true => rw [h.mode hi]
  | false => rfl

theorem Same.map (h : Same g t t') (hi : t.inUse i = true) :
    (t'.dir i).map g = (t.dir i).map g := by
  rcases h.dirs hi with heq | hstays
  · rw [heq]
  · exact hstays.map

theorem Same.links (h : Same g t t') : t'.links g = t.links g := by
  refine LinkGraph.ext h.inUse h.isDirectory ?_ ?_ ?_
  · funext i
    simp only [NameTree.links, h.inUse]
    split
    · rename_i hi
      exact h.nlink hi
    · rfl
  · funext k
    obtain ⟨i, n⟩ := k
    simp only [NameTree.links, h.isDirectory]
    split
    · rename_i hi
      rw [Dir.names_of_map (h.map (isDirectory_iff.mp hi).1)]
    · rfl
  · funext i
    simp only [NameTree.links, h.isDirectory]
    split
    · rename_i hi
      exact Dir.up_of_map (h.map (isDirectory_iff.mp hi).1)
    · rfl

theorem Same.placed (h : Same g t t') (hplaced : t.Placed g) : t'.Placed g := by
  have hlinked : ∀ {i}, t'.inUse i = true → t.inUse i = true := by
    intro i hi
    rw [h.inUse] at hi
    exact hi
  apply hplaced.change
  · exact fun hi => Or.inl (hlinked hi)
  · intro i hi
    rw [h.nlink (hlinked hi)]
    exact hplaced.bound (hlinked hi)
  · intro i hi
    have hin := hlinked hi.inUse
    have hdir := hi.isDir
    have hlink := hi.linked
    rw [h.mode hin] at hdir
    rw [h.nlink hin] at hlink
    rcases h.dirs hin with heq | hstays
    · exact Or.inl ⟨⟨hin, hdir, hlink⟩, heq⟩
    · exact Or.inr hstays.proper

theorem Same.follows (h : Same g t t') (hplaced : t.Placed g) : FollowsBy R g t t' where
  placed := h.placed hplaced
  steps := by
    rw [h.links]

theorem Same.refl (t : NameTree) : Same g t t := ⟨rfl, fun _ => rfl, fun _ => rfl, fun _ => .inl rfl⟩

theorem Same.setDir (hstays : (t.dir i).Stays g i d) : Same g t (t.setDir i d) := by
  refine ⟨rfl, fun _ => rfl, fun _ => rfl, ?_⟩
  intro j hj
  by_cases hji : j = i
  · subst hji
    right
    simpa using hstays
  · left
    simp [hji]

/-- A new inode that is given back. -/
theorem Same.released (hfresh : t.inUse ino = false) (hunlinked : s.nlink ino = 0)
    (hinUse : s.inUse = Function.update t.inUse ino true)
    (hmode : ∀ i, i ≠ ino → s.mode i = t.mode i) (hnlink : ∀ i, i ≠ ino → s.nlink i = t.nlink i)
    (hdirs : ∀ i, i ≠ ino → s.dir i = t.dir i ∨ (t.dir i).Stays g i (s.dir i)) :
    Same g t (s.iput ino) := by
  have hne : ∀ {i}, t.inUse i = true → i ≠ ino := by
    rintro i hi rfl
    rw [hfresh] at hi
    cases hi
  rw [iput_of_unlinked hunlinked]
  refine ⟨?_, fun hi => hmode _ (hne hi), fun hi => hnlink _ (hne hi), fun hi => hdirs _ (hne hi)⟩
  funext i
  by_cases hi : i = ino
  · subst hi
    simp [hfresh]
  · simp [hinUse, hi]

/-- A link that is taken back. -/
theorem Same.dropNlink (h : Same g (t.incNlink ino) t') (hbound : t.nlink ino < 2 ^ 32) :
    Same g t (t'.dropNlink ino) := by
  refine ⟨h.inUse, h.mode, fun {i} hi => ?_, h.dirs⟩
  have hlink := h.nlink hi
  by_cases heq : i = ino
  · subst heq
    rw [incNlink_nlink, Function.update_self] at hlink
    rw [dropNlink_nlink, Function.update_self, hlink]
    unfold sub32
    omega
  · rw [incNlink_nlink, Function.update_of_ne heq] at hlink
    rw [dropNlink_nlink, Function.update_of_ne heq, hlink]

end Same

end NameTree

end KrFs
