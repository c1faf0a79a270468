import KrFs.Lib.KeyCount
import Mathlib.Logic.Relation

/-!
# Link counts

Directories hold named entries for files and for other directories, and every object has a
link count. Entries are made, moved and removed, and the counts go along: a file has as many
links as entries, and a directory that has not been removed has one for itself, one for the
entry that names it and one for each directory in it.
-/

open KeyCount

/-- The objects, their link counts, the entries of the directories, and the directory that
each directory takes for its parent. -/
@[ext]
structure LinkGraph (ι N : Type) where
  used : ι → Bool
  isDir : ι → Bool
  nlink : ι → Nat
  entry : ι × N → Option ι
  up : ι → Option ι

namespace LinkGraph

variable {ι N : Type}

/-- A directory that has not been removed. -/
structure Live (L : LinkGraph ι N) (d : ι) : Prop where
  used : L.used d = true
  isDir : L.isDir d = true
  linked : L.nlink d ≠ 0

/-- The link counts say what they should, and the directories are a tree at each node. -/
structure Counted (L : LinkGraph ι N) (root : ι) : Prop where
  target : ∀ {k i}, L.entry k = some i → L.used i = true
  place : ∀ {k i}, L.entry k = some i → L.Live k.1
  loopless : ∀ {k i}, L.entry k = some i → k.1 ≠ i
  once : ∀ {k k' i}, L.isDir i = true → L.entry k = some i → L.entry k' = some i → k = k'
  parent : ∀ {k i}, L.isDir i = true → L.entry k = some i → L.up i = some k.1
  file : ∀ {i}, L.used i = true → L.isDir i = false → Counts L.entry (fun _ j => j = i) (L.nlink i)
  dir : ∀ {i}, L.Live i →
    ∃ n, L.nlink i = n + 2 ∧ Counts L.entry (fun k j => k.1 = i ∧ L.isDir j = true) n
  dead : ∀ {i}, L.used i = true → L.isDir i = true → L.nlink i = 0 → ∀ k, L.entry k ≠ some i
  linked : ∀ {i}, L.Live i → i ≠ root → ∃ k, L.entry k = some i
  rootLive : L.Live root
  top : ∀ k, L.entry k ≠ some root
  rootUp : L.up root = some root

section Ops

variable [DecidableEq ι] [DecidableEq N] (L : LinkGraph ι N) (k k' : ι × N) (i : ι)

/-- A file without a name. -/
def addFile : LinkGraph ι N :=
  { L with
    used := Function.update L.used i true
    isDir := Function.update L.isDir i false
    nlink := Function.update L.nlink i 0
    up := Function.update L.up i none }

def link : LinkGraph ι N :=
  { L with
    nlink := Function.update L.nlink i (L.nlink i + 1)
    entry := Function.update L.entry k (some i) }

def unlink : LinkGraph ι N :=
  { L with
    nlink := Function.update L.nlink i (L.nlink i - 1)
    entry := Function.update L.entry k none }

def mkdir : LinkGraph ι N where
  used := Function.update L.used i true
  isDir := Function.update L.isDir i true
  nlink := Function.update (Function.update L.nlink k.1 (L.nlink k.1 + 1)) i 2
  entry := Function.update L.entry k (some i)
  up := Function.update L.up i (some k.1)

/-- What a removed directory takes for its parent does not matter. -/
def rmdir (parent : Option ι) : LinkGraph ι N :=
  { L with
    nlink := Function.update (Function.update L.nlink i 0) k.1 (L.nlink k.1 - 1)
    entry := Function.update L.entry k none
    up := Function.update L.up i parent }

/-- The count of links after a directory has gone from one directory to another. -/
def movedLinks (nlink : ι → Nat) (d d' : ι) : ι → Nat :=
  let nlink' := Function.update nlink d' (nlink d' + 1)
  Function.update nlink' d (nlink' d - 1)

def move : LinkGraph ι N :=
  { L with
    nlink := if L.isDir i then movedLinks L.nlink k.1 k'.1 else L.nlink
    entry := Function.update (Function.update L.entry k' (some i)) k none
    up := if L.isDir i then Function.update L.up i (some k'.1) else L.up }

def evict : LinkGraph ι N :=
  { L with
    used := Function.update L.used i false
    isDir := Function.update L.isDir i false
    up := Function.update L.up i none }

end Ops

/-- What can happen. -/
inductive Step [DecidableEq ι] [DecidableEq N] (L : LinkGraph ι N) : LinkGraph ι N → Prop
  | addFile (i : ι) (unused : L.used i = false) : Step L (L.addFile i)
  | link (k : ι × N) (i : ι) (live : L.Live k.1) (free : L.entry k = none)
      (used : L.used i = true) (file : L.isDir i = false) : Step L (L.link k i)
  | unlink (k : ι × N) (i : ι) (named : L.entry k = some i) (file : L.isDir i = false) :
      Step L (L.unlink k i)
  | mkdir (k : ι × N) (i : ι) (live : L.Live k.1) (free : L.entry k = none)
      (unused : L.used i = false) : Step L (L.mkdir k i)
  | rmdir (k : ι × N) (i : ι) (parent : Option ι) (named : L.entry k = some i)
      (isDir : L.isDir i = true) (empty : ∀ n, L.entry (i, n) = none) :
      Step L (L.rmdir k i parent)
  | move (k k' : ι × N) (i : ι) (named : L.entry k = some i) (live : L.Live k'.1)
      (free : L.entry k' = none) (outside : k'.1 ≠ i) : Step L (L.move k k' i)
  | evict (i : ι) (unlinked : L.nlink i = 0) : Step L (L.evict i)

section Named

variable {L L' : LinkGraph ι N} {root i d : ι} {k : ι × N}

theorem Live.of_same (h : L.Live d) (hused : L'.used d = L.used d) (hdir : L'.isDir d = L.isDir d)
    (hlink : L'.nlink d = L.nlink d) : L'.Live d where
  used := hused.trans h.used
  isDir := hdir.trans h.isDir
  linked := by
    rw [hlink]
    exact h.linked

theorem dir_ne_file (hd : L.isDir d = true) (hi : L.isDir i = false) : d ≠ i := by
  rintro rfl
  rw [hi] at hd
  cases hd

theorem Live.ne_file (h : L.Live d) (hi : L.isDir i = false) : d ≠ i := dir_ne_file h.isDir hi

theorem Live.ne_unused (h : L.Live d) (hi : L.used i = false) : d ≠ i := by
  rintro rfl
  have hused := h.used
  rw [hi] at hused
  cases hused

/-- What is not used has no name. -/
theorem Counted.unnamed (h : L.Counted root) (hi : L.used i = false) : L.entry k ≠ some i := by
  intro hk
  have hused := h.target hk
  rw [hi] at hused
  cases hused

/-- What has no links has no name. -/
theorem Counted.unnamed_of_unlinked (h : L.Counted root) (hi : L.nlink i = 0) :
    L.entry k ≠ some i := by
  intro hk
  have hused := h.target hk
  cases hdir : L.isDir i with
  | true => exact h.dead hused hdir hi k hk
  | false =>
    have hpos := (h.file hused hdir).pos hk rfl
    omega

/-- What has a name has a link. -/
theorem Counted.linked_of_named (h : L.Counted root) (hk : L.entry k = some i) : L.nlink i ≠ 0 :=
  fun hi => h.unnamed_of_unlinked hi hk

theorem Counted.leaf (h : L.Counted root) (hi : L.Live i) (hempty : ∀ n, L.entry (i, n) = none) :
    L.nlink i = 2 := by
  obtain ⟨n, hn, hcount⟩ := h.dir hi
  have hzero : Counts L.entry (fun k j => k.1 = i ∧ L.isDir j = true) 0 := by
    apply Counts.zero
    rintro ⟨d, name⟩ j hj ⟨rfl, -⟩
    rw [hempty name] at hj
    cases hj
  rw [hn, hcount.unique hzero]

theorem Counted.three_le (h : L.Counted root) (hk : L.entry k = some i) (hi : L.isDir i = true) :
    3 ≤ L.nlink k.1 := by
  obtain ⟨n, hn, hcount⟩ := h.dir (h.place hk)
  have hpos := hcount.pos hk ⟨rfl, hi⟩
  omega

/-- The directories in a directory are counted by its links. -/
theorem Counted.children (h : L.Counted root) (hi : L.Live i) :
    (L.nlink i : ℕ∞) = {c | L.isDir c = true ∧ ∃ n, L.entry (i, n) = some c}.encard + 2 := by
  obtain ⟨n, hn, hcount⟩ := h.dir hi
  have himage : L.entry '' keys L.entry (fun k j => k.1 = i ∧ L.isDir j = true) =
      some '' {c | L.isDir c = true ∧ ∃ n, L.entry (i, n) = some c} := by
    ext v
    constructor
    · rintro ⟨⟨d, n⟩, ⟨c, hc, rfl, hdir⟩, rfl⟩
      exact ⟨c, ⟨hdir, n, hc⟩, hc.symm⟩
    · rintro ⟨c, ⟨hdir, n, hc⟩, rfl⟩
      exact ⟨(i, n), ⟨c, hc, rfl, hdir⟩, hc⟩
  have hinj : Set.InjOn L.entry (keys L.entry fun k j => k.1 = i ∧ L.isDir j = true) := by
    rintro k ⟨c, hc, -, hdir⟩ k' - heq
    exact h.once hdir hc (heq.symm.trans hc)
  rw [← (Option.some_injective ι).encard_image, ← himage, hinj.encard_image, hcount, hn]
  rfl

end Named

section Objects

variable [DecidableEq ι] {L : LinkGraph ι N} {root i : ι}

theorem Counted.addFile (h : L.Counted root) (unused : L.used i = false) :
    (L.addFile i).Counted root := by
  have hsame : ∀ {j}, j ≠ i → (L.addFile i).used j = L.used j ∧
      (L.addFile i).isDir j = L.isDir j ∧ (L.addFile i).nlink j = L.nlink j ∧
      (L.addFile i).up j = L.up j := fun hj =>
    ⟨Function.update_of_ne hj _ _, Function.update_of_ne hj _ _, Function.update_of_ne hj _ _,
      Function.update_of_ne hj _ _⟩
  have hnew : (L.addFile i).isDir i = false := Function.update_self _ _ _
  have hlive : ∀ {d}, L.Live d → (L.addFile i).Live d := by
    intro d hd
    obtain ⟨hused, hdir, hlinks, -⟩ := hsame (hd.ne_unused unused)
    exact hd.of_same hused hdir hlinks
  have hnamed : ∀ {k j}, L.entry k = some j → j ≠ i := by
    rintro k j hk rfl
    exact h.unnamed unused hk
  constructor
  case target =>
    intro k j hk
    rw [(hsame (hnamed hk)).1]
    exact h.target hk
  case place => exact fun hk => hlive (h.place hk)
  case loopless => exact fun hk => h.loopless hk
  case once =>
    intro k k' j hj hk hk'
    rw [(hsame (hnamed hk)).2.1] at hj
    exact h.once hj hk hk'
  case parent =>
    intro k j hj hk
    obtain ⟨-, hdir, -, hup⟩ := hsame (hnamed hk)
    rw [hdir] at hj
    rw [hup]
    exact h.parent hj hk
  case file =>
    intro j hused hj
    by_cases hi : j = i
    · subst hi
      have hlinks : (L.addFile j).nlink j = 0 := Function.update_self _ _ _
      rw [hlinks]
      exact .zero fun k v hk hv => hnamed hk hv
    · obtain ⟨hused', hdir, hlinks, -⟩ := hsame hi
      rw [hused'] at hused
      rw [hdir] at hj
      rw [hlinks]
      exact h.file hused hj
  case dir =>
    intro j hj
    obtain ⟨hused, hdir, hlinks, -⟩ := hsame (dir_ne_file hj.isDir hnew)
    obtain ⟨n, hn, hcount⟩ := h.dir (hj.of_same hused.symm hdir.symm hlinks.symm)
    refine ⟨n, hlinks.trans hn, hcount.congr fun k v hk => ?_⟩
    rw [(hsame (hnamed hk)).2.1]
  case dead =>
    intro j hused hj hzero k hk
    obtain ⟨-, hdir, hlinks, -⟩ := hsame (hnamed hk)
    rw [hlinks] at hzero
    exact h.unnamed_of_unlinked hzero hk
  case linked =>
    intro j hj hroot
    obtain ⟨hused, hdir, hlinks, -⟩ := hsame (dir_ne_file hj.isDir hnew)
    exact h.linked (hj.of_same hused.symm hdir.symm hlinks.symm) hroot
  case rootLive => exact hlive h.rootLive
  case top => exact fun k => h.top k
  case rootUp => exact (hsame (h.rootLive.ne_unused unused)).2.2.2.trans h.rootUp

theorem Counted.evict (h : L.Counted root) (unlinked : L.nlink i = 0) :
    (L.evict i).Counted root := by
  have hsame : ∀ {j}, j ≠ i → (L.evict i).used j = L.used j ∧
      (L.evict i).isDir j = L.isDir j ∧ (L.evict i).up j = L.up j := fun hj =>
    ⟨Function.update_of_ne hj _ _, Function.update_of_ne hj _ _, Function.update_of_ne hj _ _⟩
  have hold : (L.evict i).used i = false := Function.update_self _ _ _
  have hlive : ∀ {d}, L.Live d → (L.evict i).Live d := by
    intro d hd
    have hne : d ≠ i := by
      rintro rfl
      exact hd.linked unlinked
    obtain ⟨hused, hdir, -⟩ := hsame hne
    exact hd.of_same hused hdir rfl
  have hnamed : ∀ {k j}, L.entry k = some j → j ≠ i := by
    rintro k j hk rfl
    exact h.unnamed_of_unlinked unlinked hk
  have hused : ∀ {j}, (L.evict i).used j = true → j ≠ i := by
    rintro j hj rfl
    rw [hold] at hj
    cases hj
  constructor
  case target =>
    intro k j hk
    rw [(hsame (hnamed hk)).1]
    exact h.target hk
  case place => exact fun hk => hlive (h.place hk)
  case loopless => exact fun hk => h.loopless hk
  case once =>
    intro k k' j hj hk hk'
    rw [(hsame (hnamed hk)).2.1] at hj
    exact h.once hj hk hk'
  case parent =>
    intro k j hj hk
    obtain ⟨-, hdir, hup⟩ := hsame (hnamed hk)
    rw [hdir] at hj
    rw [hup]
    exact h.parent hj hk
  case file =>
    intro j hj hfile
    obtain ⟨hused', hdir, -⟩ := hsame (hused hj)
    rw [hused'] at hj
    rw [hdir] at hfile
    exact h.file hj hfile
  case dir =>
    intro j hj
    obtain ⟨hused', hdir, -⟩ := hsame (hused hj.used)
    obtain ⟨n, hn, hcount⟩ := h.dir (Live.of_same hj hused'.symm hdir.symm rfl)
    refine ⟨n, hn, hcount.congr fun k v hk => ?_⟩
    rw [(hsame (hnamed hk)).2.1]
  case dead => exact fun _ _ hzero k hk => h.unnamed_of_unlinked hzero hk
  case linked =>
    intro j hj hroot
    obtain ⟨hused', hdir, -⟩ := hsame (hused hj.used)
    exact h.linked (Live.of_same hj hused'.symm hdir.symm rfl) hroot
  case rootLive => exact hlive h.rootLive
  case top => exact fun k => h.top k
  case rootUp =>
    have hne : root ≠ i := by
      rintro rfl
      exact h.rootLive.linked unlinked
    exact (hsame hne).2.2.trans h.rootUp

end Objects

section Steps

variable [DecidableEq ι] [DecidableEq N] {L : LinkGraph ι N} {root i j : ι} {k k' k₀ : ι × N}

theorem bound_eq_some {entry : ι × N → Option ι} :
    Function.update entry k (some i) k₀ = some j ↔
      (k₀ = k ∧ j = i) ∨ (k₀ ≠ k ∧ entry k₀ = some j) := by
  by_cases h : k₀ = k
  · subst h
    simp [eq_comm]
  · simp [h]

/-- What is in another place than the new entry stays. -/
theorem bound_of_some {entry : ι × N → Option ι} (free : entry k = none) (h : entry k₀ = some j) :
    Function.update entry k (some i) k₀ = some j := by
  refine bound_eq_some.mpr (Or.inr ⟨?_, h⟩)
  rintro rfl
  rw [free] at h
  cases h

theorem unbound_eq_some {entry : ι × N → Option ι} :
    Function.update entry k none k₀ = some j ↔ k₀ ≠ k ∧ entry k₀ = some j := by
  by_cases h : k₀ = k
  · subst h
    simp
  · simp [h]

/-- What another object is named by stays. -/
theorem unbound_of_some {entry : ι × N → Option ι} (named : entry k = some i)
    (h : entry k₀ = some j) (hne : j ≠ i) : Function.update entry k none k₀ = some j := by
  refine unbound_eq_some.mpr ⟨?_, h⟩
  rintro rfl
  rw [named] at h
  cases h
  exact hne rfl

theorem Counted.link (h : L.Counted root) (live : L.Live k.1) (free : L.entry k = none)
    (used : L.used i = true) (file : L.isDir i = false) : (L.link k i).Counted root := by
  have hlive : ∀ {d}, L.Live d → (L.link k i).Live d := fun hd =>
    hd.of_same rfl rfl (Function.update_of_ne (hd.ne_file file) _ _)
  have hother : ∀ {k₀ j}, L.isDir j = true → (L.link k i).entry k₀ = some j →
      L.entry k₀ = some j := by
    intro k₀ j hj hk
    rcases bound_eq_some.mp hk with ⟨-, rfl⟩ | ⟨-, hk⟩
    · rw [file] at hj
      cases hj
    · exact hk
  constructor
  case target =>
    intro k₀ j hk
    rcases bound_eq_some.mp hk with ⟨-, rfl⟩ | ⟨-, hk⟩
    · exact used
    · exact h.target hk
  case place =>
    intro k₀ j hk
    rcases bound_eq_some.mp hk with ⟨rfl, -⟩ | ⟨-, hk⟩
    · exact hlive live
    · exact hlive (h.place hk)
  case loopless =>
    intro k₀ j hk
    rcases bound_eq_some.mp hk with ⟨rfl, rfl⟩ | ⟨-, hk⟩
    · exact live.ne_file file
    · exact h.loopless hk
  case once => exact fun hj hk hk' => h.once hj (hother hj hk) (hother hj hk')
  case parent => exact fun hj hk => h.parent hj (hother hj hk)
  case file =>
    intro j hused hj
    have hcount := h.file hused hj
    by_cases hi : j = i
    · subst hi
      have hlinks : (L.link k j).nlink j = L.nlink j + 1 := Function.update_self _ _ _
      rw [hlinks]
      exact hcount.bind free rfl
    · have hlinks : (L.link k i).nlink j = L.nlink j := Function.update_of_ne hi _ _
      rw [hlinks]
      exact hcount.bind_other free (Ne.symm hi)
  case dir =>
    intro j hj
    have hi : j ≠ i := hj.ne_file file
    have hlinks : (L.link k i).nlink j = L.nlink j := Function.update_of_ne hi _ _
    obtain ⟨n, hn, hcount⟩ := h.dir (Live.of_same hj rfl rfl hlinks.symm)
    refine ⟨n, hlinks.trans hn, hcount.bind_other free ?_⟩
    rintro ⟨-, hdir⟩
    rw [file] at hdir
    cases hdir
  case dead =>
    intro j hused hj hzero k₀ hk
    have hi : j ≠ i := dir_ne_file (L := L) hj file
    have hlinks : (L.link k i).nlink j = L.nlink j := Function.update_of_ne hi _ _
    exact h.dead hused hj (hlinks.symm.trans hzero) k₀ (hother hj hk)
  case linked =>
    intro j hj hroot
    have hlinks : (L.link k i).nlink j = L.nlink j := Function.update_of_ne (hj.ne_file file) _ _
    obtain ⟨k₀, hk⟩ := h.linked (Live.of_same hj rfl rfl hlinks.symm) hroot
    exact ⟨k₀, bound_of_some free hk⟩
  case rootLive => exact hlive h.rootLive
  case top => exact fun k₀ hk => h.top k₀ (hother h.rootLive.isDir hk)
  case rootUp => exact h.rootUp

theorem Counted.unlink (h : L.Counted root) (named : L.entry k = some i)
    (file : L.isDir i = false) : (L.unlink k i).Counted root := by
  have hlive : ∀ {d}, L.Live d → (L.unlink k i).Live d := fun hd =>
    hd.of_same rfl rfl (Function.update_of_ne (hd.ne_file file) _ _)
  have hold : ∀ {k₀ j}, (L.unlink k i).entry k₀ = some j → L.entry k₀ = some j :=
    fun hk => (unbound_eq_some.mp hk).2
  constructor
  case target => exact fun hk => h.target (hold hk)
  case place => exact fun hk => hlive (h.place (hold hk))
  case loopless => exact fun hk => h.loopless (hold hk)
  case once => exact fun hj hk hk' => h.once hj (hold hk) (hold hk')
  case parent => exact fun hj hk => h.parent hj (hold hk)
  case file =>
    intro j hused hj
    have hcount := h.file hused hj
    by_cases hi : j = i
    · subst hi
      have hlinks : (L.unlink k j).nlink j = L.nlink j - 1 := Function.update_self _ _ _
      rw [hlinks]
      exact hcount.unbind named rfl
    · have hlinks : (L.unlink k i).nlink j = L.nlink j := Function.update_of_ne hi _ _
      rw [hlinks]
      exact hcount.unbind_other named (Ne.symm hi)
  case dir =>
    intro j hj
    have hi : j ≠ i := hj.ne_file file
    have hlinks : (L.unlink k i).nlink j = L.nlink j := Function.update_of_ne hi _ _
    obtain ⟨n, hn, hcount⟩ := h.dir (Live.of_same hj rfl rfl hlinks.symm)
    refine ⟨n, hlinks.trans hn, hcount.unbind_other named ?_⟩
    rintro ⟨-, hdir⟩
    rw [file] at hdir
    cases hdir
  case dead =>
    intro j hused hj hzero k₀ hk
    have hi : j ≠ i := dir_ne_file (L := L) hj file
    have hlinks : (L.unlink k i).nlink j = L.nlink j := Function.update_of_ne hi _ _
    exact h.dead hused hj (hlinks.symm.trans hzero) k₀ (hold hk)
  case linked =>
    intro j hj hroot
    have hi : j ≠ i := hj.ne_file file
    have hlinks : (L.unlink k i).nlink j = L.nlink j := Function.update_of_ne hi _ _
    obtain ⟨k₀, hk⟩ := h.linked (Live.of_same hj rfl rfl hlinks.symm) hroot
    exact ⟨k₀, unbound_of_some named hk hi⟩
  case rootLive => exact hlive h.rootLive
  case top => exact fun k₀ hk => h.top k₀ (hold hk)
  case rootUp => exact h.rootUp

/-! ### A new directory -/

section Mkdir

theorem mkdir_same (hi : j ≠ i) : (L.mkdir k i).used j = L.used j ∧
    (L.mkdir k i).isDir j = L.isDir j ∧ (L.mkdir k i).up j = L.up j :=
  ⟨Function.update_of_ne hi _ _, Function.update_of_ne hi _ _, Function.update_of_ne hi _ _⟩

theorem mkdir_parent (hk : k.1 ≠ i) : (L.mkdir k i).nlink k.1 = L.nlink k.1 + 1 := by
  simp [LinkGraph.mkdir, hk]

theorem mkdir_nlink (hi : j ≠ i) (hj : j ≠ k.1) : (L.mkdir k i).nlink j = L.nlink j := by
  simp [LinkGraph.mkdir, hi, hj]

theorem mkdir_self : (L.mkdir k i).Live i := by
  refine ⟨Function.update_self _ _ _, Function.update_self _ _ _, ?_⟩
  simp [LinkGraph.mkdir]

theorem Live.mkdir (h : L.Live j) (unused : L.used i = false) : (L.mkdir k i).Live j := by
  have hi := h.ne_unused unused
  have hused : (L.mkdir k i).used j = L.used j := (mkdir_same hi).1
  have hdir : (L.mkdir k i).isDir j = L.isDir j := (mkdir_same hi).2.1
  by_cases hj : j = k.1
  · subst hj
    refine ⟨hused.trans h.used, hdir.trans h.isDir, ?_⟩
    rw [mkdir_parent hi]
    exact Nat.succ_ne_zero _
  · exact h.of_same hused hdir (mkdir_nlink hi hj)

theorem Live.of_mkdir (h : (L.mkdir k i).Live j) (live : L.Live k.1) (hi : j ≠ i) : L.Live j := by
  have hused : (L.mkdir k i).used j = L.used j := (mkdir_same hi).1
  have hdir : (L.mkdir k i).isDir j = L.isDir j := (mkdir_same hi).2.1
  by_cases hj : j = k.1
  · subst hj
    exact live
  · exact h.of_same hused.symm hdir.symm (mkdir_nlink hi hj).symm

theorem Counted.mkdir_entry (h : L.Counted root) (unused : L.used i = false)
    (hk₀ : (L.mkdir k i).entry k₀ = some j) : (k₀ = k ∧ j = i) ∨ (j ≠ i ∧ L.entry k₀ = some j) := by
  rcases bound_eq_some.mp hk₀ with hnew | ⟨-, hold⟩
  · exact Or.inl hnew
  · right
    constructor
    · rintro rfl
      exact h.unnamed unused hold
    · exact hold

theorem Counted.mkdir_children (h : L.Counted root) (live : L.Live k.1) (free : L.entry k = none)
    (unused : L.used i = false) (hj : (L.mkdir k i).Live j) :
    ∃ n, (L.mkdir k i).nlink j = n + 2 ∧
      Counts (L.mkdir k i).entry (fun k₀ v => k₀.1 = j ∧ (L.mkdir k i).isDir v = true) n := by
  have hk : k.1 ≠ i := live.ne_unused unused
  by_cases hi : j = i
  · subst hi
    refine ⟨0, ?_, .zero ?_⟩
    · simp [LinkGraph.mkdir]
    · rintro k₀ v hk₀ ⟨rfl, -⟩
      rcases h.mkdir_entry unused hk₀ with ⟨rfl, -⟩ | ⟨-, hold⟩
      · exact hk rfl
      · exact (h.place hold).ne_unused unused rfl
  · have hcongr : ∀ k₀ v, L.entry k₀ = some v →
        (k₀.1 = j ∧ L.isDir v = true ↔ k₀.1 = j ∧ (L.mkdir k i).isDir v = true) := by
      intro k₀ v hk₀
      have hv : v ≠ i := by
        rintro rfl
        exact h.unnamed unused hk₀
      rw [(mkdir_same hv).2.1]
    obtain ⟨n, hn, hcount⟩ := h.dir (hj.of_mkdir live hi)
    by_cases hjk : j = k.1
    · subst hjk
      refine ⟨n + 1, ?_, (hcount.congr hcongr).bind free ⟨rfl, mkdir_self.isDir⟩⟩
      rw [mkdir_parent hk, hn]
    · refine ⟨n, (mkdir_nlink hi hjk).trans hn, (hcount.congr hcongr).bind_other free ?_⟩
      rintro ⟨heq, -⟩
      exact hjk heq.symm

theorem Counted.mkdir (h : L.Counted root) (live : L.Live k.1) (free : L.entry k = none)
    (unused : L.used i = false) : (L.mkdir k i).Counted root := by
  have hk : k.1 ≠ i := live.ne_unused unused
  constructor
  case target =>
    intro k₀ j hk₀
    rcases h.mkdir_entry unused hk₀ with ⟨-, rfl⟩ | ⟨hj, hold⟩
    · exact mkdir_self.used
    · rw [(mkdir_same hj).1]
      exact h.target hold
  case place =>
    intro k₀ j hk₀
    rcases h.mkdir_entry unused hk₀ with ⟨rfl, -⟩ | ⟨-, hold⟩
    · exact live.mkdir unused
    · exact (h.place hold).mkdir unused
  case loopless =>
    intro k₀ j hk₀
    rcases h.mkdir_entry unused hk₀ with ⟨rfl, rfl⟩ | ⟨-, hold⟩
    · exact hk
    · exact h.loopless hold
  case once =>
    intro k₀ k₁ j hj hk₀ hk₁
    rcases h.mkdir_entry unused hk₀ with ⟨rfl, rfl⟩ | ⟨hne, hold⟩
    · rcases h.mkdir_entry unused hk₁ with ⟨rfl, -⟩ | ⟨hne, -⟩
      · rfl
      · exact absurd rfl hne
    · rcases h.mkdir_entry unused hk₁ with ⟨-, rfl⟩ | ⟨-, hold'⟩
      · exact absurd rfl hne
      · rw [(mkdir_same hne).2.1] at hj
        exact h.once hj hold hold'
  case parent =>
    intro k₀ j hj hk₀
    rcases h.mkdir_entry unused hk₀ with ⟨rfl, rfl⟩ | ⟨hne, hold⟩
    · exact Function.update_self _ _ _
    · obtain ⟨-, hdir, hup⟩ := mkdir_same (k := k) hne
      rw [hdir] at hj
      rw [hup]
      exact h.parent hj hold
  case file =>
    intro j hused hj
    have hi : j ≠ i := (dir_ne_file mkdir_self.isDir hj).symm
    obtain ⟨hused', hdir, -⟩ := mkdir_same (k := k) hi
    rw [hused'] at hused
    rw [hdir] at hj
    rw [mkdir_nlink hi (live.ne_file hj).symm]
    exact (h.file hused hj).bind_other free (Ne.symm hi)
  case dir => exact h.mkdir_children live free unused
  case dead =>
    intro j hused hj hzero k₀ hk₀
    rcases h.mkdir_entry unused hk₀ with ⟨-, rfl⟩ | ⟨hne, hold⟩
    · exact mkdir_self.linked hzero
    · by_cases hjk : j = k.1
      · subst hjk
        rw [mkdir_parent hk] at hzero
        cases hzero
      · rw [mkdir_nlink hne hjk] at hzero
        exact h.unnamed_of_unlinked hzero hold
  case linked =>
    intro j hj hroot
    by_cases hi : j = i
    · subst hi
      exact ⟨k, Function.update_self _ _ _⟩
    · obtain ⟨k₀, hk₀⟩ := h.linked (hj.of_mkdir live hi) hroot
      exact ⟨k₀, bound_of_some free hk₀⟩
  case rootLive => exact h.rootLive.mkdir unused
  case top =>
    intro k₀ hk₀
    rcases h.mkdir_entry unused hk₀ with ⟨-, heq⟩ | ⟨-, hold⟩
    · exact h.rootLive.ne_unused unused heq
    · exact h.top k₀ hold
  case rootUp => exact (mkdir_same (h.rootLive.ne_unused unused)).2.2.trans h.rootUp

end Mkdir

/-! ### A directory that is removed -/

section Rmdir

variable {parent : Option ι}

theorem rmdir_parent : (L.rmdir k i parent).nlink k.1 = L.nlink k.1 - 1 := Function.update_self _ _ _

theorem rmdir_nlink (hi : j ≠ i) (hj : j ≠ k.1) : (L.rmdir k i parent).nlink j = L.nlink j := by
  simp [LinkGraph.rmdir, hi, hj]

theorem rmdir_dead (hk : k.1 ≠ i) : (L.rmdir k i parent).nlink i = 0 := by
  simp [LinkGraph.rmdir, hk.symm]

theorem Counted.rmdir_live (h : L.Counted root) (named : L.entry k = some i) (isDir : L.isDir i = true)
    (hi : j ≠ i) (hj : L.Live j) : (L.rmdir k i parent).Live j := by
  by_cases hjk : j = k.1
  · subst hjk
    have hthree := h.three_le named isDir
    refine ⟨hj.used, hj.isDir, ?_⟩
    rw [rmdir_parent]
    omega
  · exact hj.of_same rfl rfl (rmdir_nlink hi hjk)

theorem Counted.of_rmdir (h : L.Counted root) (named : L.entry k = some i)
    (hj : (L.rmdir k i parent).Live j) : j ≠ i ∧ L.Live j := by
  have hi : j ≠ i := by
    rintro rfl
    exact hj.linked (rmdir_dead (h.loopless named))
  refine ⟨hi, ?_⟩
  by_cases hjk : j = k.1
  · subst hjk
    exact h.place named
  · exact Live.of_same hj rfl rfl (rmdir_nlink hi hjk).symm

theorem Counted.rmdir_entry (h : L.Counted root) (named : L.entry k = some i) (isDir : L.isDir i = true)
    (empty : ∀ n, L.entry (i, n) = none) (hk₀ : (L.rmdir k i parent).entry k₀ = some j) :
    j ≠ i ∧ k₀.1 ≠ i ∧ L.entry k₀ = some j := by
  obtain ⟨hne, hold⟩ := unbound_eq_some.mp hk₀
  refine ⟨?_, ?_, hold⟩
  · rintro rfl
    exact hne (h.once isDir hold named)
  · obtain ⟨d, n⟩ := k₀
    rintro rfl
    rw [empty n] at hold
    cases hold

theorem Counted.rmdir_children (h : L.Counted root) (named : L.entry k = some i)
    (isDir : L.isDir i = true) (hj : (L.rmdir k i parent).Live j) :
    ∃ n, (L.rmdir k i parent).nlink j = n + 2 ∧ Counts (L.rmdir k i parent).entry
      (fun k₀ v => k₀.1 = j ∧ (L.rmdir k i parent).isDir v = true) n := by
  obtain ⟨hi, hwas⟩ := h.of_rmdir named hj
  obtain ⟨n, hn, hcount⟩ := h.dir hwas
  by_cases hjk : j = k.1
  · subst hjk
    have hpos : 0 < n := hcount.pos named ⟨rfl, isDir⟩
    refine ⟨n - 1, ?_, hcount.unbind named ⟨rfl, isDir⟩⟩
    rw [rmdir_parent, hn]
    omega
  · refine ⟨n, (rmdir_nlink hi hjk).trans hn, hcount.unbind_other named ?_⟩
    rintro ⟨heq, -⟩
    exact hjk heq.symm

theorem Counted.rmdir (h : L.Counted root) (named : L.entry k = some i) (isDir : L.isDir i = true)
    (empty : ∀ n, L.entry (i, n) = none) (parent : Option ι) :
    (L.rmdir k i parent).Counted root := by
  have hroot : root ≠ i := by
    rintro rfl
    exact h.top k named
  have hentry : ∀ {k₀ j}, (L.rmdir k i parent).entry k₀ = some j →
      j ≠ i ∧ k₀.1 ≠ i ∧ L.entry k₀ = some j := h.rmdir_entry named isDir empty
  constructor
  case target => exact fun hk₀ => h.target (hentry hk₀).2.2
  case place =>
    intro k₀ j hk₀
    obtain ⟨-, hne, hold⟩ := hentry hk₀
    exact h.rmdir_live named isDir hne (h.place hold)
  case loopless => exact fun hk₀ => h.loopless (hentry hk₀).2.2
  case once => exact fun hj hk₀ hk₁ => h.once hj (hentry hk₀).2.2 (hentry hk₁).2.2
  case parent =>
    intro k₀ j hj hk₀
    obtain ⟨hne, -, hold⟩ := hentry hk₀
    have hup : (L.rmdir k i parent).up j = L.up j := Function.update_of_ne hne _ _
    rw [hup]
    exact h.parent hj hold
  case file =>
    intro j hused hj
    have hi : j ≠ i := (dir_ne_file isDir hj).symm
    rw [rmdir_nlink hi ((h.place named).ne_file hj).symm]
    exact (h.file hused hj).unbind_other named (Ne.symm hi)
  case dir => exact h.rmdir_children named isDir
  case dead =>
    intro j hused hj hzero k₀ hk₀
    obtain ⟨hne, -, hold⟩ := hentry hk₀
    exact (h.rmdir_live named isDir hne ⟨hused, hj, h.linked_of_named hold⟩).linked hzero
  case linked =>
    intro j hj hne
    obtain ⟨hi, hwas⟩ := h.of_rmdir named hj
    obtain ⟨k₀, hk₀⟩ := h.linked hwas hne
    exact ⟨k₀, unbound_of_some named hk₀ hi⟩
  case rootLive => exact h.rmdir_live named isDir hroot h.rootLive
  case top => exact fun k₀ hk₀ => h.top k₀ (hentry hk₀).2.2
  case rootUp =>
    have hup : (L.rmdir k i parent).up root = L.up root := Function.update_of_ne hroot _ _
    exact hup.trans h.rootUp

end Rmdir

/-! ### Moving -/

theorem movedLinks_of_ne (nlink : ι → Nat) {d d' : ι} (hd : j ≠ d) (hd' : j ≠ d') :
    movedLinks nlink d d' j = nlink j := by
  simp [movedLinks, hd, hd']

theorem movedLinks_same (nlink : ι → Nat) (d : ι) : movedLinks nlink d d d = nlink d := by
  simp [movedLinks]

theorem movedLinks_old (nlink : ι → Nat) {d d' : ι} (h : d ≠ d') :
    movedLinks nlink d d' d = nlink d - 1 := by
  simp [movedLinks, h]

theorem movedLinks_new (nlink : ι → Nat) {d d' : ι} (h : d ≠ d') :
    movedLinks nlink d d' d' = nlink d' + 1 := by
  simp [movedLinks, h.symm]

theorem movedLinks_le (nlink : ι → Nat) {d d' : ι} (h : j ≠ d') :
    movedLinks nlink d d' j ≤ nlink j := by
  by_cases hj : j = d
  · subst hj
    rw [movedLinks_old _ h]
    exact Nat.sub_le _ _
  · rw [movedLinks_of_ne _ hj h]

/-- The link that a directory has lost before comes back. -/
theorem movedLinks_back (nlink : ι → Nat) {d d' : ι} (h : 0 < nlink d') :
    movedLinks (Function.update nlink d' (nlink d' - 1)) d d' =
      Function.update nlink d (nlink d - 1) := by
  unfold movedLinks
  simp [Nat.sub_add_cancel h]

/-- A file is moved by a second link. -/
theorem move_file (file : L.isDir i = false) : L.move k k' i = (L.link k' i).unlink k i := by
  simp [LinkGraph.move, LinkGraph.link, LinkGraph.unlink, file]

/-- A file takes the name of another one. -/
theorem move_unlinked {j : ι} (file : L.isDir i = false) : (L.unlink k' j).move k k' i =
    { L with
      nlink := Function.update L.nlink j (L.nlink j - 1)
      entry := Function.update (Function.update L.entry k' (some i)) k none } := by
  simp [LinkGraph.move, LinkGraph.unlink, file]

/-- A directory takes the name of another one. -/
theorem move_removed {j : ι} (isDir : L.isDir i = true) (other : j ≠ k'.1) (apart : k.1 ≠ j)
    (linked : 0 < L.nlink k'.1) : (L.rmdir k' j (L.up j)).move k k' i =
    { L with
      nlink := Function.update (Function.update L.nlink j 0) k.1 (L.nlink k.1 - 1)
      entry := Function.update (Function.update L.entry k' (some i)) k none
      up := Function.update L.up i (some k'.1) } := by
  have hparent : Function.update L.nlink j 0 k'.1 = L.nlink k'.1 := Function.update_of_ne other.symm _ _
  have hback : movedLinks (Function.update (Function.update L.nlink j 0) k'.1 (L.nlink k'.1 - 1)) k.1 k'.1 =
      Function.update (Function.update L.nlink j 0) k.1 (Function.update L.nlink j 0 k.1 - 1) := by
    rw [← hparent] at linked ⊢
    exact movedLinks_back _ linked
  simp [LinkGraph.move, LinkGraph.rmdir, isDir, hback, apart]

section Move

theorem move_nlink (isDir : L.isDir i = true) :
    (L.move k k' i).nlink = movedLinks L.nlink k.1 k'.1 := if_pos isDir

/-- A directory that holds one has a link to lose. -/
theorem Counted.move_live (h : L.Counted root) (named : L.entry k = some i) (isDir : L.isDir i = true)
    (hj : L.Live j) : (L.move k k' i).Live j := by
  have hthree := h.three_le named isDir
  have hlinked := hj.linked
  refine ⟨hj.used, hj.isDir, ?_⟩
  rw [move_nlink isDir]
  by_cases hjk' : j = k'.1
  · subst hjk'
    by_cases hkk : k.1 = k'.1
    · rw [hkk, movedLinks_same]
      exact hlinked
    · rw [movedLinks_new _ hkk]
      exact Nat.succ_ne_zero _
  · by_cases hjk : j = k.1
    · subst hjk
      rw [movedLinks_old _ hjk']
      omega
    · rw [movedLinks_of_ne _ hjk hjk']
      exact hlinked

theorem Counted.of_move (h : L.Counted root) (named : L.entry k = some i) (live : L.Live k'.1)
    (isDir : L.isDir i = true) (hj : (L.move k k' i).Live j) : L.Live j := by
  by_cases hjk : j = k.1
  · subst hjk
    exact h.place named
  · by_cases hjk' : j = k'.1
    · subst hjk'
      exact live
    · refine Live.of_same hj rfl rfl ?_
      rw [move_nlink isDir, movedLinks_of_ne _ hjk hjk']

theorem Counted.move_entry (h : L.Counted root) (named : L.entry k = some i) (isDir : L.isDir i = true)
    (hk₀ : (L.move k k' i).entry k₀ = some j) :
    (k₀ = k' ∧ j = i) ∨ (j ≠ i ∧ L.entry k₀ = some j) := by
  obtain ⟨hne, hk₀⟩ := unbound_eq_some.mp hk₀
  rcases bound_eq_some.mp hk₀ with hnew | ⟨-, hold⟩
  · exact Or.inl hnew
  · refine Or.inr ⟨?_, hold⟩
    rintro rfl
    exact hne (h.once isDir hold named)

/-- The old entry is still there when the new one is made. -/
theorem bound_still {entry : ι × N → Option ι} (named : entry k = some i) :
    Function.update entry k' (some i) k = some i :=
  bound_eq_some.mpr (by_cases (fun hkk => Or.inl ⟨hkk, rfl⟩) fun hkk => Or.inr ⟨hkk, named⟩)

theorem Counted.move_children (h : L.Counted root) (named : L.entry k = some i)
    (live : L.Live k'.1) (free : L.entry k' = none) (isDir : L.isDir i = true)
    (hj : (L.move k k' i).Live j) :
    ∃ n, (L.move k k' i).nlink j = n + 2 ∧ Counts (L.move k k' i).entry
      (fun k₀ v => k₀.1 = j ∧ (L.move k k' i).isDir v = true) n := by
  have hstill : Function.update L.entry k' (some i) k = some i := bound_still named
  obtain ⟨n, hn, hcount⟩ := h.dir (h.of_move named live isDir hj)
  rw [move_nlink isDir]
  by_cases hjk : j = k.1
  · subst hjk
    have hpos : 0 < n := hcount.pos named ⟨rfl, isDir⟩
    by_cases hkk : k.1 = k'.1
    · refine ⟨n, ?_, ?_⟩
      · rw [← hkk, movedLinks_same, hn]
      · exact (hcount.bind free ⟨hkk.symm, isDir⟩).unbind hstill ⟨rfl, isDir⟩
    · refine ⟨n - 1, ?_, ?_⟩
      · rw [movedLinks_old _ hkk, hn]
        omega
      · exact (hcount.bind_other free fun hc => hkk hc.1.symm).unbind hstill ⟨rfl, isDir⟩
  · by_cases hjk' : j = k'.1
    · subst hjk'
      refine ⟨n + 1, ?_, ?_⟩
      · rw [movedLinks_new _ (Ne.symm hjk), hn]
      · exact (hcount.bind free ⟨rfl, isDir⟩).unbind_other hstill fun hc => hjk hc.1.symm
    · refine ⟨n, (movedLinks_of_ne L.nlink hjk hjk').trans hn, ?_⟩
      exact (hcount.bind_other free fun hc => hjk' hc.1.symm).unbind_other hstill
        fun hc => hjk hc.1.symm

theorem Counted.moveDir (h : L.Counted root) (named : L.entry k = some i) (live : L.Live k'.1)
    (free : L.entry k' = none) (outside : k'.1 ≠ i) (isDir : L.isDir i = true) :
    (L.move k k' i).Counted root := by
  have hup : (L.move k k' i).up = Function.update L.up i (some k'.1) := if_pos isDir
  have hstill : Function.update L.entry k' (some i) k = some i := bound_still named
  have hentry : ∀ {k₀ j}, (L.move k k' i).entry k₀ = some j →
      (k₀ = k' ∧ j = i) ∨ (j ≠ i ∧ L.entry k₀ = some j) := h.move_entry named isDir
  constructor
  case target =>
    intro k₀ j hk₀
    rcases hentry hk₀ with ⟨-, rfl⟩ | ⟨-, hold⟩
    · exact h.target named
    · exact h.target hold
  case place =>
    intro k₀ j hk₀
    rcases hentry hk₀ with ⟨rfl, -⟩ | ⟨-, hold⟩
    · exact h.move_live named isDir live
    · exact h.move_live named isDir (h.place hold)
  case loopless =>
    intro k₀ j hk₀
    rcases hentry hk₀ with ⟨rfl, rfl⟩ | ⟨-, hold⟩
    · exact outside
    · exact h.loopless hold
  case once =>
    intro k₀ k₁ j hj hk₀ hk₁
    rcases hentry hk₀ with ⟨rfl, rfl⟩ | ⟨hne, hold⟩
    · rcases hentry hk₁ with ⟨rfl, -⟩ | ⟨hne, -⟩
      · rfl
      · exact absurd rfl hne
    · rcases hentry hk₁ with ⟨-, rfl⟩ | ⟨-, hold'⟩
      · exact absurd rfl hne
      · exact h.once hj hold hold'
  case parent =>
    intro k₀ j hj hk₀
    rw [hup]
    rcases hentry hk₀ with ⟨rfl, rfl⟩ | ⟨hne, hold⟩
    · exact Function.update_self _ _ _
    · rw [Function.update_of_ne hne]
      exact h.parent hj hold
  case file =>
    intro j hused hj
    have hi : i ≠ j := dir_ne_file isDir hj
    rw [move_nlink isDir,
      movedLinks_of_ne _ ((h.place named).ne_file hj).symm (live.ne_file hj).symm]
    exact ((h.file hused hj).bind_other free hi).unbind_other hstill hi
  case dir => exact h.move_children named live free isDir
  case dead =>
    intro j hused hj hzero k₀ hk₀
    have hlinked : L.nlink j ≠ 0 := by
      rcases hentry hk₀ with ⟨-, rfl⟩ | ⟨-, hold⟩
      · exact h.linked_of_named named
      · exact h.linked_of_named hold
    exact (h.move_live named isDir ⟨hused, hj, hlinked⟩).linked hzero
  case linked =>
    intro j hj hroot
    by_cases hi : j = i
    · subst hi
      have hkk : k' ≠ k := by
        rintro rfl
        rw [free] at named
        cases named
      exact ⟨k', unbound_eq_some.mpr ⟨hkk, Function.update_self _ _ _⟩⟩
    · obtain ⟨k₀, hk₀⟩ := h.linked (h.of_move named live isDir hj) hroot
      exact ⟨k₀, unbound_of_some hstill (bound_of_some free hk₀) hi⟩
  case rootLive => exact h.move_live named isDir h.rootLive
  case top =>
    intro k₀ hk₀
    rcases hentry hk₀ with ⟨-, rfl⟩ | ⟨-, hold⟩
    · exact h.top k named
    · exact h.top k₀ hold
  case rootUp =>
    have hne : root ≠ i := by
      rintro rfl
      exact h.top k named
    rw [hup, Function.update_of_ne hne]
    exact h.rootUp

end Move

/-- Whatever happens, the link counts say what they should. -/
theorem Step.counted {L' : LinkGraph ι N} (step : L.Step L') (h : L.Counted root) :
    L'.Counted root := by
  cases step with
  | addFile i unused => exact h.addFile unused
  | link k i live free used file => exact h.link live free used file
  | unlink k i named file => exact h.unlink named file
  | mkdir k i live free unused => exact h.mkdir live free unused
  | rmdir k i parent named isDir empty => exact h.rmdir named isDir empty parent
  | move k k' i named live free outside =>
    cases isDir : L.isDir i with
    | true => exact h.moveDir named live free outside isDir
    | false =>
      rw [move_file isDir]
      exact (h.link live free (h.target named) isDir).unlink (bound_still named) isDir
  | evict i unlinked => exact h.evict unlinked

theorem Counted.run {L' : LinkGraph ι N} (h : L.Counted root)
    (steps : Relation.ReflTransGen Step L L') : L'.Counted root := by
  induction steps with
  | refl => exact h
  | tail _ step ih => exact step.counted ih

end Steps

end LinkGraph
