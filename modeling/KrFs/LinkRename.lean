import KrFs.LinkCalls

/-!
# `kr_rename` on the graph of names

A rename that succeeds takes the name away from what had it, if anything did, and then moves
the entry. The links of the two parents are the same as if the victim had been removed first.
-/

namespace KrFs

open KeyCount

/-- What `kr_rename` does to a tree. -/
def NameTree.rename (g : DirGeom) (oldDir newDir oldIno : Nat) (oldName newName : List UInt8)
    (newInode : Option Nat) (flags : UInt32) (env : RenameEnv) (t : NameTree) :
    Exec (Except Errno Unit) × NameTree :=
  let r := krRename g oldDir newDir oldIno oldName newName newInode flags env t.toDirTree
  (r.1, { t with toDirTree := r.2 })

namespace NameTree

/-- What the callers of `kr_rename` see to. -/
structure RenameRules (t : NameTree) (g : DirGeom) (oldDir newDir oldIno : Nat)
    (oldName newName : List UInt8) (newInode : Option Nat) : Prop extends t.At oldDir oldName where
  named : ∃ type, (t.dir oldDir).map g oldName = some (oldIno, type)
  new : t.At newDir newName
  found : ((t.dir newDir).map g newName).map Prod.fst = newInode
  other : newInode ≠ some oldIno
  kind : ∀ victim, newInode = some victim → S_ISDIR (t.mode victim) = S_ISDIR (t.mode oldIno)
  outside : newDir ≠ oldIno
  few : S_ISDIR (t.mode oldIno) = true → newInode = none → oldDir ≠ newDir → t.nlink newDir + 1 < 2 ^ 16

structure RenameSite (g : DirGeom) (root : Nat) (t : NameTree) (oldDir newDir oldIno : Nat)
    (oldName newName : List UInt8) (newInode : Option Nat) : Prop
    extends t.Site g root oldDir oldName,
      t.RenameRules g oldDir newDir oldIno oldName newName newInode

end NameTree

/-- Blocks of directories that are there can be written. -/
structure RenameEnv.Steady (env : RenameEnv) (newInode : Option Nat) : Prop where
  commit : env.link.commit = none
  link : newInode ≠ none → env.link.prepare = none
  prepare : env.delete.prepare = none
  delete : env.delete.commit = none
  dotdot : env.dotdot.prepare = none

namespace NameTree

/-- The link counts after the new entry is made. -/
def relinked (newDir : Nat) (newInode : Option Nat) (isDir : Bool) (t : NameTree) : NameTree :=
  match newInode with
  | some victim => (if isDir then t.dropNlink victim else t).dropNlink victim
  | none => if isDir then t.incNlink newDir else t

section Relinked

variable {newDir : Nat} {newInode : Option Nat} {isDir : Bool} {t : NameTree}

@[simp] theorem relinked_inUse : (t.relinked newDir newInode isDir).inUse = t.inUse := by
  unfold relinked
  cases newInode <;> cases isDir <;> rfl

@[simp] theorem relinked_mode : (t.relinked newDir newInode isDir).mode = t.mode := by
  unfold relinked
  cases newInode <;> cases isDir <;> rfl

@[simp] theorem relinked_dir : (t.relinked newDir newInode isDir).dir = t.dir := by
  unfold relinked
  cases newInode <;> cases isDir <;> rfl

@[simp] theorem relinked_setDir_nlink {i : Nat} {d : Dir} :
    ((t.setDir i d).relinked newDir newInode isDir).nlink = (t.relinked newDir newInode isDir).nlink := by
  unfold relinked
  cases newInode <;> cases isDir <;> rfl

end Relinked

section Rename

variable {g : DirGeom} {root : Nat} {t s : NameTree} {oldDir newDir oldIno : Nat}
  {oldName newName : List UInt8} {newInode : Option Nat} {flags : UInt32} {env : RenameEnv}

theorem RenameRules.site (hrules : t.RenameRules g oldDir newDir oldIno oldName newName newInode)
    (h : t.Sound g root) (hchunk : g.chunkBits ≤ 16) (hcount : g.sInodesCount < 2 ^ 32) :
    t.RenameSite g root oldDir newDir oldIno oldName newName newInode :=
  ⟨⟨h, hrules.toAt, hchunk, hcount⟩, hrules.named, hrules.new, hrules.found, hrules.other,
    hrules.kind, hrules.outside, hrules.few⟩

theorem Same.live (h : Same g t s) {i : Nat} (hi : t.Live i) : s.Live i := by
  refine ⟨?_, ?_, ?_⟩
  · rw [h.inUse]
    exact hi.inUse
  · rw [h.mode hi.inUse]
    exact hi.isDir
  · rw [h.nlink hi.inUse]
    exact hi.linked

theorem RenameSite.entry (h : t.RenameSite g root oldDir newDir oldIno oldName newName newInode) :
    (t.links g).entry (oldDir, oldName) = some oldIno := by
  obtain ⟨type, hnamed⟩ := h.named
  exact h.links_entry hnamed

theorem RenameSite.used (h : t.RenameSite g root oldDir newDir oldIno oldName newName newInode) :
    t.inUse oldIno = true := h.counted.target h.entry

theorem RenameSite.newEntry (h : t.RenameSite g root oldDir newDir oldIno oldName newName newInode) :
    (t.links g).entry (newDir, newName) = newInode := by
  rw [NameTree.links_entry h.new.live.isDirectory]
  unfold Dir.names
  rw [if_neg h.new.plain, h.found]

/-- The two names are not the same entry. -/
theorem RenameSite.places (h : t.RenameSite g root oldDir newDir oldIno oldName newName newInode) :
    (oldDir, oldName) ≠ (newDir, newName) := by
  intro heq
  have hentry := h.entry
  rw [heq, h.newEntry] at hentry
  exact h.other hentry

theorem RenameSite.of_same (h : t.RenameSite g root oldDir newDir oldIno oldName newName newInode)
    (hsame : Same g t s) : s.RenameSite g root oldDir newDir oldIno oldName newName newInode where
  placed := hsame.placed h.placed
  counted := by
    rw [hsame.links]
    exact h.counted
  chunk := h.chunk
  count := h.count
  live := hsame.live h.live
  nonempty := h.nonempty
  short := h.short
  plain := h.plain
  named := by
    rw [hsame.map h.live.inUse]
    exact h.named
  new := ⟨hsame.live h.new.live, h.new.nonempty, h.new.short, h.new.plain⟩
  found := by
    rw [hsame.map h.new.live.inUse]
    exact h.found
  other := h.other
  kind := by
    intro victim hvictim
    have hused : t.inUse victim = true := h.counted.target (h.newEntry.trans hvictim)
    rw [hsame.mode hused, hsame.mode h.used]
    exact h.kind victim hvictim
  outside := h.outside
  few := by
    rw [hsame.mode h.used, hsame.nlink h.new.live.inUse]
    exact h.few

/-- After the search for the old entry. -/
theorem RenameSite.searched (h : t.RenameSite g root oldDir newDir oldIno oldName newName newInode)
    {n de : Nat} {d : Dir} {scans : List Scan}
    (hfound : krFindEntry g (t.dir oldDir) oldName = (some (n, de), d, scans)) :
    Same g t (t.setDir oldDir d) ∧
      (t.setDir oldDir d).RenameSite g root oldDir newDir oldIno oldName newName newInode ∧
      (∃ w, ((t.setDir oldDir d).dir oldDir).slots g (n, de) = some (oldName, w)) ∧
      ((t.dir newDir).Grows g newName → ((t.setDir oldDir d).dir newDir).Grows g newName) := by
  obtain ⟨hstays, w, hslot⟩ := (h.placed.proper h.live).found h.short hfound
  have hsame : Same g t (t.setDir oldDir d) := .setDir hstays
  refine ⟨hsame, h.of_same hsame, ⟨w, ?_⟩, ?_⟩
  · rw [setDir_dir, Function.update_self, hstays.slots]
    exact hslot
  · intro hgrows
    obtain ⟨k, hk⟩ := krFindEntry_dir g (t.dir oldDir) oldName
    rw [hfound] at hk
    have hd : d = { t.dir oldDir with iDirStartLookup := k } := hk
    by_cases heq : newDir = oldDir
    · subst heq
      rw [setDir_dir, Function.update_self, hd]
      exact hgrows
    · rw [setDir_dir, Function.update_of_ne heq]
      exact hgrows

/-- How the new entry is made. -/
inductive NewEnd (g : DirGeom) (newDir oldIno : Nat) (newName : List UInt8) (newInode : Option Nat)
    (isDir : Bool) (s : NameTree) (r : Exec (Except Errno Unit) × DirTree) : Prop
  | unreturned (hret : ∀ e, r.1 ≠ .done e)
  | fails (err : Errno) (s' : NameTree) (hsame : Same g s s')
      (heq : r = (.done (.error err), s'.toDirTree))
  | enters (d : Dir) (type : UInt8) (hbinds : (s.dir newDir).Binds g newDir d newName (oldIno, type))
      (hempty : ∀ victim, newInode = some victim → isDir = true →
        (krEmptyDir g (s.dir victim)).1 = true)
      (heq : r = (.done (.ok ()), ((s.setDir newDir d).relinked newDir newInode isDir).toDirTree))

theorem RenameSite.new_end (h : s.RenameSite g root oldDir newDir oldIno oldName newName newInode)
    (henv : env.Steady newInode)
    (hgrows : newInode = none → env.link.prepare = none → (s.dir newDir).Grows g newName)
    (isDir : Bool) : NewEnd g newDir oldIno newName newInode isDir s
      (renameNew g newDir oldIno newName newInode isDir env s.toDirTree) := by
  have hproper := h.placed.proper h.new.live
  have hdot : newName ≠ [46] := fun heq => h.new.plain (Or.inl heq)
  have hvalid : (s.target oldIno).Valid g := ⟨(h.placed.number h.used).1, (h.placed.number h.used).2⟩
  unfold renameNew
  cases newInode with
  | some victim =>
    dsimp only
    by_cases hfull : (isDir && !(krEmptyDir g (s.dir victim)).1) = true
    · rw [if_pos hfull]
      exact .fails .enotempty s (.refl s) rfl
    · rw [if_neg hfull]
      have hempty : isDir = true → (krEmptyDir g (s.dir victim)).1 = true := by
        intro hisDir
        simpa [hisDir] using hfull
      rcases hfound : krFindEntry g (s.dir newDir) newName with ⟨_ | ⟨n, de⟩, d, scans⟩
      · have hstays := hproper.find newName
        rw [hfound] at hstays
        exact .fails .enoent (s.setDir newDir d) (.setDir hstays) rfl
      · obtain ⟨hstays, w, hslot⟩ := hproper.found h.new.short hfound
        rw [← hstays.slots] at hslot
        obtain ⟨hret, hbinds⟩ := krSetLink_binds h.count hstays.proper hslot hdot hvalid
          (henv.link (Option.some_ne_none victim))
        refine .enters _ _ (hstays.binds hbinds) ?_ ?_
        · intro v hv
          cases hv
          exact hempty
        · dsimp only
          unfold DirCall.next
          rw [hret]
          cases isDir <;> rfl
  | none =>
    have hfree : (s.dir newDir).map g newName = none := Option.map_eq_none_iff.mp h.found
    have hend := krAddLink_end h.chunk h.count hproper h.new.nonempty h.new.short hdot hfree hvalid
      henv.commit (hgrows rfl)
    dsimp only
    unfold DirCall.next
    cases hend with
    | running hret =>
      rw [hret]
      refine .unreturned fun e he => ?_
      cases he
    | fails err hprepare hret hstays =>
      rw [hret]
      exact .fails err _ (.setDir hstays) rfl
    | enters hprepare hret hbinds =>
      rw [hret]
      refine .enters _ _ hbinds ?_ ?_
      · intro victim hvictim
        cases hvictim
      · cases isDir <;> rfl

/-- The entry has gone from one directory to the other, and the links are as they were. -/
structure Carried (g : DirGeom) (s t : NameTree) (oldDir newDir oldIno : Nat)
    (oldName newName : List UInt8) : Prop where
  inUse : t.inUse = s.inUse
  mode : t.mode = s.mode
  nlink : t.nlink = s.nlink
  placed : t.Placed g
  links : t.links g = { s.links g with
    entry := Function.update (Function.update (s.links g).entry (newDir, newName) (some oldIno))
      (oldDir, oldName) none
    up := if s.isDirectory oldIno then Function.update (s.links g).up oldIno (some newDir)
      else (s.links g).up }

/-- Nothing but link counts is different. -/
structure Relinks (t t' : NameTree) : Prop where
  inUse : t'.inUse = t.inUse
  mode : t'.mode = t.mode
  dir : t'.dir = t.dir

/-- The new link counts are to be those of a run of the graph. -/
theorem Carried.follows {s' : NameTree} (h : Carried g s t oldDir newDir oldIno oldName newName)
    (hrelinks : t.Relinks s') (hbound : ∀ {i}, s.inUse i = true → s'.nlink i < 2 ^ 16)
    (hlinked : ∀ {i}, s.inUse i = true → s'.nlink i ≠ 0 → s.nlink i ≠ 0)
    (hsteps : Relation.ReflTransGen (LinkGraph.Turn oldIno newDir) (s.links g) { t.links g with
      nlink := fun j => if s.inUse j = true then s'.nlink j else 0 }) :
    FollowsBy (LinkGraph.Turn oldIno newDir) g s s' := by
  have hin : ∀ {i}, s'.inUse i = true → s.inUse i = true := by
    intro i hi
    rw [hrelinks.inUse, h.inUse] at hi
    exact hi
  constructor
  · apply h.placed.recount hrelinks.inUse hrelinks.mode hrelinks.dir
    · intro i hi
      rw [h.inUse] at hi
      exact hbound hi
    · intro i hi
      rw [h.nlink]
      exact hlinked (hin hi.inUse) hi.linked
  · rw [links_recount hrelinks.inUse hrelinks.mode hrelinks.dir, h.inUse]
    exact hsteps

theorem links_movedLinks (hold : s.inUse oldDir = true) (hnew : s.inUse newDir = true)
    (nlink : Nat → Nat) :
    (fun j => if s.inUse j = true then LinkGraph.movedLinks nlink oldDir newDir j else 0) =
      LinkGraph.movedLinks (fun j => if s.inUse j = true then nlink j else 0) oldDir newDir := by
  unfold LinkGraph.movedLinks
  dsimp only
  rw [links_update_nlink hold, links_update_nlink hnew, if_pos hnew]
  by_cases heq : oldDir = newDir
  · subst heq
    rw [Function.update_self, Function.update_self]
  · rw [Function.update_of_ne heq, Function.update_of_ne heq, if_pos hold]

/-- A new name for the object. -/
theorem RenameSite.follows_new (h : s.RenameSite g root oldDir newDir oldIno oldName newName none)
    (hcarried : Carried g s t oldDir newDir oldIno oldName newName) {s' : NameTree}
    (hrelinks : t.Relinks s') (hnlink : s'.nlink =
      if s.isDirectory oldIno then LinkGraph.movedLinks s.nlink oldDir newDir else s.nlink) :
    FollowsBy (LinkGraph.Turn oldIno newDir) g s s' := by
  have hnew := h.placed.bound h.new.live.inUse
  have hle : ∀ {i}, i ≠ newDir → s'.nlink i ≤ s.nlink i := by
    intro i hi
    rw [hnlink]
    split
    · exact LinkGraph.movedLinks_le _ hi
    · exact le_rfl
  apply hcarried.follows hrelinks
  · intro i hi
    have hbound := h.placed.bound hi
    by_cases heq : i = newDir
    · subst heq
      rw [hnlink]
      split
      · rename_i hisDir
        by_cases hdirs : oldDir = i
        · subst hdirs
          rw [LinkGraph.movedLinks_same]
          exact hnew
        · rw [LinkGraph.movedLinks_new _ hdirs]
          exact h.few (isDirectory_iff.mp hisDir).2 rfl hdirs
      · exact hnew
    · exact (hle heq).trans_lt hbound
  · intro i hi hlinked
    by_cases heq : i = newDir
    · subst heq
      exact h.new.live.linked
    · have hsmall := hle heq
      omega
  · have hlinks : (fun j => if s.inUse j = true then s'.nlink j else 0) =
        ((s.links g).move (oldDir, oldName) (newDir, newName) oldIno).nlink := by
      rw [hnlink]
      show _ = if s.isDirectory oldIno = true then _ else _
      split
      · exact links_movedLinks h.live.inUse h.new.live.inUse s.nlink
      · rfl
    rw [hlinks, hcarried.links]
    exact .single (.move (oldDir, oldName) newName h.entry (live_links.mpr h.new.live) h.newEntry
      h.outside)

/-- The name of a file is taken away for another. -/
theorem RenameSite.follows_file {victim : Nat}
    (h : s.RenameSite g root oldDir newDir oldIno oldName newName (some victim))
    (hcarried : Carried g s t oldDir newDir oldIno oldName newName) {s' : NameTree}
    (hrelinks : t.Relinks s') (hfile : S_ISDIR (s.mode oldIno) = false)
    (hnlink : s'.nlink = Function.update s.nlink victim (s.nlink victim - 1)) :
    FollowsBy (LinkGraph.Turn oldIno newDir) g s s' := by
  have hused : s.inUse victim = true := h.counted.target h.newEntry
  have hle : ∀ i, s'.nlink i ≤ s.nlink i := by
    intro i
    rw [hnlink]
    by_cases hi : i = victim
    · subst hi
      rw [Function.update_self]
      exact Nat.sub_le _ _
    · rw [Function.update_of_ne hi]
  have hkind : s.isDirectory oldIno = false := by
    rw [isDirectory, hfile, Bool.and_false]
  have hvictim : s.isDirectory victim = false := by
    rw [isDirectory, h.kind victim rfl, hfile, Bool.and_false]
  apply hcarried.follows hrelinks
  · intro i hi
    exact (hle i).trans_lt (h.placed.bound hi)
  · intro i hi hlinked
    have hsmall := hle i
    omega
  · have hlinks : (fun j => if s.inUse j = true then s'.nlink j else 0) =
        Function.update (s.links g).nlink victim ((s.links g).nlink victim - 1) := by
      have hgraph : (s.links g).nlink victim = s.nlink victim := links_nlink hused
      rw [hnlink, links_update_nlink hused, hgraph]
      rfl
    have hmoved : { t.links g with nlink := fun j => if s.inUse j = true then s'.nlink j else 0 } =
        ((s.links g).unlink (newDir, newName) victim).move (oldDir, oldName) (newDir, newName)
          oldIno := by
      rw [hlinks, hcarried.links, LinkGraph.move_unlinked hkind, hkind]
      rfl
    have hlive : ((s.links g).unlink (newDir, newName) victim).Live newDir := by
      refine ⟨h.new.live.inUse, h.new.live.isDirectory, ?_⟩
      have hlink : ((s.links g).unlink (newDir, newName) victim).nlink newDir =
          (s.links g).nlink newDir := Function.update_of_ne (h.counted.loopless h.newEntry) _ _
      rw [hlink, links_nlink h.new.live.inUse]
      exact h.new.live.linked
    rw [hmoved]
    refine (Relation.ReflTransGen.single (.edit (.unlink (newDir, newName) victim h.newEntry hvictim)
      (live_links.mpr h.new.live) hlive)).tail ?_
    refine .move (oldDir, oldName) newName ?_ hlive ?_ h.outside
    · exact (Function.update_of_ne h.places _ _).trans h.entry
    · exact Function.update_self _ _ _

/-- The name of an empty directory is taken away for another one. -/
theorem RenameSite.follows_dir {victim : Nat}
    (h : s.RenameSite g root oldDir newDir oldIno oldName newName (some victim))
    (hcarried : Carried g s t oldDir newDir oldIno oldName newName) {s' : NameTree}
    (hrelinks : t.Relinks s') (hdir : S_ISDIR (s.mode oldIno) = true)
    (hnone : (s.dir victim).names g = fun _ => none)
    (hnlink : s'.nlink =
      Function.update (Function.update s.nlink victim 0) oldDir (s.nlink oldDir - 1)) :
    FollowsBy (LinkGraph.Turn oldIno newDir) g s s' := by
  have hused : s.inUse victim = true := h.counted.target h.newEntry
  have hkind : s.isDirectory oldIno = true := isDirectory_iff.mpr ⟨h.used, hdir⟩
  have hvictim : s.isDirectory victim = true :=
    isDirectory_iff.mpr ⟨hused, (h.kind victim rfl).trans hdir⟩
  have hleaf : ∀ n, (s.links g).entry (victim, n) = none := by
    intro n
    rw [NameTree.links_entry hvictim, hnone]
  have hapart : oldDir ≠ victim := by
    rintro rfl
    have hentry := h.entry
    rw [hleaf oldName] at hentry
    cases hentry
  have hloopless : newDir ≠ victim := h.counted.loopless h.newEntry
  have hthree : 3 ≤ (s.links g).nlink newDir := h.counted.three_le h.newEntry hvictim
  have hpos : 0 < (s.links g).nlink newDir := by omega
  have hle : ∀ i, s'.nlink i ≤ s.nlink i := by
    intro i
    rw [hnlink]
    by_cases hi : i = oldDir
    · subst hi
      rw [Function.update_self]
      exact Nat.sub_le _ _
    · rw [Function.update_of_ne hi]
      by_cases hi' : i = victim
      · subst hi'
        rw [Function.update_self]
        exact Nat.zero_le _
      · rw [Function.update_of_ne hi']
  apply hcarried.follows hrelinks
  · intro i hi
    exact (hle i).trans_lt (h.placed.bound hi)
  · intro i hi hlinked
    have hsmall := hle i
    omega
  · have hlinks : (fun j => if s.inUse j = true then s'.nlink j else 0) =
        Function.update (Function.update (s.links g).nlink victim 0) oldDir
          ((s.links g).nlink oldDir - 1) := by
      have hgraph : (s.links g).nlink oldDir = s.nlink oldDir := links_nlink h.live.inUse
      rw [hnlink, links_update_nlink h.live.inUse, links_update_nlink hused, hgraph]
      rfl
    have hmoved : { t.links g with nlink := fun j => if s.inUse j = true then s'.nlink j else 0 } =
        ((s.links g).rmdir (newDir, newName) victim ((s.links g).up victim)).move (oldDir, oldName)
          (newDir, newName) oldIno := by
      rw [hlinks, hcarried.links, LinkGraph.move_removed hkind hloopless.symm hapart hpos, hkind]
      rfl
    have hlive : ((s.links g).rmdir (newDir, newName) victim ((s.links g).up victim)).Live newDir := by
      have hlink : ((s.links g).rmdir (newDir, newName) victim ((s.links g).up victim)).nlink newDir =
          (s.links g).nlink newDir - 1 := Function.update_self _ _ _
      refine ⟨h.new.live.inUse, h.new.live.isDirectory, ?_⟩
      rw [hlink]
      omega
    rw [hmoved]
    refine (Relation.ReflTransGen.single (.edit (.rmdir (newDir, newName) victim
      ((s.links g).up victim) h.newEntry hvictim hleaf) (live_links.mpr h.new.live) hlive)).tail ?_
    refine .move (oldDir, oldName) newName ?_ hlive ?_ h.outside
    · exact (Function.update_of_ne h.places _ _).trans h.entry
    · exact Function.update_self _ _ _

/-- The link counts that the code has come to. -/
theorem RenameSite.follows (h : s.RenameSite g root oldDir newDir oldIno oldName newName newInode)
    (hcarried : Carried g s t oldDir newDir oldIno oldName newName) {s' : NameTree}
    (hrelinks : t.Relinks s')
    (hempty : ∀ victim, newInode = some victim → S_ISDIR (s.mode oldIno) = true →
      (krEmptyDir g (s.dir victim)).1 = true)
    (hnlink : s'.nlink = if S_ISDIR (s.mode oldIno) then
        ((s.relinked newDir newInode true).dropNlink oldDir).nlink
      else (s.relinked newDir newInode false).nlink) :
    FollowsBy (LinkGraph.Turn oldIno newDir) g s s' := by
  have hentry := h.entry
  have hold := h.placed.bound h.live.inUse
  have hnew := h.placed.bound h.new.live.inUse
  cases hdir : S_ISDIR (s.mode oldIno) with
  | false =>
    rw [hdir, if_neg Bool.false_ne_true] at hnlink
    have hfile : s.isDirectory oldIno = false := by
      rw [isDirectory, hdir, Bool.and_false]
    cases newInode with
    | none =>
      refine h.follows_new hcarried hrelinks ?_
      rw [hnlink, hfile]
      rfl
    | some victim =>
      have hused : s.inUse victim = true := h.counted.target h.newEntry
      have hlinked := h.counted.linked_of_named h.newEntry
      rw [links_nlink hused] at hlinked
      have hbound := h.placed.bound hused
      refine h.follows_file hcarried hrelinks hdir ?_
      have hdrop : sub32 (s.nlink victim) 1 = s.nlink victim - 1 := sub32_of_le (by omega) (by omega)
      rw [hnlink, ← hdrop]
      rfl
  | true =>
    rw [hdir, if_pos rfl] at hnlink
    have hisDir : s.isDirectory oldIno = true := isDirectory_iff.mpr ⟨h.used, hdir⟩
    have hthree := h.counted.three_le hentry hisDir
    rw [links_nlink h.live.inUse] at hthree
    cases newInode with
    | none =>
      refine h.follows_new hcarried hrelinks ?_
      have hone : Function.update s.nlink newDir (s.nlink newDir + 1) oldDir ≤ s.nlink oldDir + 1 ∧
          1 ≤ Function.update s.nlink newDir (s.nlink newDir + 1) oldDir := by
        by_cases heq : oldDir = newDir
        · subst heq
          rw [Function.update_self]
          omega
        · rw [Function.update_of_ne heq]
          omega
      have hmod : (s.nlink newDir + 1) % 2 ^ 32 = s.nlink newDir + 1 := Nat.mod_eq_of_lt (by omega)
      rw [hnlink, hisDir, if_pos rfl]
      unfold relinked LinkGraph.movedLinks
      simp only [if_true, dropNlink_nlink, incNlink_nlink, hmod]
      rw [sub32_of_le hone.2 (by omega)]
    | some victim =>
      have hvictim : s.Live victim := by
        have hused : s.inUse victim = true := h.counted.target h.newEntry
        have hlinked := h.counted.linked_of_named h.newEntry
        rw [links_nlink hused] at hlinked
        exact ⟨hused, (h.kind victim rfl).trans hdir, hlinked⟩
      have hnone := h.placed.names_none hvictim (hempty victim rfl hdir)
      have htwo : s.nlink victim = 2 := by
        have hlinks := h.counted.leaf (live_links.mpr hvictim) fun n => by
          rw [NameTree.links_entry hvictim.isDirectory, hnone]
        rwa [links_nlink hvictim.inUse] at hlinks
      refine h.follows_dir hcarried hrelinks hdir hnone ?_
      have hapart : oldDir ≠ victim := by
        rintro rfl
        rw [NameTree.links_entry hvictim.isDirectory, hnone] at hentry
        cases hentry
      have hone : sub32 2 1 = 1 := rfl
      have hzero : sub32 1 1 = 0 := rfl
      have hdrop : sub32 (s.nlink oldDir) 1 = s.nlink oldDir - 1 := sub32_of_le (by omega) (by omega)
      rw [hnlink]
      simp [relinked, htwo, hone, hzero, hapart, hdrop]

/-- The tree with both entries changed. -/
theorem RenameSite.entries (h : s.RenameSite g root oldDir newDir oldIno oldName newName newInode)
    {d f : Dir} {type : UInt8} (hbinds : (s.dir newDir).Binds g newDir d newName (oldIno, type))
    (hdrops : ((s.setDir newDir d).dir oldDir).Drops g oldDir f oldName) :
    ((s.setDir newDir d).setDir oldDir f).Placed g ∧
      ((s.setDir newDir d).setDir oldDir f).links g = { s.links g with
        entry := Function.update (Function.update (s.links g).entry (newDir, newName) (some oldIno))
          (oldDir, oldName) none } := by
  obtain ⟨hbound, hup⟩ := Dir.names_update h.new.plain hbinds.map
  obtain ⟨hdropped, hup'⟩ := Dir.names_update h.plain hdrops.map
  have hisDir : (s.setDir newDir d).isDirectory oldDir = true := h.live.isDirectory
  constructor
  · exact (h.placed.setDir hbinds.proper).setDir hdrops.proper
  · rw [links_setDir_entry hisDir hdropped hup', links_setDir_entry h.new.live.isDirectory hbound hup]
    rfl

/-- A file, or a directory that stays with its parent, has what it had for its parent. -/
theorem RenameSite.carried_kept
    (h : s.RenameSite g root oldDir newDir oldIno oldName newName newInode) {d f : Dir} {type : UInt8}
    (hbinds : (s.dir newDir).Binds g newDir d newName (oldIno, type))
    (hdrops : ((s.setDir newDir d).dir oldDir).Drops g oldDir f oldName)
    (hkeeps : s.isDirectory oldIno = true → oldDir = newDir) :
    Carried g s ((s.setDir newDir d).setDir oldDir f) oldDir newDir oldIno oldName newName := by
  obtain ⟨hplaced, hlinks⟩ := h.entries hbinds hdrops
  refine ⟨rfl, rfl, rfl, hplaced, ?_⟩
  rw [hlinks]
  cases hdir : s.isDirectory oldIno with
  | false => rfl
  | true =>
    have hup : (s.links g).up oldIno = some newDir := hkeeps hdir ▸ h.counted.parent hdir h.entry
    rw [if_pos rfl, ← hup, Function.update_eq_self]

/-- A directory that is moved has a new parent. -/
theorem RenameSite.carried_up
    (h : s.RenameSite g root oldDir newDir oldIno oldName newName newInode) {d f e : Dir}
    {type type' : UInt8} (hbinds : (s.dir newDir).Binds g newDir d newName (oldIno, type))
    (hdrops : ((s.setDir newDir d).dir oldDir).Drops g oldDir f oldName)
    (hdir : s.isDirectory oldIno = true)
    (hparent : (s.dir oldIno).Binds g oldIno e [46, 46] (newDir, type')) :
    Carried g s (((s.setDir newDir d).setDir oldDir f).setDir oldIno e) oldDir newDir oldIno oldName
      newName := by
  obtain ⟨hplaced, hlinks⟩ := h.entries hbinds hdrops
  obtain ⟨hnames, hup⟩ := Dir.up_update hparent.map
  have hobject : ((s.setDir newDir d).setDir oldDir f).dir oldIno = s.dir oldIno := by
    simp [(h.counted.loopless h.entry).symm, h.outside.symm]
  have hisDir : ((s.setDir newDir d).setDir oldDir f).isDirectory oldIno = true := hdir
  refine ⟨rfl, rfl, rfl, hplaced.setDir hparent.proper, ?_⟩
  rw [← hobject] at hnames
  rw [links_setDir_up hisDir hnames, hlinks, hup, hdir, if_pos rfl]

/-- The old entry is still there when the new one has been made. -/
theorem RenameSite.old_entry
    (h : s.RenameSite g root oldDir newDir oldIno oldName newName newInode) {n de : Nat}
    {w : Nat × UInt8} (hslot : (s.dir oldDir).slots g (n, de) = some (oldName, w)) {d : Dir}
    {v : Nat × UInt8} (hbinds : (s.dir newDir).Binds g newDir d newName v) :
    ((s.setDir newDir d).dir oldDir).Proper g oldDir ∧
      ((s.setDir newDir d).dir oldDir).slots g (n, de) = some (oldName, w) := by
  by_cases heq : oldDir = newDir
  · subst heq
    rw [setDir_dir, Function.update_self]
    exact ⟨hbinds.proper, hbinds.keeps (fun hname => h.places (by rw [hname])) hslot⟩
  · rw [setDir_dir, Function.update_of_ne heq]
    exact ⟨h.placed.proper h.live, hslot⟩

/-- It is then deleted. -/
theorem RenameSite.deletes (h : s.RenameSite g root oldDir newDir oldIno oldName newName newInode)
    (henv : env.Steady newInode) {n de : Nat} {w : Nat × UInt8}
    (hslot : (s.dir oldDir).slots g (n, de) = some (oldName, w)) {d : Dir} {type : UInt8}
    (hbinds : (s.dir newDir).Binds g newDir d newName (oldIno, type)) :
    (krDeleteEntry g ((s.setDir newDir d).dir oldDir) n de env.delete).ret = .done (.ok ()) ∧
      ((s.setDir newDir d).dir oldDir).Drops g oldDir
        (krDeleteEntry g ((s.setDir newDir d).dir oldDir) n de env.delete).dir oldName := by
  obtain ⟨hproper, hslot'⟩ := h.old_entry hslot hbinds
  exact krDeleteEntry_drops h.chunk hproper hslot' (fun heq => h.plain (Or.inl heq))
    (fun heq => h.plain (Or.inr heq)) henv.prepare henv.delete

/-- The new `..` of a directory that is moved. -/
theorem RenameSite.parent_follows
    (h : s.RenameSite g root oldDir newDir oldIno oldName newName newInode)
    (henv : env.Steady newInode) (hdir : S_ISDIR (s.mode oldIno) = true) {d f : Dir} {type : UInt8}
    (hbinds : (s.dir newDir).Binds g newDir d newName (oldIno, type))
    (hdrops : ((s.setDir newDir d).dir oldDir).Drops g oldDir f oldName)
    (hempty : ∀ victim, newInode = some victim → S_ISDIR (s.mode oldIno) = true →
      (krEmptyDir g (s.dir victim)).1 = true) :
    ∃ s' : NameTree, s'.inUse = s.inUse ∧ FollowsBy (LinkGraph.Turn oldIno newDir) g s s' ∧
      renameParent g oldDir newDir oldIno (some 12) env
        (((s.setDir newDir d).relinked newDir newInode true).setDir oldDir f).toDirTree =
          (.done (.ok ()), s'.toDirTree) := by
  have hloopless : oldDir ≠ oldIno := h.counted.loopless h.entry
  have hisDir : s.isDirectory oldIno = true := isDirectory_iff.mpr ⟨h.used, hdir⟩
  have hnlink : (((s.setDir newDir d).relinked newDir newInode true).dropNlink oldDir).nlink =
      ((s.relinked newDir newInode true).dropNlink oldDir).nlink := by
    simp
  unfold renameParent
  dsimp only
  by_cases heq : oldDir = newDir
  · rw [if_neg (not_not.mpr heq)]
    have hcarried := h.carried_kept hbinds hdrops fun _ => heq
    refine ⟨(((s.setDir newDir d).relinked newDir newInode true).setDir oldDir f).dropNlink oldDir,
      ?_, ?_, rfl⟩
    · simp
    · refine h.follows hcarried ⟨?_, ?_, ?_⟩ hempty ?_
      · simp
      · simp
      · simp
      · rw [hdir, if_pos rfl, ← hnlink]
        rfl
  · rw [if_pos heq]
    have hlinked := h.counted.linked_of_named h.entry
    rw [links_nlink h.used] at hlinked
    have hobject := h.placed.proper ⟨h.used, hdir, hlinked⟩
    obtain ⟨w, hdotdot⟩ := hobject.dotdot
    have hvalid : (s.target newDir).Valid g :=
      ⟨(h.placed.number h.new.live.inUse).1, (h.placed.number h.new.live.inUse).2⟩
    obtain ⟨hset, hparent⟩ := krSetLink_binds h.count hobject hdotdot (by decide) hvalid henv.dotdot
    have hkept : (((s.setDir newDir d).relinked newDir newInode true).setDir oldDir f).dir oldIno =
        s.dir oldIno := by
      simp [hloopless.symm, h.outside.symm]
    have htarget : (((s.setDir newDir d).relinked newDir newInode true).setDir oldDir f).target newDir =
        s.target newDir := by
      simp [DirTree.target]
    rw [hkept, htarget]
    unfold DirCall.next
    rw [hset]
    dsimp only
    generalize (krSetLink g (s.dir oldIno) 0 12 (s.target newDir) env.dotdot).dir = e at hparent ⊢
    have hcarried := h.carried_up hbinds hdrops hisDir hparent
    refine ⟨((((s.setDir newDir d).relinked newDir newInode true).setDir oldDir f).setDir oldIno
      e).dropNlink oldDir, ?_, ?_, rfl⟩
    · simp
    · refine h.follows hcarried ⟨?_, ?_, ?_⟩ hempty ?_
      · simp
      · simp
      · simp
      · rw [hdir, if_pos rfl, ← hnlink]
        rfl

/-- The rest of a rename after the new entry. -/
theorem RenameSite.old_follows (h : s.RenameSite g root oldDir newDir oldIno oldName newName newInode)
    (henv : env.Steady newInode) {n de : Nat} {w : Nat × UInt8}
    (hslot : (s.dir oldDir).slots g (n, de) = some (oldName, w)) {d : Dir} {type : UInt8}
    (hbinds : (s.dir newDir).Binds g newDir d newName (oldIno, type))
    (hempty : ∀ victim, newInode = some victim → S_ISDIR (s.mode oldIno) = true →
      (krEmptyDir g (s.dir victim)).1 = true) {dirDe : Option Nat}
    (hdirDe : dirDe = if S_ISDIR (s.mode oldIno) then krDotdot g (s.dir oldIno) else none) :
    ∃ s' : NameTree, s'.inUse = s.inUse ∧ FollowsBy (LinkGraph.Turn oldIno newDir) g s s' ∧
      renameOld g oldDir newDir oldIno n de dirDe env
        ((s.setDir newDir d).relinked newDir newInode (S_ISDIR (s.mode oldIno))).toDirTree =
          (.done (.ok ()), s'.toDirTree) := by
  obtain ⟨hret, hdrops⟩ := h.deletes henv hslot hbinds
  unfold renameOld DirCall.next
  rw [relinked_dir]
  dsimp only
  rw [hret]
  dsimp only
  generalize (krDeleteEntry g ((s.setDir newDir d).dir oldDir) n de env.delete).dir = f at hdrops ⊢
  cases hdir : S_ISDIR (s.mode oldIno) with
  | false =>
    rw [hdir, if_neg Bool.false_ne_true] at hdirDe
    have hfile : s.isDirectory oldIno ≠ true := by
      rw [isDirectory, hdir, Bool.and_false]
      exact Bool.false_ne_true
    have hcarried := h.carried_kept hbinds hdrops fun hisDir => absurd hisDir hfile
    subst hdirDe
    refine ⟨((s.setDir newDir d).relinked newDir newInode false).setDir oldDir f, ?_, ?_, rfl⟩
    · simp
    · refine h.follows hcarried ⟨?_, ?_, ?_⟩ hempty ?_
      · simp
      · simp
      · simp
      · rw [hdir, if_neg Bool.false_ne_true]
        simp
  | true =>
    have hlinked := h.counted.linked_of_named h.entry
    rw [links_nlink h.used] at hlinked
    have hobject := h.placed.proper ⟨h.used, hdir, hlinked⟩
    rw [hdir, if_pos rfl, hobject.krDotdot] at hdirDe
    subst hdirDe
    exact h.parent_follows henv hdir hbinds hdrops hempty

/-- A call of `kr_rename` that returns has followed steps of the graph. -/
theorem RenameSite.rename_tracks
    (h : t.RenameSite g root oldDir newDir oldIno oldName newName newInode)
    (henv : env.Steady newInode)
    (hgrows : env.Searches flags → newInode = none → env.link.prepare = none →
      (t.dir newDir).Grows g newName) :
    t.TracksBy (LinkGraph.Turn oldIno newDir) g
      (t.rename g oldDir newDir oldIno oldName newName newInode flags env) := by
  have hproper := h.placed.proper h.live
  have hcases : RenameCases g oldDir newDir oldIno oldName newName newInode flags env t.toDirTree
      (krRename g oldDir newDir oldIno oldName newName newInode flags env t.toDirTree) :=
    krRename_cases
  unfold rename
  dsimp only
  generalize krRename g oldDir newDir oldIno oldName newName newInode flags env t.toDirTree = r
    at hcases ⊢
  cases hcases with
  | early err t' htree hcause heq =>
    subst heq
    rcases htree with rfl | rfl
    · exact (Same.refl t).tracks h.placed
    · exact (Same.setDir (hproper.find oldName)).tracks h.placed
  | stopped n de d scans hsearches hfound hret heq =>
    obtain ⟨hsame, hsite, -, hgrows'⟩ := h.searched hfound
    have hend := hsite.new_end henv (fun hnone hprepare => hgrows' (hgrows hsearches hnone hprepare))
      (S_ISDIR (t.mode oldIno))
    have heq' : r = renameNew g newDir oldIno newName newInode (S_ISDIR (t.mode oldIno)) env
      (t.setDir oldDir d).toDirTree := heq
    rw [← heq'] at hend
    cases hend with
    | unreturned hnever => exact fun e he => absurd he (hnever e)
    | fails err s' hsame' hr =>
      have hinUse : s'.inUse = t.inUse := hsame'.inUse
      rw [hr, ← hinUse]
      exact ((hsame.follows h.placed).trans (hsame'.follows hsite.placed)).tracks
    | enters d' type hbinds hempty hr =>
      rw [hr] at hret
      exact absurd rfl hret
  | moved n de d scans dirDe t' hsearches hfound hdirDe hsome hnew heq =>
    obtain ⟨hsame, hsite, ⟨w, hslot⟩, hgrows'⟩ := h.searched hfound
    have hend := hsite.new_end henv (fun hnone hprepare => hgrows' (hgrows hsearches hnone hprepare))
      (S_ISDIR (t.mode oldIno))
    have hnew' : renameNew g newDir oldIno newName newInode (S_ISDIR (t.mode oldIno)) env
      (t.setDir oldDir d).toDirTree = (.done (.ok ()), t') := hnew
    rw [hnew'] at hend
    cases hend with
    | unreturned hnever => exact absurd rfl (hnever (.ok ()))
    | fails err s' hsame' hr => cases hr
    | enters d' type hbinds hempty hr =>
      cases hr
      obtain ⟨s', hinUse, hfollows, hold⟩ := hsite.old_follows henv hslot hbinds hempty hdirDe
      have hr : r = (.done (.ok ()), s'.toDirTree) := heq.trans hold
      have hinUse' : s'.inUse = t.inUse := hinUse
      rw [hr, ← hinUse']
      exact ((hsame.follows h.placed).trans hfollows).tracks

end Rename

end NameTree

end KrFs
