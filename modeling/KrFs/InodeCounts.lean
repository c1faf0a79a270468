import KrFs.BlockOwner
import KrFs.Ialloc
import KrFs.Lib.Trace

/-!
# The counts of inodes

Four places say how many inodes are free and how many are directories: the inode bitmaps,
two fields of each descriptor and two counters in memory. They are followed through runs
of `kr_new_inode` and `kr_free_inode`. `kr_release_inode` leaves one of them behind.
-/

namespace KrFs

open Bitmap

namespace Fs

/-- The bit of an allocated directory. -/
def usedDir (fs : Fs) (group bit : Nat) : Bool :=
  fs.inodeBitmap group bit && S_ISDIR (fs.inode (group * fs.sbi.sInodesPerGroup + bit + 1)).iMode

def dirCount (fs : Fs) (group : Nat) : Nat := setCount (fs.usedDir group) fs.sbi.sInodesPerGroup

/-- `kr_count_free_inodes`. -/
def krCountFreeInodes (fs : Fs) : Int :=
  ∑ g ∈ Finset.range fs.sbi.sGroupsCount, ((fs.desc g).bgFreeInodesCount.toNat : Int)

/-- `kr_count_dirs`. -/
def krCountDirs (fs : Fs) : Int :=
  ∑ g ∈ Finset.range fs.sbi.sGroupsCount, ((fs.desc g).bgUsedDirsCount.toNat : Int)

/-- The descriptors agree with the bitmaps, and the counter of directories with the
descriptors. -/
structure InodeCounts (fs : Fs) : Prop where
  free : ∀ g < fs.sbi.sGroupsCount, (fs.desc g).bgFreeInodesCount.toNat =
    clearCount (fs.inodeBitmap g) fs.sbi.sInodesPerGroup
  dirs : ∀ g < fs.sbi.sGroupsCount, (fs.desc g).bgUsedDirsCount.toNat = fs.dirCount g
  dirsCounter : fs.sDirsCounter = fs.krCountDirs

/-- All four places agree. -/
structure InodeCountsAgree (fs : Fs) : Prop extends fs.InodeCounts where
  freeCounter : fs.sFreeinodesCounter = fs.krCountFreeInodes

end Fs

/-! ## One inode -/

section Change

variable {fs fs' : Fs} {group bit : Nat}

theorem Fs.inode_number_inj {n g1 g2 b1 b2 : Nat} (h1 : b1 < n) (h2 : b2 < n)
    (h : g1 * n + b1 + 1 = g2 * n + b2 + 1) : g1 = g2 ∧ b1 = b2 := by
  have hsum : g1 * n + b1 = g2 * n + b2 := by omega
  have hg : g1 = g2 := by
    have hd := congrArg (· / n) hsum
    simpa [Nat.mul_comm _ n, Nat.mul_add_div (show 0 < n by omega), Nat.div_eq_of_lt h1,
      Nat.div_eq_of_lt h2] using hd
  subst hg
  exact ⟨rfl, by omega⟩

/-- A step changes one bit and the inode of this bit. -/
structure InodeChange (fs fs' : Fs) (group bit : Nat) : Prop where
  sbi : fs'.sbi = fs.sbi
  group_lt : group < fs.sbi.sGroupsCount
  bit_lt : bit < fs.sbi.sInodesPerGroup
  bits : ∀ g b, g ≠ group ∨ b ≠ bit → fs'.inodeBitmap g b = fs.inodeBitmap g b
  modes : ∀ i, i ≠ group * fs.sbi.sInodesPerGroup + bit + 1 →
    (fs'.inode i).iMode = (fs.inode i).iMode
  desc : ∀ g, g ≠ group → fs'.desc g = fs.desc g

/-- The counts agree again if those of the group have moved with the bit. -/
theorem InodeChange.counts (h : InodeChange fs fs' group bit) (agree : fs.InodeCounts)
    (hfree : (fs'.desc group).bgFreeInodesCount.toNat + (fs'.inodeBitmap group bit).toNat =
      (fs.desc group).bgFreeInodesCount.toNat + (fs.inodeBitmap group bit).toNat)
    (hdirs : (fs'.desc group).bgUsedDirsCount.toNat + (fs.usedDir group bit).toNat =
      (fs.desc group).bgUsedDirsCount.toNat + (fs'.usedDir group bit).toNat)
    (hcounter : fs'.sDirsCounter + (fs.usedDir group bit).toNat =
      fs.sDirsCounter + (fs'.usedDir group bit).toNat) : fs'.InodeCounts := by
  have hused : ∀ g b, b < fs.sbi.sInodesPerGroup → g ≠ group ∨ b ≠ bit →
      fs'.usedDir g b = fs.usedDir g b := by
    intro g b hb hne
    rw [Fs.usedDir, Fs.usedDir, h.bits g b hne, h.sbi, h.modes]
    intro heq
    obtain ⟨hg, hbit⟩ := Fs.inode_number_inj hb h.bit_lt heq
    rcases hne with hne | hne
    · exact hne hg
    · exact hne hbit
  refine ⟨fun g hg => ?_, fun g hg => ?_, ?_⟩
  · rw [h.sbi] at hg ⊢
    by_cases hgroup : g = group
    · subst hgroup
      have hcount := setCount_changed (fun i => !fs.inodeBitmap g i)
        (fun i => !fs'.inodeBitmap g i) h.bit_lt
        fun j _ hj => by rw [h.bits g j (.inr hj)]
      have hold := agree.free g hg
      rw [clearCount_eq_setCount] at hold ⊢
      rw [← hold] at hcount
      have hnot : ∀ b : Bool, (!b).toNat + b.toNat = 1 := by decide
      have hbefore := hnot (fs.inodeBitmap g bit)
      have hafter := hnot (fs'.inodeBitmap g bit)
      omega
    · rw [h.desc g hgroup, agree.free g hg]
      congr 1
      funext b
      exact (h.bits g b (.inl hgroup)).symm
  · rw [h.sbi] at hg
    by_cases hgroup : g = group
    · subst hgroup
      have hcount := setCount_changed (fs.usedDir g) (fs'.usedDir g) h.bit_lt
        fun j hj hne => hused g j hj (.inr hne)
      have hold := agree.dirs g hg
      rw [Fs.dirCount] at hold ⊢
      rw [h.sbi]
      omega
    · rw [h.desc g hgroup, agree.dirs g hg, Fs.dirCount, Fs.dirCount, h.sbi]
      exact (setCount_congr fun b hb => hused g b hb (.inl hgroup)).symm
  · have hsum := sum_changed (fun g => (fs.desc g).bgUsedDirsCount.toNat)
      (fun g => (fs'.desc g).bgUsedDirsCount.toNat) h.group_lt
      fun g hg => by rw [h.desc g hg]
    have hold := agree.dirsCounter
    rw [Fs.krCountDirs] at hold ⊢
    rw [h.sbi]
    omega

/-- The sum of the free inodes moves with the bit. -/
theorem InodeChange.freeInodes (h : InodeChange fs fs' group bit)
    (hfree : (fs'.desc group).bgFreeInodesCount.toNat + (fs'.inodeBitmap group bit).toNat =
      (fs.desc group).bgFreeInodesCount.toNat + (fs.inodeBitmap group bit).toNat) :
    fs'.krCountFreeInodes + (fs'.inodeBitmap group bit).toNat =
      fs.krCountFreeInodes + (fs.inodeBitmap group bit).toNat := by
  have hsum := sum_changed (fun g => (fs.desc g).bgFreeInodesCount.toNat)
    (fun g => (fs'.desc g).bgFreeInodesCount.toNat) h.group_lt
    fun g hg => by rw [h.desc g hg]
  rw [Fs.krCountFreeInodes, Fs.krCountFreeInodes, h.sbi]
  omega

end Change

/-! ## Creating and freeing -/

section Calls

variable {fs fs' : Fs} {env : NewInodeEnv} {dir ino group bit : Nat} {mode : UInt16}

/-- `inode_init_owner` keeps the type of the file. -/
def NewInodeEnv.KeepsType (env : NewInodeEnv) : Prop :=
  ∀ parent mode, S_ISDIR (env.initOwner parent mode).1 = S_ISDIR mode

/-- The state in which `kr_new_inode` asks the quota. -/
def createdInode (env : NewInodeEnv) (fs : Fs) (dir : Nat) (mode : UInt16) (group bit : Nat) : Fs :=
  let fs := countInode (fs.setInodeBit group bit true) mode group
  { fs with
    inode := Function.update fs.inode (bit + (group * fs.sbi.sInodesPerGroup + 1))
      (newInode env fs dir mode group) }

theorem newInode_isDir (owner : env.KeepsType) (fs : Fs) (dir : Nat) (mode : UInt16) (group : Nat) :
    S_ISDIR (newInode env fs dir mode group).iMode = S_ISDIR mode := by
  unfold newInode
  dsimp only
  split
  · rfl
  · exact owner (fs.inode dir) mode

theorem toNat_succ {a : UInt16} (h : a.toNat + 1 < 2 ^ 16) : (a + 1).toNat = a.toNat + 1 := by
  rw [UInt16.toNat_add]
  exact Nat.mod_eq_of_lt h

theorem toNat_pred {a : UInt16} (h : 1 ≤ a.toNat) : (a - 1).toNat + 1 = a.toNat := by
  have hle : (1 : UInt16) ≤ a := UInt16.le_iff_toNat_le.mpr h
  rw [UInt16.toNat_sub_of_le _ _ hle]
  exact Nat.sub_add_cancel h

/-- The counts after a number was taken. -/
theorem createdInode_counts (dir : Nat) (mode : UInt16) (agree : fs.InodeCounts)
    (owner : env.KeepsType) (hper : fs.sbi.sInodesPerGroup < 2 ^ 16) (hg : group < fs.sbi.sGroupsCount)
    (hbit : bit < fs.sbi.sInodesPerGroup) (hclear : fs.inodeBitmap group bit = false) :
    (createdInode env fs dir mode group bit).InodeCounts ∧
      (createdInode env fs dir mode group bit).sFreeinodesCounter -
          (createdInode env fs dir mode group bit).krCountFreeInodes =
        fs.sFreeinodesCounter - fs.krCountFreeInodes := by
  have hnumber : bit + (group * fs.sbi.sInodesPerGroup + 1) =
      group * fs.sbi.sInodesPerGroup + bit + 1 := by omega
  have hunused : fs.usedDir group bit = false := by rw [Fs.usedDir, hclear, Bool.false_and]
  have hfreePos : 1 ≤ (fs.desc group).bgFreeInodesCount.toNat := by
    rw [agree.free group hg, clearCount_eq_setCount]
    exact setCount_pos hbit (by rw [hclear]; rfl)
  have hdirsLt : (fs.desc group).bgUsedDirsCount.toNat + 1 < 2 ^ 16 := by
    rw [agree.dirs group hg]
    have := setCount_lt hbit hunused
    rw [Fs.dirCount]
    omega
  set fs' := createdInode env fs dir mode group bit with hfs'
  have hsbi : fs'.sbi = fs.sbi := rfl
  have hdesc : fs'.desc group = { fs.desc group with
      bgFreeInodesCount := (fs.desc group).bgFreeInodesCount - 1
      bgUsedDirsCount := if S_ISDIR mode then (fs.desc group).bgUsedDirsCount + 1
        else (fs.desc group).bgUsedDirsCount } := Function.update_self _ _ _
  have hset : fs'.inodeBitmap group bit = true := by
    simp [hfs', createdInode, countInode, Fs.setInodeBit]
  have hinode : fs'.inode (group * fs.sbi.sInodesPerGroup + bit + 1) = newInode env
      (countInode (fs.setInodeBit group bit true) mode group) dir mode group := by
    rw [← hnumber]
    exact Function.update_self _ _ _
  have hused : fs'.usedDir group bit = S_ISDIR mode := by
    rw [Fs.usedDir, hset, Bool.true_and, hsbi, hinode, newInode_isDir owner]
  have change : InodeChange fs fs' group bit := by
    refine ⟨rfl, hg, hbit, fun g b hne => ?_, fun i hi => ?_, fun g hne => ?_⟩
    · by_cases hgroup : g = group
      · subst hgroup
        have hb : b ≠ bit := hne.resolve_left fun h => h rfl
        simp [hfs', createdInode, countInode, Fs.setInodeBit, hb]
      · simp [hfs', createdInode, countInode, Fs.setInodeBit, hgroup]
    · rw [← hnumber] at hi
      exact congrArg Inode.iMode (Function.update_of_ne hi _ _)
    · exact Function.update_of_ne hne _ _
  have hfree : (fs'.desc group).bgFreeInodesCount.toNat + (fs'.inodeBitmap group bit).toNat =
      (fs.desc group).bgFreeInodesCount.toNat + (fs.inodeBitmap group bit).toNat := by
    rw [hdesc, hset, hclear]
    exact toNat_pred hfreePos
  have hdirs : (fs'.desc group).bgUsedDirsCount.toNat + (fs.usedDir group bit).toNat =
      (fs.desc group).bgUsedDirsCount.toNat + (fs'.usedDir group bit).toNat := by
    rw [hdesc, hunused, hused]
    cases hdir : S_ISDIR mode with
    | true => exact toNat_succ hdirsLt
    | false => rfl
  have hcounter : fs'.sDirsCounter + (fs.usedDir group bit).toNat =
      fs.sDirsCounter + (fs'.usedDir group bit).toNat := by
    rw [hunused, hused, hfs']
    cases hdir : S_ISDIR mode with
    | true => simp [createdInode, countInode, Fs.setInodeBit, hdir]
    | false => simp [createdInode, countInode, Fs.setInodeBit, hdir]
  refine ⟨change.counts agree hfree hdirs hcounter, ?_⟩
  have hsum := change.freeInodes hfree
  rw [hset, hclear] at hsum
  have hless : fs'.sFreeinodesCounter = fs.sFreeinodesCounter - 1 := rfl
  simp only [Bool.toNat_true, Bool.toNat_false] at hsum
  omega

/-- `kr_free_inode` gives up the inode. -/
def Fs.frees (fs : Fs) (readBitmap : Nat → Bool) (ino : Nat) : Bool :=
  fs.sbi.sFirstIno ≤ ino && ino ≤ fs.sbi.sEs.sInodesCount.toNat &&
    fs.readInodeBitmap readBitmap (inodeGroup fs.sbi ino) &&
    fs.inodeBitmap (inodeGroup fs.sbi ino) (inodeIndex fs.sbi ino)

theorem krFreeInode_keeps {readBitmap : Nat → Bool} (h : fs.frees readBitmap ino = false) :
    fs.krFreeInode readBitmap ino = fs := by
  unfold Fs.krFreeInode
  split
  · rfl
  · rename_i hrange
    simp only [Bool.or_eq_true, decide_eq_true_eq, not_or, Nat.not_lt] at hrange
    simp only [Fs.frees, hrange.1, hrange.2, decide_true, Bool.true_and] at h
    dsimp only
    split
    · rfl
    · rename_i hread
      simp only [Bool.not_eq_true', Bool.not_eq_false] at hread
      rw [inodeGroup, hread, Bool.true_and, inodeIndex] at h
      rw [h]
      rfl

theorem krFreeInode_frees {readBitmap : Nat → Bool} (h : fs.frees readBitmap ino = true) :
    fs.krFreeInode readBitmap ino =
      (fs.setInodeBit (inodeGroup fs.sbi ino) (inodeIndex fs.sbi ino) false).krReleaseInode
        (inodeGroup fs.sbi ino) (S_ISDIR (fs.inode ino).iMode) := by
  simp only [Fs.frees, Bool.and_eq_true, decide_eq_true_eq, inodeGroup, inodeIndex] at h
  obtain ⟨⟨⟨hlow, hhigh⟩, hread⟩, hset⟩ := h
  unfold Fs.krFreeInode
  rw [if_neg (by simp; omega)]
  dsimp only
  rw [hread, hset]
  rfl

/-- The state after `kr_release_inode` in a call of `kr_free_inode`. -/
def releasedInode (fs : Fs) (group bit : Nat) (dir : Bool) : Fs :=
  { fs with
    inodeBitmap := (fs.setInodeBit group bit false).inodeBitmap
    desc := Function.update fs.desc group
      { fs.desc group with
        bgFreeInodesCount := (fs.desc group).bgFreeInodesCount + 1
        bgUsedDirsCount := if dir then (fs.desc group).bgUsedDirsCount - 1
          else (fs.desc group).bgUsedDirsCount }
    sDirsCounter := if dir then fs.sDirsCounter - 1 else fs.sDirsCounter }

theorem krFreeInode_eq (hpos : 0 < fs.sbi.sInodesPerGroup) (hino : 0 < ino)
    {readBitmap : Nat → Bool} (h : fs.frees readBitmap ino = true) :
    ∃ group < fs.sbi.sGroupsCount, ∃ bit < fs.sbi.sInodesPerGroup,
      ino = group * fs.sbi.sInodesPerGroup + bit + 1 ∧ fs.inodeBitmap group bit = true ∧
      fs.krFreeInode readBitmap ino =
        releasedInode fs group bit (S_ISDIR (fs.inode ino).iMode) := by
  have hcall := krFreeInode_frees h
  simp only [Fs.frees, Bool.and_eq_true, decide_eq_true_eq] at h
  obtain ⟨⟨⟨hlow, hhigh⟩, hread⟩, hset⟩ := h
  have hlt : ino < 2 ^ 32 := hhigh.trans_lt fs.sbi.sEs.sInodesCount.toNat_lt
  rw [Fs.readInodeBitmap, Bool.and_eq_true, Option.isSome_iff_exists] at hread
  obtain ⟨⟨desc, hdesc⟩, -⟩ := hread
  obtain ⟨hg, rfl⟩ := Fs.groupDesc_some hdesc
  refine ⟨_, hg, _, Nat.mod_lt _ hpos, ?_, hset, ?_⟩
  · have := Nat.div_add_mod' (ino - 1) fs.sbi.sInodesPerGroup
    rw [inodeGroup_eq hino hlt, sub64_one hino hlt]
    omega
  · have hsame : (fs.setInodeBit (inodeGroup fs.sbi ino) (inodeIndex fs.sbi ino) false).groupDesc
          (inodeGroup fs.sbi ino) =
        some (fs.desc (inodeGroup fs.sbi ino)) := hdesc
    rw [hcall]
    unfold Fs.krReleaseInode
    rw [hsame]
    rfl

/-- The counts after an inode was given up. The counter of free inodes is forgotten. -/
theorem releasedInode_counts (agree : fs.InodeCounts) (hper : fs.sbi.sInodesPerGroup < 2 ^ 16)
    (hg : group < fs.sbi.sGroupsCount) (hbit : bit < fs.sbi.sInodesPerGroup)
    (hset : fs.inodeBitmap group bit = true) {isDir : Bool}
    (hdir : S_ISDIR (fs.inode (group * fs.sbi.sInodesPerGroup + bit + 1)).iMode = isDir) :
    (releasedInode fs group bit isDir).InodeCounts ∧
      (releasedInode fs group bit isDir).sFreeinodesCounter -
          (releasedInode fs group bit isDir).krCountFreeInodes =
        fs.sFreeinodesCounter - fs.krCountFreeInodes - 1 := by
  have hused : fs.usedDir group bit = isDir := by rw [Fs.usedDir, hset, Bool.true_and, hdir]
  have hfreeLt : (fs.desc group).bgFreeInodesCount.toNat + 1 < 2 ^ 16 := by
    have hnot : (!fs.inodeBitmap group bit) = false := by rw [hset]; rfl
    have := @setCount_lt (fun i => !fs.inodeBitmap group i) _ _ hbit hnot
    rw [agree.free group hg, clearCount_eq_setCount]
    omega
  have hdirsPos : isDir = true → 1 ≤ (fs.desc group).bgUsedDirsCount.toNat := by
    intro htrue
    rw [agree.dirs group hg]
    exact setCount_pos hbit (by rw [hused, htrue])
  set fs' := releasedInode fs group bit isDir with hfs'
  have hdesc : fs'.desc group = { fs.desc group with
      bgFreeInodesCount := (fs.desc group).bgFreeInodesCount + 1
      bgUsedDirsCount := if isDir then (fs.desc group).bgUsedDirsCount - 1
        else (fs.desc group).bgUsedDirsCount } := Function.update_self _ _ _
  have hclear : fs'.inodeBitmap group bit = false := by
    simp [hfs', releasedInode, Fs.setInodeBit]
  have hunused : fs'.usedDir group bit = false := by rw [Fs.usedDir, hclear, Bool.false_and]
  have change : InodeChange fs fs' group bit := by
    refine ⟨rfl, hg, hbit, fun g b hne => ?_, fun _ _ => rfl, fun g hne => ?_⟩
    · by_cases hgroup : g = group
      · subst hgroup
        have hb : b ≠ bit := hne.resolve_left fun h => h rfl
        simp [hfs', releasedInode, Fs.setInodeBit, hb]
      · simp [hfs', releasedInode, Fs.setInodeBit, hgroup]
    · exact Function.update_of_ne hne _ _
  have hfree : (fs'.desc group).bgFreeInodesCount.toNat + (fs'.inodeBitmap group bit).toNat =
      (fs.desc group).bgFreeInodesCount.toNat + (fs.inodeBitmap group bit).toNat := by
    rw [hdesc, hclear, hset]
    exact toNat_succ hfreeLt
  have hdirs : (fs'.desc group).bgUsedDirsCount.toNat + (fs.usedDir group bit).toNat =
      (fs.desc group).bgUsedDirsCount.toNat + (fs'.usedDir group bit).toNat := by
    rw [hdesc, hunused, hused]
    cases isDir with
    | true => exact toNat_pred (hdirsPos rfl)
    | false => rfl
  have hcounter : fs'.sDirsCounter + (fs.usedDir group bit).toNat =
      fs.sDirsCounter + (fs'.usedDir group bit).toNat := by
    rw [hunused, hused, hfs']
    cases isDir with
    | true => simp [releasedInode]
    | false => simp [releasedInode]
  refine ⟨change.counts agree hfree hdirs hcounter, ?_⟩
  have hsum := change.freeInodes hfree
  rw [hclear, hset] at hsum
  have hsame : fs'.sFreeinodesCounter = fs.sFreeinodesCounter := rfl
  simp only [Bool.toNat_true, Bool.toNat_false] at hsum
  omega

/-- Fields of inodes other than the mode do not matter. -/
theorem Fs.InodeCounts.setInodes (agree : fs.InodeCounts) {inode : Nat → Inode}
    (hmode : ∀ i, (inode i).iMode = (fs.inode i).iMode) :
    ({ fs with inode := inode } : Fs).InodeCounts := by
  refine ⟨agree.free, fun g hg => ?_, agree.dirsCounter⟩
  have hused : ({ fs with inode := inode } : Fs).usedDir g = fs.usedDir g := by
    funext b
    simp only [Fs.usedDir, hmode]
  rw [Fs.dirCount, hused]
  exact agree.dirs g hg

/-- The quota grants whatever is asked. -/
def NewInodeEnv.granting (env : NewInodeEnv) : NewInodeEnv :=
  { env with
    quotaInit := none
    quotaAlloc := none }

theorem NewInodeEnv.granting_eq (hinit : env.quotaInit = none) (halloc : env.quotaAlloc = none) :
    env.granting = env := by
  cases env
  cases hinit
  cases halloc
  rfl

/-- The end of `kr_new_inode`. -/
def newInodeEnd (env : NewInodeEnv) (fs : Fs) (ino : Nat) : Except Errno Nat × Fs :=
  match env.quotaInit, env.quotaAlloc with
  | some err, _ => (.error err, failDrop env fs ino)
  | none, some err => (.error err, failDrop env fs ino)
  | none, none => (.ok ino, fs)

theorem newInodeLoop_ok (n : Nat) : ∀ {g : Nat}, newInodeLoop env fs n g = .ok (group, bit) →
    group < fs.sbi.sGroupsCount ∧ bit < fs.sbi.sInodesPerGroup ∧
      fs.inodeBitmap group bit = false ∧ fs.readInodeBitmap env.readBitmap group = true := by
  induction n with
  | zero =>
    intro g h
    cases h
  | succ n ih =>
    intro g h
    rw [newInodeLoop] at h
    cases hdesc : fs.groupDesc g with
    | none =>
      rw [hdesc] at h
      exact ih h
    | some desc =>
      obtain ⟨hg, -⟩ := Fs.groupDesc_some hdesc
      rw [hdesc] at h
      dsimp only at h
      split at h
      · cases h
      · rename_i hread
        split at h
        · exact ih h
        · rename_i found
          simp only [Except.ok.injEq, Prod.mk.injEq] at h
          obtain ⟨rfl, rfl⟩ := h
          obtain ⟨hbit, hclear⟩ := findInodeBit_some found
          exact ⟨hg, hbit, hclear, by simpa using hread⟩

theorem newInodeLoop_granting (n : Nat) : ∀ g : Nat,
    newInodeLoop env.granting fs n g = newInodeLoop env fs n g := by
  induction n with
  | zero => exact fun _ => rfl
  | succ n ih =>
    intro g
    simp only [newInodeLoop, ih]
    rfl

/-- A call that would succeed without the quota has taken a number when it asks. -/
theorem krNewInode_took
    (h : krNewInode env.granting fs dir mode = some (.ok ino, fs')) :
    ∃ group < fs.sbi.sGroupsCount, ∃ bit < fs.sbi.sInodesPerGroup,
      fs.inodeBitmap group bit = false ∧ fs.readInodeBitmap env.readBitmap group = true ∧
      ino = group * fs.sbi.sInodesPerGroup + bit + 1 ∧ fs.sbi.sFirstIno ≤ ino ∧
      ino ≤ fs.sbi.sEs.sInodesCount.toNat ∧
      fs' = createdInode env fs dir mode group bit ∧
      krNewInode env fs dir mode = some (newInodeEnd env fs' ino) := by
  have hpolicy : findGroup env.granting fs dir mode = findGroup env fs dir mode := rfl
  unfold krNewInode at h ⊢
  rw [hpolicy] at h
  cases hnew : env.newInode with
  | false =>
    rw [show env.granting.newInode = false from hnew] at h
    simp at h
  | true =>
    rw [show env.granting.newInode = true from hnew] at h
    simp only [Bool.not_true, Bool.false_eq_true, if_false] at h ⊢
    cases hgroup : findGroup env fs dir mode with
    | none =>
      rw [hgroup] at h
      cases h
    | some found =>
      rw [hgroup] at h
      rw [Option.map_some, Option.some.injEq] at h ⊢
      cases found with
      | none => cases h
      | some g =>
        dsimp only at h ⊢
        rw [newInodeLoop_granting] at h
        cases hloop : newInodeLoop env fs fs.sbi.sGroupsCount g with
        | error err =>
          rw [hloop] at h
          cases h
        | ok place =>
          obtain ⟨group, bit⟩ := place
          obtain ⟨hg, hbit, hclear, hread⟩ := newInodeLoop_ok _ hloop
          rw [hloop] at h
          have hsbi : (fs.setInodeBit group bit true).sbi = fs.sbi := rfl
          simp only [hsbi] at h ⊢
          split at h
          · cases h
          · rename_i hrange
            rw [if_neg hrange]
            simp only [Bool.or_eq_true, decide_eq_true_eq, not_or, Nat.not_lt] at hrange
            have hnumber : bit + (group * fs.sbi.sInodesPerGroup + 1) =
                group * fs.sbi.sInodesPerGroup + bit + 1 := by omega
            cases hinsert : env.insert (bit + (group * fs.sbi.sInodesPerGroup + 1)) with
            | false =>
              rw [show env.granting.insert _ = false from hinsert] at h
              cases h
            | true =>
              rw [show env.granting.insert _ = true from hinsert] at h
              simp only [Bool.not_true, Bool.false_eq_true, if_false] at h ⊢
              cases h
              exact ⟨group, hg, bit, hbit, hclear, hread, hnumber, hrange.1, hrange.2, rfl, rfl⟩

theorem krNewInode_ok (h : krNewInode env fs dir mode = some (.ok ino, fs')) :
    env.quotaInit = none ∧ env.quotaAlloc = none := by
  unfold krNewInode at h
  split at h
  · cases h
  rw [Option.map_eq_some_iff] at h
  obtain ⟨found, -, h⟩ := h
  split at h
  · cases h
  dsimp only at h
  split at h
  · cases h
  split at h
  · cases h
  split at h
  · cases h
  split at h
  · cases h
  · cases h
  · rename_i hinit halloc
    exact ⟨hinit, halloc⟩

end Calls

/-! ## Runs -/

/-- What a call did: it made a new inode, the quota refused the new inode, it freed an
inode, or it found nothing to free. -/
inductive InodeEvent where
  | created | refused | freed | kept
deriving DecidableEq

/-- The inode of the call is given up. -/
def InodeEvent.releases : InodeEvent → Bool
  | .created => false
  | .refused => true
  | .freed => true
  | .kept => false

/-- A call of `kr_new_inode` that succeeds or would succeed without the quota, or a call of
`kr_free_inode`. -/
inductive InodeStep : Fs → InodeEvent → Fs → Prop
  | created {fs fs' : Fs} {env : NewInodeEnv} {dir ino : Nat} {mode : UInt16}
      (owner : env.KeepsType) (call : krNewInode env fs dir mode = some (.ok ino, fs')) :
      InodeStep fs .created fs'
  | refused {fs fs1 fs' : Fs} {env : NewInodeEnv} {dir ino : Nat} {mode : UInt16} {err : Errno}
      (owner : env.KeepsType)
      (granted : krNewInode env.granting fs dir mode = some (.ok ino, fs1))
      (call : krNewInode env fs dir mode = some (.error err, fs')) : InodeStep fs .refused fs'
  | freed {fs : Fs} {readBitmap : Nat → Bool} {ino : Nat} (pos : 0 < ino)
      (frees : fs.frees readBitmap ino = true) :
      InodeStep fs .freed (fs.krFreeInode readBitmap ino)
  | kept {fs : Fs} {readBitmap : Nat → Bool} {ino : Nat}
      (frees : fs.frees readBitmap ino = false) :
      InodeStep fs .kept (fs.krFreeInode readBitmap ino)

/-- What a call leaves, with the distance of the counter of free inodes from their number. -/
structure InodeStepOk (fs fs' : Fs) (e : InodeEvent) : Prop where
  sbi : fs'.sbi = fs.sbi
  counts : fs'.InodeCounts
  behind : fs'.krCountFreeInodes - fs'.sFreeinodesCounter =
    fs.krCountFreeInodes - fs.sFreeinodesCounter + if e.releases then 1 else 0

section Runs

variable {fs fs' : Fs} {e : InodeEvent} {events : List InodeEvent}

/-- A freed inode is missing from the counter of free inodes. -/
theorem krFreeInode_ok (agree : fs.InodeCounts) (hper : fs.sbi.sInodesPerGroup < 2 ^ 16)
    (hpos : 0 < fs.sbi.sInodesPerGroup) {ino : Nat} (hino : 0 < ino) {readBitmap : Nat → Bool}
    (h : fs.frees readBitmap ino = true) :
    InodeStepOk fs (fs.krFreeInode readBitmap ino) .freed := by
  obtain ⟨group, hg, bit, hbit, hnumber, hset, heq⟩ := krFreeInode_eq hpos hino h
  obtain ⟨hcounts, hbehind⟩ := releasedInode_counts agree hper hg hbit hset rfl
  rw [heq]
  rw [← hnumber] at hcounts hbehind
  refine ⟨rfl, hcounts, ?_⟩
  simp only [InodeEvent.releases, if_true]
  omega

theorem newInodeEnd_error {env : NewInodeEnv} {ino : Nat} {err : Errno}
    (h : newInodeEnd env fs ino = (.error err, fs')) : fs' = failDrop env fs ino := by
  unfold newInodeEnd at h
  split at h
  · exact (congrArg Prod.snd h).symm
  · exact (congrArg Prod.snd h).symm
  · cases h

theorem InodeStep.ok (agree : fs.InodeCounts) (hper : fs.sbi.sInodesPerGroup < 2 ^ 16)
    (hpos : 0 < fs.sbi.sInodesPerGroup) (step : InodeStep fs e fs') : InodeStepOk fs fs' e := by
  cases step with
  | created owner call =>
    obtain ⟨hinit, halloc⟩ := krNewInode_ok call
    rename_i env dir ino mode
    rw [← NewInodeEnv.granting_eq hinit halloc] at call
    obtain ⟨group, hg, bit, hbit, hclear, -, -, -, -, rfl, -⟩ := krNewInode_took call
    obtain ⟨hcounts, hbehind⟩ := createdInode_counts dir mode agree owner hper hg hbit hclear
    refine ⟨rfl, hcounts, ?_⟩
    simp only [InodeEvent.releases, Bool.false_eq_true, if_false]
    omega
  | refused owner granted call =>
    rename_i fs1 env dir ino mode err
    obtain ⟨group, hg, bit, hbit, hclear, hread, hino, hlow, hhigh, hfs1, hend⟩ :=
      krNewInode_took granted
    obtain ⟨hcounts, hbehind⟩ := createdInode_counts dir mode agree owner hper hg hbit
      hclear
    rw [call, Option.some.injEq] at hend
    rw [newInodeEnd_error hend.symm, failDrop]
    rw [← hfs1] at hcounts hbehind
    -- the inode that was counted goes through `kr_free_inode`
    set fs2 : Fs := { fs1 with
      inode := Function.update fs1.inode ino
        { fs1.inode ino with
          sFlags := (fs1.inode ino).sFlags ||| S_NOQUOTA
          iNlink := 0 } } with hfs2
    have hmode : ∀ i, (fs2.inode i).iMode = (fs1.inode i).iMode := by
      intro i
      by_cases hi : i = ino
      · subst hi
        simp [hfs2]
      · simp [hfs2, hi]
    have hcounts2 : fs2.InodeCounts := hcounts.setInodes hmode
    have hsbi : fs2.sbi = fs.sbi := by rw [hfs2, hfs1]; rfl
    have hbitmap : fs2.inodeBitmap group bit = true := by
      rw [hfs2, hfs1]
      simp [createdInode, countInode, Fs.setInodeBit]
    obtain ⟨hdiv, hmod⟩ := inodePlace_of_number hino hbit
      (hhigh.trans_lt fs.sbi.sEs.sInodesCount.toNat_lt)
    have hreadable : fs2.readInodeBitmap env.readBitmap group = true := by
      rw [Fs.readInodeBitmap, Bool.and_eq_true] at hread ⊢
      refine ⟨?_, hread.2⟩
      rw [Fs.groupDesc_eq (by rwa [hsbi])]
      rfl
    have hfrees : fs2.frees env.readBitmap ino = true := by
      rw [Fs.frees, hsbi, hdiv, hmod, hreadable, hbitmap]
      simp [hlow, hhigh]
    have hok := krFreeInode_ok hcounts2 (by rwa [hsbi]) (by rwa [hsbi]) (by omega) hfrees
    refine ⟨hok.sbi.trans hsbi, hok.counts, ?_⟩
    have hback := hok.behind
    have hsame1 : fs2.krCountFreeInodes = fs1.krCountFreeInodes := rfl
    have hsame2 : fs2.sFreeinodesCounter = fs1.sFreeinodesCounter := rfl
    simp only [InodeEvent.releases, if_true] at hback ⊢
    omega
  | freed pos frees => exact krFreeInode_ok agree hper hpos pos frees
  | kept frees =>
    rw [krFreeInode_keeps frees]
    refine ⟨rfl, agree, ?_⟩
    simp only [InodeEvent.releases, Bool.false_eq_true, if_false]
    omega

/-- How far the counter of free inodes falls behind in a run. -/
theorem inodeRun_behind (hper : fs.sbi.sInodesPerGroup < 2 ^ 16)
    (hpos : 0 < fs.sbi.sInodesPerGroup) (agree : fs.InodeCounts)
    (run : Trace InodeStep fs events fs') :
    fs'.InodeCounts ∧ fs'.krCountFreeInodes - fs'.sFreeinodesCounter =
      fs.krCountFreeInodes - fs.sFreeinodesCounter + events.countP InodeEvent.releases := by
  induction run with
  | done fs => exact ⟨agree, by simp⟩
  | @cons fs fs1 fs' e events first _ ih =>
    have hok := first.ok agree hper hpos
    obtain ⟨hcounts, hrest⟩ := ih (by rwa [hok.sbi]) (by rwa [hok.sbi]) hok.counts
    refine ⟨hcounts, ?_⟩
    rw [hrest, hok.behind, List.countP_cons]
    rw [Int.natCast_add, add_assoc]
    congr 1
    split
    · exact add_comm _ _
    · exact add_comm _ _

/-- In every run the bitmaps, the descriptors and the counter of directories agree. The
counter of free inodes agrees exactly as long as no call has given up an inode. -/
theorem inodeRun_agrees_iff {k : MountEnv} {es : SuperBlock}
    (accepted : krFillSuper k es = .ok fs.sbi) (hsize : fs.sbi.sBlocksize ≤ 4096)
    (agree : fs.InodeCountsAgree) (run : Trace InodeStep fs events fs') :
    fs'.InodeCounts ∧ (fs'.InodeCountsAgree ↔ ∀ e ∈ events, e.releases = false) := by
  obtain ⟨hsbi, -, hgeo, -⟩ := krFillSuper_ok accepted
  simp only [geometryOk, Bool.and_eq_true, decide_eq_true_eq, bne_iff_ne] at hgeo
  obtain ⟨hcounts, hbehind⟩ := inodeRun_behind (by omega) (by omega) agree.toInodeCounts run
  have hcounter := agree.freeCounter
  refine ⟨hcounts, ?_⟩
  constructor
  · intro hagree
    have hzero : events.countP InodeEvent.releases = 0 := by
      have := hagree.freeCounter
      omega
    simpa using List.countP_eq_zero.mp hzero
  · intro hnone
    have hzero : events.countP InodeEvent.releases = 0 :=
      List.countP_eq_zero.mpr fun e he => by simp [hnone e he]
    exact ⟨hcounts, by omega⟩

end Runs

/-- `inodeFs` with one directory. -/
def countedFs : Fs :=
  { inodeFs with
    desc := fun _ => { smallDesc with bgFreeInodesCount := 5, bgUsedDirsCount := 1 }
    sDirsCounter := 1
    inode := fun i => { Inode.blank with iMode := if i = 2 then 0x41ED else 0x8180 } }

theorem krFillSuper_inodeImage :
    krFillSuper smallEnv { smallImage 16 with sInodesCount := 16 } = .ok countedFs.sbi := rfl

theorem countedFs_agree : countedFs.InodeCountsAgree := by
  have hone : countedFs.sbi.sGroupsCount = 1 := rfl
  refine ⟨⟨fun g hg => ?_, fun g hg => ?_, by decide +kernel⟩, by decide +kernel⟩
  · obtain rfl : g = 0 := by omega
    decide +kernel
  · obtain rfl : g = 0 := by omega
    decide +kernel

/-- A new directory is counted everywhere. -/
theorem inodeRun_agrees_created : ∃ fs', Trace InodeStep countedFs [.created] fs' ∧
    fs'.InodeCountsAgree := by
  have howner : inodeEnv.KeepsType := fun _ _ => rfl
  have hino : (krNewInode inodeEnv countedFs 2 0x41ED).map (fun r => r.1.toOption) =
      some (some 12) := by decide +kernel
  generalize hcall : krNewInode inodeEnv countedFs 2 0x41ED = call at hino
  cases call with
  | none => cases hino
  | some res =>
    obtain ⟨ret, fs'⟩ := res
    cases ret with
    | error err => simp [Except.toOption] at hino
    | ok ino =>
      have hrun : Trace InodeStep countedFs [.created] fs' := .cons (.created howner hcall) (.done _)
      have hagree := (inodeRun_agrees_iff krFillSuper_inodeImage (by decide) countedFs_agree hrun).2
      exact ⟨fs', hrun, hagree.mpr (by simp [InodeEvent.releases])⟩

/-- After inode 11 was freed there are six free inodes, and the counter says five. -/
theorem inodeRun_freed : ∃ fs', Trace InodeStep countedFs [.freed] fs' ∧
    fs'.krCountFreeInodes = 6 ∧ fs'.sFreeinodesCounter = 5 ∧ ¬ fs'.InodeCountsAgree := by
  have hsix : (countedFs.krFreeInode (fun _ => true) 11).krCountFreeInodes = 6 := by decide +kernel
  have hfive : (countedFs.krFreeInode (fun _ => true) 11).sFreeinodesCounter = 5 := by
    decide +kernel
  refine ⟨_, .cons (.freed (by decide) (by decide +kernel)) (.done _), hsix, hfive, fun hagree => ?_⟩
  have hcounter := hagree.freeCounter
  rw [hsix, hfive] at hcounter
  cases hcounter

end KrFs
