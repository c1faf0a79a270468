import KrFs.Balloc
import KrFs.Groups
import Mathlib.Algebra.Order.BigOperators.Group.Finset

/-!
# The group of a new inode

`find_group_dir`, `find_group_orlov` and `find_group_other` of `ialloc.c`, in the
arithmetic of the source: what is stored in an `int` or an `unsigned int` wraps at 32 bits,
and a division by zero is `none`. What `kr_get_group_desc` finds is as it was when the file
system was mounted, and the percpu counters are read without being summed.
-/

namespace KrFs

open Finset

/-- A value that is stored in an `int`. -/
def int32 (n : Int) : Int := n.bmod (2 ^ 32)

/-- A value that is stored in an `unsigned int`. -/
def uint32 (n : Int) : Int := n % 2 ^ 32

/-- The division of the source, by zero `none`. -/
def cdiv (a b : Int) : Option Int := if b = 0 then none else some (a.tdiv b)

/-- The remainder of the source for natural numbers, by zero `none`. -/
def cmod (a b : Nat) : Option Nat := if b = 0 then none else some (a % b)

/-- `percpu_counter_read_positive`. -/
def percpuCounterReadPositive (count : Int) : Int := if 0 ≤ count then count else 0

def INODE_COST : Int := 64
def BLOCK_COST : Int := 256
def KR_TOPDIR_FL : UInt32 := 0x00020000

section Code

variable (fs : Fs)

/-- A loop over groups that takes the first one with free inodes that it accepts. -/
def searchInodeGroups (accept : Nat → GroupDesc → Bool) : List Nat → Option Nat
  | [] => none
  | group :: rest =>
    match fs.groupDesc group with
    | none => searchInodeGroups accept rest
    | some desc =>
      if desc.bgFreeInodesCount ≠ 0 && accept group desc then some group
      else searchInodeGroups accept rest

/-- The groups `(start + i) % ngroups`. -/
def Fs.groupsFrom (start : Nat) : List Nat :=
  (List.range fs.sbi.sGroupsCount).map fun i => (start + i) % fs.sbi.sGroupsCount

/-- The loop of `find_group_dir`. -/
def dirLoop (avefreei : Int) : List Nat → Option (Nat × GroupDesc) → Option (Nat × GroupDesc)
  | [], best => best
  | group :: rest, best =>
    match fs.groupDesc group with
    | none => dirLoop avefreei rest best
    | some desc =>
      if desc.bgFreeInodesCount = 0 then dirLoop avefreei rest best
      else if (desc.bgFreeInodesCount.toNat : Int) < avefreei then dirLoop avefreei rest best
      else
        match best with
        | none => dirLoop avefreei rest (some (group, desc))
        | some (_, bestDesc) =>
          if bestDesc.bgFreeBlocksCount < desc.bgFreeBlocksCount then
            dirLoop avefreei rest (some (group, desc))
          else dirLoop avefreei rest best

/-- `find_group_dir`; the inner `none` is its return of -1. -/
def findGroupDir : Option (Option Nat) := do
  let avefreei ← cdiv (krCountFreeInodes fs.sbi fs.desc) fs.sbi.sGroupsCount
  return (dirLoop fs (int32 avefreei) (List.range fs.sbi.sGroupsCount) none).map Prod.fst

/-- What `find_group_orlov` reads of the percpu counters, and its random number. -/
structure OrlovEnv where
  sFreeinodesCounter : Int
  sFreeblocksCounter : Int
  sDirsCounter : Int
  random : UInt32

/-- The limits of `find_group_orlov`. -/
structure OrlovLimits where
  maxDebt : Int
  maxDirs : Int
  minBlocks : Int
  minInodes : Int

def orlovLimits (sbi : SbInfo) (freeBlocks avefreei avefreeb ndirs : Int) : Option OrlovLimits := do
  let ndirs := if ndirs = 0 then 1 else ndirs
  let inodesPerGroup := int32 sbi.sInodesPerGroup
  let blocksPerDir ← cdiv (uint32 (sbi.sEs.sBlocksCount.toNat - freeBlocks)) (uint32 ndirs)
  let dirsPerGroup ← cdiv ndirs (int32 sbi.sGroupsCount)
  let maxDebt ← cdiv sbi.sBlocksPerGroup (max (int32 blocksPerDir) BLOCK_COST)
  let maxDebt := int32 maxDebt
  let maxDebt := if int32 (maxDebt * INODE_COST) > inodesPerGroup then inodesPerGroup.tdiv INODE_COST
    else maxDebt
  let maxDebt := if maxDebt > 255 then 255 else maxDebt
  return {
    maxDebt := if maxDebt = 0 then 1 else maxDebt
    maxDirs := int32 (dirsPerGroup + inodesPerGroup.tdiv 16)
    minBlocks := int32 (avefreeb - sbi.sBlocksPerGroup / 4)
    minInodes := int32 (avefreei - inodesPerGroup.tdiv 4) }

/-- The tests of the loop of `find_group_orlov` for directories below others. -/
def orlovAccepts (limits : OrlovLimits) (group : Nat) (desc : GroupDesc) : Bool :=
  !(limits.maxDebt ≤ fs.sDebts group) && !(limits.maxDirs ≤ desc.bgUsedDirsCount.toNat) &&
    !((desc.bgFreeInodesCount.toNat : Int) < limits.minInodes) &&
    !((desc.bgFreeBlocksCount.toNat : Int) < limits.minBlocks)

/-- The loop of `find_group_orlov` for directories at the top: `best_group` and
`best_ndir`. -/
def topLoop (avefreei avefreeb : Int) : List Nat → Option Nat × Int → Option Nat × Int
  | [], best => best
  | group :: rest, (bestGroup, bestNdir) =>
    match fs.groupDesc group with
    | none => topLoop avefreei avefreeb rest (bestGroup, bestNdir)
    | some desc =>
      if desc.bgFreeInodesCount = 0 || bestNdir ≤ desc.bgUsedDirsCount.toNat ||
          (desc.bgFreeInodesCount.toNat : Int) < avefreei ||
          (desc.bgFreeBlocksCount.toNat : Int) < avefreeb then
        topLoop avefreei avefreeb rest (bestGroup, bestNdir)
      else topLoop avefreei avefreeb rest (some group, desc.bgUsedDirsCount.toNat)

/-- The label `fallback` of `find_group_orlov`. -/
def orlovFallback (avefreei : Int) (parentGroup : Nat) : Option Nat :=
  let accept (avefreei : Int) (_ : Nat) (desc : GroupDesc) : Bool :=
    avefreei ≤ desc.bgFreeInodesCount.toNat
  match searchInodeGroups fs (accept avefreei) (fs.groupsFrom parentGroup) with
  | some group => some group
  | none =>
    if avefreei ≠ 0 then searchInodeGroups fs (accept 0) (fs.groupsFrom parentGroup) else none

/-- `find_group_orlov`. -/
def findGroupOrlov (env : OrlovEnv) (parent : Nat) : Option (Option Nat) := do
  let ngroups := int32 fs.sbi.sGroupsCount
  let avefreei ← cdiv (int32 (percpuCounterReadPositive env.sFreeinodesCounter)) ngroups
  let freeBlocks := int32 (percpuCounterReadPositive env.sFreeblocksCounter)
  let avefreeb ← cdiv freeBlocks ngroups
  let ndirs := int32 (percpuCounterReadPositive env.sDirsCounter)
  if parent = KR_ROOT_INO || (fs.inode parent).iFlags &&& KR_TOPDIR_FL ≠ 0 then
    let parentGroup ← cmod env.random.toNat fs.sbi.sGroupsCount
    match (topLoop fs avefreei avefreeb (fs.groupsFrom parentGroup)
      (none, int32 fs.sbi.sInodesPerGroup)).1 with
    | some group => return some group
    | none => return orlovFallback fs avefreei parentGroup
  else
    let parentGroup := (fs.inode parent).iBlockGroup
    let limits ← orlovLimits fs.sbi freeBlocks avefreei avefreeb ndirs
    match searchInodeGroups fs (orlovAccepts fs limits) (fs.groupsFrom parentGroup) with
    | some group => return some group
    | none => return orlovFallback fs avefreei parentGroup

/-- The groups of the quadratic hash; 31 rounds pass every `int`. -/
def hashGroups (ngroups : Nat) : Nat → Nat → Nat → List Nat
  | 0, _, _ => []
  | fuel + 1, group, i =>
    if i < ngroups then
      let group := if ngroups ≤ group + i then group + i - ngroups else group + i
      group :: hashGroups ngroups fuel group (i <<< 1)
    else []

/-- The groups of a linear search of so many rounds. -/
def nextGroups (ngroups : Nat) : Nat → Nat → List Nat
  | 0, _ => []
  | n + 1, group =>
    let group := if ngroups ≤ group + 1 then 0 else group + 1
    group :: nextGroups ngroups n group

/-- `find_group_other`. -/
def findGroupOther (parent : Nat) : Option (Option Nat) := do
  let parentGroup := (fs.inode parent).iBlockGroup
  let hasBlocks (_ : Nat) (desc : GroupDesc) : Bool := desc.bgFreeBlocksCount ≠ 0
  match searchInodeGroups fs hasBlocks [parentGroup] with
  | some group => return some group
  | none =>
    let group ← cmod (parentGroup + parent) fs.sbi.sGroupsCount
    match searchInodeGroups fs hasBlocks (hashGroups fs.sbi.sGroupsCount 31 group 1) with
    | some group => return some group
    | none =>
      let groups := nextGroups fs.sbi.sGroupsCount fs.sbi.sGroupsCount parentGroup
      return searchInodeGroups fs (fun _ _ => true) groups

end Code

/-! ## What the searches find -/

/-- A group with free inodes. -/
def Fs.HasFreeInode (fs : Fs) (group : Nat) : Prop :=
  group < fs.sbi.sGroupsCount ∧ (fs.desc group).bgFreeInodesCount ≠ 0

/-- The function returns, without a division by zero: -1 just when no group has free
inodes, and else a group that has. -/
def FindsGroup (fs : Fs) (r : Option (Option Nat)) : Prop :=
  ∃ found, r = some found ∧
    (found = none ↔ ∀ g < fs.sbi.sGroupsCount, (fs.desc g).bgFreeInodesCount = 0) ∧
    ∀ g, found = some g → fs.HasFreeInode g

section Search

variable {fs : Fs} {accept : Nat → GroupDesc → Bool} {groups : List Nat} {g start : Nat}

theorem Fs.groupDesc_eq (hg : g < fs.sbi.sGroupsCount) : fs.groupDesc g = some (fs.desc g) :=
  if_neg (Nat.not_le.mpr hg)

theorem searchInodeGroups_some (h : searchInodeGroups fs accept groups = some g) :
    fs.HasFreeInode g := by
  induction groups with
  | nil => cases h
  | cons group rest ih =>
    rw [searchInodeGroups] at h
    split at h
    · exact ih h
    · rename_i desc hdesc
      split at h
      · rename_i haccept
        cases h
        obtain ⟨hlt, rfl⟩ := Fs.groupDesc_some hdesc
        rw [Bool.and_eq_true, decide_eq_true_eq] at haccept
        exact ⟨hlt, haccept.1⟩
      · exact ih h

theorem searchInodeGroups_none (h : searchInodeGroups fs accept groups = none) (hmem : g ∈ groups)
    (hfree : fs.HasFreeInode g) : accept g (fs.desc g) = false := by
  induction groups with
  | nil => cases hmem
  | cons group rest ih =>
    rw [searchInodeGroups] at h
    rcases List.mem_cons.mp hmem with rfl | hmem
    · rw [Fs.groupDesc_eq hfree.1] at h
      dsimp only at h
      split at h
      · cases h
      · rename_i haccept
        simpa [hfree.2] using haccept
    · split at h
      · exact ih h hmem
      · split at h
        · cases h
        · exact ih h hmem

/-- A search that ends with one over all groups that accepts them all. -/
theorem FindsGroup.of_search {r : Option Nat} (hsome : ∀ g, r = some g → fs.HasFreeInode g)
    (hnone : r = none → ∀ g, ¬ fs.HasFreeInode g) : FindsGroup fs (some r) := by
  refine ⟨r, rfl, ?_, hsome⟩
  constructor
  · intro h g hg
    by_contra hfree
    exact hnone h g ⟨hg, hfree⟩
  · intro hall
    cases hr : r with
    | none => rfl
    | some g =>
      obtain ⟨hg, hfree⟩ := hsome g hr
      exact absurd (hall g hg) hfree

theorem Fs.mem_groupsFrom (hg : g < fs.sbi.sGroupsCount) : g ∈ fs.groupsFrom start := by
  have hpos : 0 < fs.sbi.sGroupsCount := by omega
  generalize hn : fs.sbi.sGroupsCount = n at hg hpos
  refine List.mem_map.mpr ⟨(g + (n - start % n)) % n, ?_, ?_⟩
  · rw [hn]
    exact List.mem_range.mpr (Nat.mod_lt _ hpos)
  · have hlt := Nat.mod_lt start hpos
    rw [hn, Nat.add_mod_mod, ← Nat.mod_add_mod]
    have hsum : start % n + (g + (n - start % n)) = g + n := by omega
    rw [hsum, Nat.add_mod_right, Nat.mod_eq_of_lt hg]

theorem mem_nextGroups {n : Nat} (hstart : start < n) (hg : g < n) :
    g ∈ nextGroups n n start := by
  -- after so many rounds the search is so far from its start
  have hround : ∀ k rounds group, group < n → k < rounds → (group + 1 + k) % n ∈
      nextGroups n rounds group := by
    intro k
    induction k with
    | zero =>
      intro rounds group hgroup hk
      obtain ⟨rounds, rfl⟩ := Nat.exists_eq_succ_of_ne_zero (by omega : rounds ≠ 0)
      rw [nextGroups]
      refine List.mem_cons.mpr (Or.inl ?_)
      split
      · obtain rfl : n = group + 1 := by omega
        exact Nat.mod_self _
      · exact Nat.mod_eq_of_lt (by omega)
    | succ k ih =>
      intro rounds group hgroup hk
      obtain ⟨rounds, rfl⟩ := Nat.exists_eq_succ_of_ne_zero (by omega : rounds ≠ 0)
      rw [nextGroups]
      refine List.mem_cons_of_mem _ ?_
      split
      · obtain rfl : n = group + 1 := by omega
        have hmem := ih rounds 0 (by omega) (by omega)
        rw [Nat.add_mod_left]
        rw [show 0 + 1 + k = k + 1 by omega] at hmem
        exact hmem
      · have hmem := ih rounds (group + 1) (by omega) (by omega)
        rw [show group + 1 + 1 + k = group + 1 + (k + 1) by omega] at hmem
        exact hmem
  have hmem := hround ((g + (n - (start + 1) % n)) % n) n start hstart (Nat.mod_lt _ (by omega))
  have hlt := Nat.mod_lt (start + 1) (by omega : n > 0)
  rw [Nat.add_mod_mod, ← Nat.mod_add_mod] at hmem
  have hsum : (start + 1) % n + (g + (n - (start + 1) % n)) = g + n := by omega
  rw [hsum, Nat.add_mod_right, Nat.mod_eq_of_lt hg] at hmem
  exact hmem

end Search

section Policies

variable {fs : Fs} {parent : Nat} {env : OrlovEnv}

/-- The last loops of `find_group_orlov` accept any group with free inodes. -/
theorem orlovFallback_finds (avefreei : Int) (start : Nat) :
    FindsGroup fs (some (orlovFallback fs avefreei start)) := by
  unfold orlovFallback
  dsimp only
  split
  · rename_i group hfound
    refine .of_search (fun g hg => ?_) (fun h => nomatch h)
    cases hg
    exact searchInodeGroups_some hfound
  · rename_i hnone
    by_cases havg : avefreei ≠ 0
    · rw [if_pos havg]
      refine .of_search (fun g hg => searchInodeGroups_some hg) fun hnone' g hfree => ?_
      have hreject := searchInodeGroups_none hnone' (Fs.mem_groupsFrom hfree.1) hfree
      simp at hreject
    · rw [if_neg havg]
      refine .of_search (fun g hg => nomatch hg) fun _ g hfree => ?_
      have hreject := searchInodeGroups_none hnone (Fs.mem_groupsFrom hfree.1) hfree
      rw [not_not] at havg
      simp [havg] at hreject

theorem findGroupOther_finds (hn : 0 < fs.sbi.sGroupsCount)
    (hparent : (fs.inode parent).iBlockGroup < fs.sbi.sGroupsCount) :
    FindsGroup fs (findGroupOther fs parent) := by
  have hfinds : ∀ {accept groups group}, searchInodeGroups fs accept groups = some group →
      FindsGroup fs (some (some group)) := by
    intro accept groups group hfound
    refine .of_search (fun g hg => ?_) (fun h => nomatch h)
    cases hg
    exact searchInodeGroups_some hfound
  unfold findGroupOther
  dsimp only
  split
  · rename_i group hfound
    exact hfinds hfound
  · rw [cmod, if_neg (by omega), Option.bind_eq_bind, Option.bind_some]
    split
    · rename_i group hfound
      exact hfinds hfound
    · refine .of_search (fun g hg => searchInodeGroups_some hg) fun hnone g hfree => ?_
      have hreject := searchInodeGroups_none hnone (mem_nextGroups hparent hfree.1) hfree
      cases hreject

/-- The loop of `find_group_dir` keeps a group that it has. -/
theorem dirLoop_some {avefreei : Int} {groups : List Nat} {best : Option (Nat × GroupDesc)} {g : Nat}
    {desc : GroupDesc} (hbest : ∀ b, best = some b → fs.HasFreeInode b.1)
    (h : dirLoop fs avefreei groups best = some (g, desc)) : fs.HasFreeInode g := by
  induction groups generalizing best with
  | nil => exact hbest _ h
  | cons group rest ih =>
    rw [dirLoop] at h
    split at h
    · exact ih hbest h
    · rename_i d hd
      obtain ⟨hlt, rfl⟩ := Fs.groupDesc_some hd
      split at h
      · exact ih hbest h
      · rename_i hfree
        have hnew : ∀ b, some (group, fs.desc group) = some b → fs.HasFreeInode b.1 := by
          rintro b ⟨⟩
          exact ⟨hlt, hfree⟩
        split at h
        · exact ih hbest h
        · split at h
          · exact ih hnew h
          · split at h
            · exact ih hnew h
            · exact ih hbest h

/-- It ends without one only if no group has free inodes and enough of them. -/
theorem dirLoop_none {avefreei : Int} {groups : List Nat} {best : Option (Nat × GroupDesc)}
    (h : dirLoop fs avefreei groups best = none) : best = none ∧ ∀ g ∈ groups, fs.HasFreeInode g →
      ((fs.desc g).bgFreeInodesCount.toNat : Int) < avefreei := by
  induction groups generalizing best with
  | nil => exact ⟨h, fun g hg => nomatch hg⟩
  | cons group rest ih =>
    rw [dirLoop] at h
    split at h
    · rename_i hnone
      obtain ⟨hbest, hrest⟩ := ih h
      refine ⟨hbest, List.forall_mem_cons.mpr ⟨fun hfree => ?_, hrest⟩⟩
      rw [Fs.groupDesc_eq hfree.1] at hnone
      cases hnone
    · rename_i d hd
      obtain ⟨hlt, rfl⟩ := Fs.groupDesc_some hd
      split at h
      · rename_i hzero
        obtain ⟨hbest, hrest⟩ := ih h
        exact ⟨hbest, List.forall_mem_cons.mpr ⟨fun hfree => absurd hzero hfree.2, hrest⟩⟩
      · split at h
        · rename_i hless
          obtain ⟨hbest, hrest⟩ := ih h
          exact ⟨hbest, List.forall_mem_cons.mpr ⟨fun _ => hless, hrest⟩⟩
        · -- from here on there is a best group
          split at h
          · cases (ih h).1
          · split at h
            · cases (ih h).1
            · cases (ih h).1

theorem countFree_eq (sbi : SbInfo) (desc : Nat → GroupDesc) (counter : GroupDesc → UInt16) :
    countFree sbi desc counter = ∑ i ∈ range sbi.sGroupsCount, (counter (desc i)).toNat := by
  unfold countFree
  induction sbi.sGroupsCount with
  | zero => rfl
  | succ n ih => rw [List.range_succ, List.foldl_append, ih, sum_range_succ, List.foldl_cons,
      List.foldl_nil]

/-- Some group has as many free inodes as the average that `find_group_dir` computes. -/
theorem exists_average (hn : 0 < fs.sbi.sGroupsCount) : ∃ g < fs.sbi.sGroupsCount,
    krCountFreeInodes fs.sbi fs.desc / fs.sbi.sGroupsCount ≤ (fs.desc g).bgFreeInodesCount.toNat := by
  have hsum : ∑ _i ∈ range fs.sbi.sGroupsCount,
      krCountFreeInodes fs.sbi fs.desc / fs.sbi.sGroupsCount ≤
      ∑ i ∈ range fs.sbi.sGroupsCount, (fs.desc i).bgFreeInodesCount.toNat := by
    rw [sum_const, card_range, smul_eq_mul, ← countFree_eq]
    exact Nat.mul_div_le _ _
  obtain ⟨g, hg, hle⟩ := exists_le_of_sum_le (nonempty_range_iff.mpr (by omega)) hsum
  exact ⟨g, mem_range.mp hg, hle⟩

theorem int32_of_lt {n : Nat} (h : n < 2 ^ 31) : int32 n = n := by
  unfold int32
  rw [Int.bmod_def]
  omega

theorem findGroupDir_finds (hn : 0 < fs.sbi.sGroupsCount) : FindsGroup fs (findGroupDir fs) := by
  obtain ⟨m, hm, haverage⟩ := exists_average hn
  have hlt := (fs.desc m).bgFreeInodesCount.toNat_lt
  have hne : (fs.sbi.sGroupsCount : Int) ≠ 0 := by omega
  have hdiv : ((krCountFreeInodes fs.sbi fs.desc : Int)).tdiv fs.sbi.sGroupsCount =
      (krCountFreeInodes fs.sbi fs.desc / fs.sbi.sGroupsCount : Nat) := rfl
  unfold findGroupDir
  rw [cdiv, if_neg hne, Option.bind_eq_bind, Option.bind_some, hdiv, int32_of_lt (by omega)]
  refine .of_search (fun g hg => ?_) fun hnone g hfree => ?_
  · obtain ⟨⟨g', desc⟩, hloop, rfl⟩ := Option.map_eq_some_iff.mp hg
    exact dirLoop_some (by rintro b ⟨⟩) hloop
  · rw [Option.map_eq_none_iff] at hnone
    obtain ⟨-, hreject⟩ := dirLoop_none hnone
    have hpos : 0 < krCountFreeInodes fs.sbi fs.desc / fs.sbi.sGroupsCount := by
      have := hreject g (List.mem_range.mpr hfree.1) hfree
      omega
    -- a group of the average is not rejected
    have hmfree : fs.HasFreeInode m := by
      refine ⟨hm, fun hzero => ?_⟩
      rw [hzero] at haverage
      exact Nat.not_lt.mpr haverage hpos
    have := hreject m (List.mem_range.mpr hm) hmfree
    omega

theorem topLoop_some {avefreei avefreeb : Int} {groups : List Nat} {best : Option Nat × Int} {g : Nat}
    (hbest : ∀ b, best.1 = some b → fs.HasFreeInode b)
    (h : (topLoop fs avefreei avefreeb groups best).1 = some g) : fs.HasFreeInode g := by
  induction groups generalizing best with
  | nil => exact hbest g h
  | cons group rest ih =>
    obtain ⟨bestGroup, bestNdir⟩ := best
    rw [topLoop] at h
    split at h
    · exact ih hbest h
    · rename_i d hd
      obtain ⟨hlt, rfl⟩ := Fs.groupDesc_some hd
      split at h
      · exact ih hbest h
      · rename_i hkeep
        refine ih ?_ h
        rintro b ⟨⟩
        refine ⟨hlt, fun hzero => hkeep ?_⟩
        simp [hzero]

theorem int32_ne_zero {n : Nat} (hpos : 0 < n) (hlt : n < 2 ^ 30) : int32 n ≠ 0 := by
  rw [int32_of_lt (by omega)]
  omega

/-- The limits are computed without a division by zero. -/
theorem orlovLimits_isSome (hn : 0 < fs.sbi.sGroupsCount) (hlt : fs.sbi.sGroupsCount < 2 ^ 30)
    (freeBlocks avefreei avefreeb count : Int) :
    ∃ limits, orlovLimits fs.sbi freeBlocks avefreei avefreeb (int32 count) = some limits := by
  have hgroups := int32_ne_zero hn hlt
  have hdirs : uint32 (if int32 count = 0 then 1 else int32 count) ≠ 0 := by
    by_cases hzero : int32 count = 0
    · rw [if_pos hzero]
      decide
    · rw [if_neg hzero]
      unfold uint32
      unfold int32 at hzero ⊢
      rw [Int.bmod_def] at hzero ⊢
      split at hzero
      · omega
      · omega
  have hcost : ∀ n, max n BLOCK_COST ≠ 0 := by
    intro n
    unfold BLOCK_COST
    omega
  unfold orlovLimits
  simp only [cdiv, if_neg hdirs, if_neg hgroups, if_neg (hcost _), Option.bind_eq_bind,
    Option.bind_some]
  exact ⟨_, rfl⟩

theorem findGroupOrlov_finds (hn : 0 < fs.sbi.sGroupsCount) (hlt : fs.sbi.sGroupsCount < 2 ^ 30)
    (env : OrlovEnv) (parent : Nat) : FindsGroup fs (findGroupOrlov fs env parent) := by
  have hgroups := int32_ne_zero hn hlt
  have hfinds : ∀ {group}, fs.HasFreeInode group → FindsGroup fs (some (some group)) := by
    intro group hfree
    refine .of_search (fun g hg => ?_) (fun h => nomatch h)
    cases hg
    exact hfree
  unfold findGroupOrlov
  simp only [cdiv, if_neg hgroups, Option.bind_eq_bind, Option.bind_some]
  split
  · rw [cmod, if_neg (by omega), Option.bind_some]
    split
    · rename_i group hfound
      exact hfinds (topLoop_some (by rintro b ⟨⟩) hfound)
    · exact orlovFallback_finds _ _
  · obtain ⟨limits, hlimits⟩ := orlovLimits_isSome hn hlt _ _ _ _
    rw [hlimits, Option.bind_some]
    split
    · rename_i group hfound
      exact hfinds (searchInodeGroups_some hfound)
    · exact orlovFallback_finds _ _

end Policies

end KrFs
