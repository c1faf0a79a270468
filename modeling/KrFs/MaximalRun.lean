import KrFs.NoSpace

/-!
# How long a run is

Without a window `kr_new_blocks` claims bits until it has as many as it was asked
for, or until the next bit is in use or lies in another group. The count is
passed by pointer, and `kr_try_to_allocate` stores 0 in it when it finds nothing:
after a failed attempt on the goal group the next group is asked for no block and
gives one.
-/

namespace KrFs

open SearchTree Bitmap

/-! ## One group -/

/-- The loop that claims further bits stops for one of three reasons. -/
theorem claimRun_maximal (bm : Nat → Bool) (count stop n : Nat) : ∀ goal num : Nat,
    goal ≤ stop → stop - goal ≤ n →
    count ≤ claimRun bm count stop n goal num ∨
      goal + (claimRun bm count stop n goal num - num) = stop ∨
      bm (goal + (claimRun bm count stop n goal num - num)) = true := by
  induction n with
  | zero =>
    intro goal num hle hn
    simp only [claimRun, Nat.sub_self]
    omega
  | succ n ih =>
    intro goal num hle hn
    unfold claimRun
    by_cases hgo : (num < count && goal < stop && !bm goal) = true
    · rw [if_pos hgo]
      simp only [Bool.and_eq_true, decide_eq_true_eq] at hgo
      have hmore := (claimRun_spec bm count stop n (goal + 1) (num + 1)).1
      have hrest := ih (goal + 1) (num + 1) (by omega) (by omega)
      rwa [show goal + 1 + (claimRun bm count stop n (goal + 1) (num + 1) - (num + 1)) =
        goal + (claimRun bm count stop n (goal + 1) (num + 1) - num) by omega] at hrest
    · rw [if_neg hgo, Nat.sub_self, Nat.add_zero]
      simp only [Bool.and_eq_true, decide_eq_true_eq, Bool.not_eq_true', not_and,
        Bool.not_eq_false] at hgo
      by_cases hnum : num < count
      · by_cases hgoal : goal < stop
        · exact .inr (.inr (hgo ⟨hnum, hgoal⟩))
        · exact .inr (.inl (by omega))
      · exact .inl (by omega)

theorem backUp_clear {bm : Nat → Bool} {start : Nat} (n : Nat) : ∀ {goal : Nat},
    bm goal = false → bm (backUp bm start n goal) = false := by
  induction n with
  | zero => exact fun h => h
  | succ n ih =>
    intro goal h
    unfold backUp
    split
    · rename_i hback
      simp only [Bool.and_eq_true, Bool.not_eq_true'] at hback
      exact ih hback.2
    · exact h

/-- The bit with which a search without a goal begins. -/
def usableBit (bm : Nat → Bool) (maxblocks : Nat) : Option Nat :=
  (findNextUsableBlock 0 bm maxblocks).map (backUp bm 0 7)

section Try

variable {sbi : SbInfo} {group : Nat} {bm bm' : Nat → Bool} {grpGoal : Int} {count first num : Nat}

/-- The steps of an attempt without a window that found a bit. -/
theorem krTryToAllocate_found
    (h : krTryToAllocate sbi group bm grpGoal count none = .done (bm', some first, num)) :
    num = claimRun bm count sbi.sBlocksPerGroup (sbi.sBlocksPerGroup - first) (first + 1) 1 ∧
      ∃ g, (if 0 ≤ grpGoal then some grpGoal.toNat else usableBit bm sbi.sBlocksPerGroup) = some g ∧
        claimFirst bm sbi.sBlocksPerGroup (sbi.sBlocksPerGroup - g + 1) g = some first := by
  unfold krTryToAllocate at h
  dsimp only [allocRange] at h
  split at h
  · cases h
  split at h
  · cases h
  rename_i first' hfirst
  simp only [Exec.done.injEq, Prod.mk.injEq, Option.some.injEq] at h
  obtain ⟨-, rfl, hnum⟩ := h
  obtain ⟨g, hg, hclaim⟩ := Option.bind_eq_some_iff.mp hfirst
  refine ⟨hnum.symm, g, ?_, hclaim⟩
  by_cases hpos : 0 ≤ grpGoal
  · rw [if_pos hpos] at hg ⊢
    exact hg
  · rw [if_neg hpos] at hg ⊢
    have hzero : grpGoal.toNat = 0 := by omega
    simpa [usableBit, hzero] using hg

/-- An attempt without a window takes as much as was asked for and is there. -/
theorem krTryToAllocate_maximal (hgoal : grpGoal < sbi.sBlocksPerGroup)
    (h : krTryToAllocate sbi group bm grpGoal count none = .done (bm', some first, num)) :
    num = max 1 count ∨ first + num = sbi.sBlocksPerGroup ∨ bm (first + num) = true := by
  rcases krTryToAllocate_spec hgoal h with ⟨hnone, -⟩ | ⟨first', hfirst, hrun⟩
  · cases hnone
  cases hfirst
  have hpos := hrun.pos
  have hle := hrun.le
  have hinside := hrun.inside
  have hmax := claimRun_maximal bm count sbi.sBlocksPerGroup (sbi.sBlocksPerGroup - first)
    (first + 1) 1 (by omega) (by omega)
  rw [← (krTryToAllocate_found h).1, show first + 1 + (num - 1) = first + num by omega] at hmax
  rcases hmax with hcount | hend | hset
  · exact .inl (by omega)
  · exact .inr (.inl hend)
  · exact .inr (.inr hset)

/-- Without a goal the run begins at the usable bit. -/
theorem krTryToAllocate_usable
    (h : krTryToAllocate sbi group bm (-1) count none = .done (bm', some first, num)) :
    usableBit bm sbi.sBlocksPerGroup = some first := by
  obtain ⟨-, g, hg, hclaim⟩ := krTryToAllocate_found h
  rw [if_neg (by omega)] at hg
  obtain ⟨q, hq, hback⟩ := Option.map_eq_some_iff.mp hg
  have hclear : bm g = false := hback ▸ backUp_clear 7 (findNextUsableBlock_sound hq).2.2
  rw [claimFirst, hclear] at hclaim
  rw [hg, ← hclaim]
  rfl

/-- With a goal it finds a bit unless all from the goal on are in use. -/
theorem krTryToAllocate_from_goal {goal : Nat} {found : Option Nat} (hgoal : goal < sbi.sBlocksPerGroup)
    (h : krTryToAllocate sbi group bm goal count none = .done (bm', found, num)) :
    found = none ↔ ∀ i, goal ≤ i → i < sbi.sBlocksPerGroup → bm i = true := by
  constructor
  · rintro rfl i hi hlt
    by_contra hclear
    obtain ⟨bm'', first, num', hfound⟩ : ∃ bm'' first num',
        krTryToAllocate sbi group bm goal count none = .done (bm'', some first, num') :=
      krTryToAllocate_finds (b := i) (show allocRange sbi group goal none =
        (goal, sbi.sBlocksPerGroup, some goal) by simp [allocRange]) (by simp) hi hlt (le_refl _)
        (by simpa using hclear)
    rw [hfound] at h
    cases h
  · intro hset
    cases found with
    | none => rfl
    | some first =>
      obtain ⟨-, g, hg, hclaim⟩ := krTryToAllocate_found h
      rw [if_pos (by omega)] at hg
      cases hg
      obtain ⟨hclear, hge, hlt⟩ := claimFirst_some _ hclaim
      rw [hset first (by simpa using hge) (hlt (by simpa using hgoal))] at hclear
      cases hclear

end Try

/-! ## All groups -/

section Search

variable (ops : Rebalance Window) (env : AllocEnv) (ino : Nat) {fuel : Nat} {fs fs' : Fs}

/-- The groups the loop of `kr_new_blocks` comes to in `n` rounds. -/
def SbInfo.laterGroups (sbi : SbInfo) (groupNo n : Nat) : List Nat :=
  (List.range n).map fun k => (groupNo + 1 + k) % sbi.sGroupsCount

theorem SbInfo.laterGroups_succ (sbi : SbInfo) (groupNo n : Nat) : sbi.laterGroups groupNo (n + 1) =
    (groupNo + 1) % sbi.sGroupsCount ::
      sbi.laterGroups ((groupNo + 1) % sbi.sGroupsCount) n := by
  simp only [SbInfo.laterGroups, List.range_succ_eq_map, List.map_cons, List.map_map, Nat.add_zero]
  congr 1
  refine List.map_congr_left fun k _ => ?_
  simp only [Function.comp_apply]
  rw [Nat.add_assoc ((groupNo + 1) % _), Nat.mod_add_mod]
  congr 1
  omega

/-- The first of them that counts a free block. -/
def Fs.nextGroup (fs : Fs) (groupNo n : Nat) : Option Nat :=
  (fs.sbi.laterGroups groupNo n).find? fun g => (fs.desc g).bgFreeBlocksCount.toNat ≠ 0

/-- An attempt without a window, by its search in the bitmap. -/
theorem tryGroup_run {group num num' : Nat} {grpGoal : Int} {found : Option Nat}
    (h : tryGroup ops ino fuel fs false group grpGoal num = .done (fs', found, num')) :
    ∃ bm', krTryToAllocate fs.sbi group (fs.blockBitmap group) grpGoal num none =
      .done (bm', found, num') ∧
      fs' = { fs with blockBitmap := Function.update fs.blockBitmap group bm' } := by
  simp only [tryGroup, Bool.false_eq_true, if_false] at h
  cases htry : krTryToAllocate fs.sbi group (fs.blockBitmap group) grpGoal num none with
  | bug => simp [htry, Exec.bind] at h
  | running => simp [htry, Exec.bind] at h
  | done res =>
    obtain ⟨bm', found', num1⟩ := res
    simp only [htry, Exec.bind, Exec.done.injEq, Prod.mk.injEq] at h
    obtain ⟨rfl, rfl, rfl⟩ := h
    exact ⟨bm', rfl, rfl⟩

/-- In a consistent state the loop ends in the first group that counts a free
block, with the count it came with. -/
theorem searchGroups_next (h : fs.Counted) {windowsz group first num' : Nat} (n : Nat) :
    ∀ {groupNo num : Nat}, groupNo < fs.sbi.sGroupsCount →
    searchGroups ops env ino fuel false windowsz n fs groupNo num =
      .done (fs', .found group first num') →
    fs.nextGroup groupNo n = some group ∧
      tryGroup ops ino fuel fs false group (-1) num = .done (fs', some first, num') := by
  induction n with
  | zero =>
    intro groupNo num _ hrun
    simp [searchGroups] at hrun
  | succ n ih =>
    intro groupNo num hno hrun
    obtain ⟨next, hnext, hmod, hlt⟩ := roundGroup hno
    have hgdp : fs.groupDesc next = some (fs.desc next) := by
      simp [Fs.groupDesc, hlt]
    simp only [searchGroups, ← hnext, hgdp, Bool.false_and, Bool.false_eq_true, if_false] at hrun
    rw [Fs.nextGroup, SbInfo.laterGroups_succ, ← hmod]
    split at hrun
    · rename_i hzero
      obtain ⟨hfind, htry⟩ := ih hlt hrun
      refine ⟨?_, htry⟩
      rw [List.find?_cons_of_neg (by simp [hzero])]
      exact hfind
    rename_i hfree
    split at hrun
    · cases hrun
    cases htry : tryGroup ops ino fuel fs false next (-1) num with
    | bug => simp [htry, Exec.bind] at hrun
    | running => simp [htry, Exec.bind] at hrun
    | done res =>
      obtain ⟨fs1, found, num1⟩ := res
      simp only [htry, Exec.bind] at hrun
      cases found with
      | none => exact absurd ((h.full_iff hlt).mp (tryGroup_missed ops ino htry)) hfree
      | some first1 =>
        simp only [Exec.done.injEq, Prod.mk.injEq, GroupSearch.found.injEq] at hrun
        obtain ⟨rfl, rfl, rfl, rfl⟩ := hrun
        exact ⟨List.find?_cons_of_pos (by simpa using hfree), htry⟩

/-- The goal group counts free blocks, and all of them lie before the goal. -/
def Fs.MissesGoal (fs : Fs) (groupNo bit : Nat) : Prop :=
  (fs.desc groupNo).bgFreeBlocksCount.toNat ≠ 0 ∧
    ∀ i < fs.sbi.sBlocksPerGroup, bit ≤ i → fs.blockBitmap groupNo i = true

/-- What a search for `count` blocks brings, by what became of the attempt on the
goal group. -/
theorem searchFrom_found (h : fs.Counted) {goal groupNo windowsz count group first num : Nat}
    (hno : groupNo < fs.sbi.sGroupsCount) (hcount : 1 ≤ count)
    (hrun : searchFrom ops env ino fuel fs goal groupNo false windowsz count =
      .done (fs', .found group first num)) :
    (fs.MissesGoal groupNo ((goal - fs.sbi.sEs.sFirstDataBlock.toNat) % fs.sbi.sBlocksPerGroup) ∧
      num = 1 ∧ fs.nextGroup groupNo fs.sbi.sGroupsCount = some group ∧
        usableBit (fs.blockBitmap group) fs.sbi.sBlocksPerGroup = some first) ∨
    (¬ fs.MissesGoal groupNo ((goal - fs.sbi.sEs.sFirstDataBlock.toNat) % fs.sbi.sBlocksPerGroup) ∧
      (num = count ∨ first + num = fs.sbi.sBlocksPerGroup ∨
        fs.blockBitmap group (first + num) = true)) := by
  have hmax : max 1 count = count := by omega
  have hminus : (-1 : Int) < fs.sbi.sBlocksPerGroup := by omega
  have hgdp : fs.groupDesc groupNo = some (fs.desc groupNo) := by
    simp [Fs.groupDesc, hno]
  obtain ⟨bit, hbit⟩ : ∃ bit, bit =
      (goal - fs.sbi.sEs.sFirstDataBlock.toNat) % fs.sbi.sBlocksPerGroup := ⟨_, rfl⟩
  have hlt : bit < fs.sbi.sBlocksPerGroup := hbit ▸ Nat.mod_lt _ h.bpg_pos
  simp only [searchFrom, hgdp, ← hbit] at hrun ⊢
  split at hrun
  · -- the goal group is not tried, and the count is still the one asked for
    rename_i hzero
    obtain ⟨-, htry⟩ := searchGroups_next ops env ino h _ hno hrun
    obtain ⟨bm', hfound, -⟩ := tryGroup_run ops ino htry
    have hmaximal := krTryToAllocate_maximal hminus hfound
    rw [hmax] at hmaximal
    exact .inr ⟨fun hmiss => hmiss.1 hzero, hmaximal⟩
  rename_i hfree
  split at hrun
  · cases hrun
  cases htry : tryGroup ops ino fuel fs false groupNo bit count with
  | bug => simp only [htry, Exec.bind, reduceCtorEq] at hrun
  | running => simp only [htry, Exec.bind, reduceCtorEq] at hrun
  | done res =>
    obtain ⟨fs1, found, num1⟩ := res
    simp only [htry, Exec.bind] at hrun
    obtain ⟨bm', hfound, hfs1⟩ := tryGroup_run ops ino htry
    have hmiss := krTryToAllocate_from_goal hlt hfound
    cases found with
    | some first1 =>
      simp only [Exec.done.injEq, Prod.mk.injEq, GroupSearch.found.injEq] at hrun
      obtain ⟨rfl, rfl, rfl, rfl⟩ := hrun
      have hmaximal := krTryToAllocate_maximal (by exact_mod_cast hlt) hfound
      rw [hmax] at hmaximal
      refine .inr ⟨fun hmisses => ?_, hmaximal⟩
      exact absurd (hmiss.mpr fun i hge hi => hmisses.2 i hi hge) (by simp)
    | none =>
      -- the failed attempt has stored 0 in the count
      rcases krTryToAllocate_spec (by exact_mod_cast hlt) hfound with ⟨-, rfl, rfl⟩ | ⟨_, hf, -⟩
      · rw [Function.update_eq_self] at hfs1
        subst hfs1
        obtain ⟨hnext, htry'⟩ := searchGroups_next ops env ino h _ hno hrun
        obtain ⟨bm'', hfound', -⟩ := tryGroup_run ops ino htry'
        have hone : num = 1 := by
          rcases krTryToAllocate_spec hminus hfound' with ⟨hnone, -⟩ | ⟨_, -, hclaim⟩
          · cases hnone
          · have := hclaim.pos
            have := hclaim.le
            omega
        exact .inl ⟨⟨hfree, fun i hi hge => hmiss.mp rfl i hge hi⟩, hone, hnext,
          krTryToAllocate_usable hfound'⟩
      · cases hf

theorem Fs.windowSize_chargeBlocks (fs : Fs) (ino : Nat) (blocks : Int) :
    (fs.chargeBlocks ino blocks).windowSize ino = fs.windowSize ino := by
  simp [Fs.windowSize, Fs.chargeBlocks, Inode.addSectors]

/-- A call that succeeds, by its loop at `retry_alloc` and its accounting. -/
theorem krNewBlocks_retry {goal count block num : Nat}
    (hrun : krNewBlocks ops env ino fuel fs goal count = .done (fs', .ok (block, num))) :
    env.quota = none ∧ krHasFreeBlocks fs.sbi env = true ∧
    ∃ fs1 group, retryAlloc ops env ino fuel (fs.sbi.goalBlock goal) (fs.sbi.goalGroup goal) fuel
        (fs.chargeBlocks ino count) (fs.sbi.goalGroup goal)
        (0 < (fs.chargeBlocks ino count).windowSize ino)
        ((fs.chargeBlocks ino count).windowSize ino) count = .done (fs1, .ok (group, block, num)) ∧
      fs' = newBlocksDone fs1 ino group num count := by
  have hhas := krNewBlocks_hasFreeBlocks ops env ino fuel hrun
  unfold krNewBlocks at hrun
  split at hrun
  · cases hrun
  rename_i hquota
  refine ⟨hquota, hhas, ?_⟩
  dsimp only at hrun
  split at hrun
  · cases hrun
  obtain ⟨⟨fs1, outcome⟩, hretry, hend⟩ := Exec.bind_eq_done.mp hrun
  cases outcome with
  | error e => cases hend
  | ok val =>
    obtain ⟨group, block', num'⟩ := val
    simp only [Exec.done.injEq, Prod.mk.injEq, Except.ok.injEq] at hend
    obtain ⟨rfl, rfl, rfl⟩ := hend
    exact ⟨fs1, group, hretry, rfl⟩

/-- Without a window there is one search. -/
theorem krNewBlocks_search (h : fs.Counted) (hwindow : fs.windowSize ino = 0)
    {goal count block num : Nat}
    (hrun : krNewBlocks ops env ino fuel fs goal count = .done (fs', .ok (block, num))) :
    ∃ fs1 group first, block = fs.sbi.groupFirstBlockNo group + first ∧
      searchFrom ops env ino fuel (fs.chargeBlocks ino count) (fs.sbi.goalBlock goal)
        (fs.sbi.goalGroup goal) false 0 count = .done (fs1, .found group first num) := by
  obtain ⟨-, -, fs1, group, hretry, -⟩ := krNewBlocks_retry ops env ino hrun
  rw [Fs.windowSize_chargeBlocks, hwindow] at hretry
  cases fuel with
  | zero => cases hretry
  | succ fuel =>
    unfold retryAlloc at hretry
    simp only [lt_irrefl, decide_false, keepRsv, Bool.false_and] at hretry
    obtain ⟨⟨fs2, found⟩, hsearch, hend⟩ := Exec.bind_eq_done.mp hretry
    have hok := searchFrom_spec ops env ino (fuel + 1) (h.chargeBlocks ino count).bpg_pos hsearch
    cases found with
    | ioError => cases hend
    | missed num' => cases hend
    | found group' first num' =>
      have hclaim : Claimed (fs.chargeBlocks ino count) fs2 group' first num' count := hok
      have hsbi : fs2.sbi = fs.sbi := by rw [hclaim.state]; rfl
      have hdesc : fs2.desc = fs.desc := by rw [hclaim.state]; rfl
      obtain ⟨hzone, hinside⟩ := h.run_ok hclaim.group_lt hclaim.run.pos hclaim.run.inside
        hclaim.run.clear
      rw [Nat.add_comm, ← hsbi, ← hdesc] at hzone
      simp only [hzone, Bool.false_eq_true, if_false] at hend
      split at hend
      · cases hend
      · simp only [Exec.done.injEq, Prod.mk.injEq, Except.ok.injEq] at hend
        obtain ⟨-, rfl, rfl, rfl⟩ := hend
        exact ⟨fs2, group', first, by rw [hsbi, Nat.add_comm], hsearch⟩

end Search

/-! ## The run that is handed out -/

/-- The run holds all blocks asked for, or the block after it begins the next group
or was in use. -/
def Fs.MaximalRun (fs : Fs) (block num count : Nat) : Prop :=
  let next := block + num - fs.sbi.sEs.sFirstDataBlock.toNat
  num = count ∨ next % fs.sbi.sBlocksPerGroup = 0 ∨
    fs.blockBitmap (next / fs.sbi.sBlocksPerGroup) (next % fs.sbi.sBlocksPerGroup) = true

theorem Fs.maximalRun_iff {fs : Fs} {group first num count : Nat} (hnum : 1 ≤ num)
    (hinside : first + num ≤ fs.sbi.sBlocksPerGroup) :
    fs.MaximalRun (fs.sbi.groupFirstBlockNo group + first) num count ↔ num = count ∨
      first + num = fs.sbi.sBlocksPerGroup ∨ fs.blockBitmap group (first + num) = true := by
  have hnext : fs.sbi.groupFirstBlockNo group + first + num - fs.sbi.sEs.sFirstDataBlock.toNat =
      group * fs.sbi.sBlocksPerGroup + (first + num) := by
    unfold SbInfo.groupFirstBlockNo
    omega
  unfold Fs.MaximalRun
  rw [hnext]
  dsimp only
  refine or_congr_right ?_
  rcases Nat.lt_or_eq_of_le hinside with hlt | hend
  · rw [Nat.mul_add_mod_of_lt hlt, Nat.mul_comm, Nat.mul_add_div (by omega),
      Nat.div_eq_of_lt hlt, Nat.add_zero]
    refine or_congr_left ?_
    omega
  · simp [hend]

/-- The request survives until the attempt that succeeds, or that attempt finds
room for one block only. -/
def Fs.KeepsRequest (fs : Fs) (goal count : Nat) : Prop :=
  count = 1 ∨ ¬ fs.MissesGoal (fs.sbi.goalGroup goal) (fs.sbi.goalBit goal) ∨
    ∀ group first, fs.nextGroup (fs.sbi.goalGroup goal) fs.sbi.sGroupsCount = some group →
      usableBit (fs.blockBitmap group) fs.sbi.sBlocksPerGroup = some first →
      first + 1 = fs.sbi.sBlocksPerGroup ∨ fs.blockBitmap group (first + 1) = true

/-- Without a window the run that `kr_new_blocks` hands out is maximal just when
the attempt on the goal group has not spoilt the request. -/
theorem krNewBlocks_maximal_iff {ops : Rebalance Window} {env : AllocEnv} {ino fuel : Nat}
    {fs fs' : Fs} {k : MountEnv} {es : SuperBlock} (accepted : krFillSuper k es = .ok fs.sbi)
    (h : fs.Counted) (hwindow : fs.windowSize ino = 0) {goal count block num : Nat}
    (hcount : 1 ≤ count)
    (hrun : krNewBlocks ops env ino fuel fs goal count = .done (fs', .ok (block, num))) :
    fs.MaximalRun block num count ↔ fs.KeepsRequest goal count := by
  obtain ⟨fs1, group, first, rfl, hsearch⟩ := krNewBlocks_search ops env ino h hwindow hrun
  have hclaim : Claimed (fs.chargeBlocks ino count) fs1 group first num count :=
    searchFrom_spec ops env ino fuel (h.chargeBlocks ino count).bpg_pos hsearch
  have hpos := hclaim.run.pos
  have hinside : first + num ≤ fs.sbi.sBlocksPerGroup := hclaim.run.inside
  rw [Fs.maximalRun_iff hpos hinside]
  have hno : fs.sbi.goalGroup goal < fs.sbi.sGroupsCount := goalGroup_lt accepted goal
  rcases searchFrom_found ops env ino (h.chargeBlocks ino count) hno hcount hsearch with
    ⟨hmiss, rfl, hnext, hfirst⟩ | ⟨hkeep, hmax⟩
  · constructor
    · rintro (hone | hrest)
      · exact .inl hone.symm
      · refine .inr (.inr fun g b hg hb => ?_)
        obtain rfl : g = group := Option.some.inj (hg.symm.trans hnext)
        obtain rfl : b = first := Option.some.inj (hb.symm.trans hfirst)
        exact hrest
    · rintro (hone | hnot | hroom)
      · exact .inl hone.symm
      · exact absurd hmiss hnot
      · exact .inr (hroom group first hnext hfirst)
  · exact iff_of_true hmax (.inr (.inl hkeep))

/-- The last four blocks of the image are in use, and six blocks before them are
free. -/
def tailFs : Fs :=
  { reserveFs with
    desc := fun _ => { smallDesc with bgFreeBlocksCount := 6 }
    blockBitmap := fun _ i => decide (i < 6 ∨ 12 ≤ i) }

theorem tailFs_counted : tailFs.Counted := by
  have hwindows : tailFs.rsv.Wf := reserveFs_counted.windows
  refine ⟨⟨by decide, fun g hg i hi hs => ?_, fun g hg i hi hp => ?_⟩, fun g hg => ?_, hwindows⟩
  · have hset := reserveFs_systemSet.system g hg i hi hs
    have hlt : i < 6 := by simpa [reserveFs] using hset
    exact decide_eq_true (.inl hlt)
  · have hset := reserveFs_systemSet.padding g hg i hi hp
    have hlt : i < 6 := by simpa [reserveFs] using hset
    exact decide_eq_true (.inl hlt)
  · have hzero : g = 0 := Nat.lt_one_iff.mp hg
    subst hzero
    decide +kernel

/-- The block and the count of a call that succeeded. -/
def gotBlocks : Exec (Fs × Except Errno (Nat × Nat)) → Option (Nat × Nat)
  | .done (_, .ok got) => some got
  | _ => none

theorem krNewBlocks_of_gotBlocks {run : Exec (Fs × Except Errno (Nat × Nat))} {block num : Nat}
    (h : gotBlocks run = some (block, num)) : ∃ fs', run = .done (fs', .ok (block, num)) := by
  unfold gotBlocks at h
  split at h
  · cases h
    exact ⟨_, rfl⟩
  · cases h

/-- A goal among the free blocks. -/
theorem krNewBlocks_maximal_iff_free : ∃ fs', krNewBlocks Rebalance.plain reserveEnv 12 40 tailFs 8 4 =
    .done (fs', .ok (8, 4)) ∧ tailFs.MaximalRun 8 4 4 := by
  obtain ⟨fs', hrun⟩ := krNewBlocks_of_gotBlocks (show gotBlocks (krNewBlocks Rebalance.plain
    reserveEnv 12 40 tailFs 8 4) = some (8, 4) by decide +kernel)
  refine ⟨fs', hrun, (krNewBlocks_maximal_iff krFillSuper_reserveImage tailFs_counted rfl
    (by decide) hrun).mpr (.inr (.inl ?_))⟩
  rintro ⟨-, hset⟩
  exact absurd (hset 7 (by decide) (by decide)) (by decide)

/-- A goal behind them: four blocks are asked for and six lie together, but one is
handed out. -/
theorem krNewBlocks_spoilt_request : tailFs.Counted ∧ ∃ fs',
    krNewBlocks Rebalance.plain reserveEnv 12 40 tailFs 14 4 = .done (fs', .ok (7, 1)) ∧
      ¬ tailFs.MaximalRun 7 1 4 := by
  obtain ⟨fs', hrun⟩ := krNewBlocks_of_gotBlocks (show gotBlocks (krNewBlocks Rebalance.plain
    reserveEnv 12 40 tailFs 14 4) = some (7, 1) by decide +kernel)
  refine ⟨tailFs_counted, fs', hrun, ?_⟩
  unfold Fs.MaximalRun
  decide

end KrFs
