import KrFs.NewBlocksFail
import KrFs.BlockBits
import KrFs.Reserve

/-!
# The blocks of a branch

`kr_alloc_blocks` calls `kr_new_blocks` until it has the indirect blocks of a branch and a
block of data. A call that comes to no run in the metadata hands out the run that it marks
first, or fails. So whether a branch gets its blocks is told by the bitmaps, the descriptors,
the goal and the windows there are before the first call.
-/

namespace KrFs

open SearchTree

/-! ## One call -/

/-- The blocks of a run that is handed out are counted as used. -/
def AllocView.handedOut (v : AllocView) (run : MarkedRun) : AllocView :=
  { v with desc :=
      Function.update v.desc run.group (groupAdjustBlocks (v.desc run.group) (-run.num)) }

/-- A call searches and hands out the run that it marks first. -/
def AllocView.HandsOut (v : AllocView) (env : AllocEnv) (goal count : Nat) (run : MarkedRun)
    (v' : AllocView) : Prop :=
  env.MaySearch v.sbi ∧ ¬ run.Strays v.sbi v.desc ∧
    ∃ v₁, v.FirstRun env.readBitmap goal count run v₁ ∧ v' = v₁.handedOut run

/-- A call searches and marks a run in the metadata first. -/
def AllocView.MarksZone (v : AllocView) (env : AllocEnv) (goal count : Nat) : Prop :=
  env.MaySearch v.sbi ∧
    ∃ run v', v.FirstRun env.readBitmap goal count run v' ∧ run.InZone v.sbi v.desc

theorem AllocView.HandsOut.unique {v v₁ v₂ : AllocView} {env : AllocEnv} {goal count : Nat}
    {run run' : MarkedRun} (h : v.HandsOut env goal count run v₁)
    (h' : v.HandsOut env goal count run' v₂) : run = run' ∧ v₁ = v₂ := by
  obtain ⟨-, -, w, hfirst, rfl⟩ := h
  obtain ⟨-, -, w', hfirst', rfl⟩ := h'
  obtain ⟨rfl, rfl⟩ := hfirst.unique hfirst'
  exact ⟨rfl, rfl⟩

section Call

variable {ops : Rebalance Window} {env : AllocEnv} {ino fuel goal goalGroup : Nat} {fs fs' : Fs}

/-- The loop ends with the run that it marks first, when that lies outside the metadata, and
without one it fails. -/
theorem retryAlloc_marks {result : Except (Errno × Bool) (Nat × Nat × Nat)} (rounds : Nat) :
    ∀ {fs : Fs} {groupNo : Nat} {useRsv : Bool} {windowsz num : Nat},
    0 < fs.sbi.sBlocksPerGroup →
    retryAlloc ops env ino fuel goal goalGroup rounds fs groupNo useRsv windowsz num =
      .done (fs', result) →
    (∃ fs₁ run, MarksFirst ops env ino fuel goal goalGroup fs groupNo useRsv windowsz num fs₁ run ∧
      (run.InZone fs.sbi fs.desc ∨ fs' = fs₁ ∧
        result = if fs.sbi.sEs.sBlocksCount.toNat ≤ run.block fs.sbi + run.num - 1 then
          .error (.enospc, true) else .ok (run.group, run.block fs.sbi, run.num))) ∨
    (∀ fs₁ run,
      ¬ MarksFirst ops env ino fuel goal goalGroup fs groupNo useRsv windowsz num fs₁ run) ∧
      ∃ e, result = .error (e, false) := by
  induction rounds with
  | zero =>
    intro fs groupNo useRsv windowsz num _ hrun
    cases hrun
  | succ rounds ih =>
    intro fs groupNo useRsv windowsz num hbpg hrun
    unfold retryAlloc at hrun
    obtain ⟨⟨fs₁, found⟩, hsearch, hend⟩ := Exec.bind_eq_done.mp hrun
    have hok := searchFrom_spec ops env ino fuel hbpg hsearch
    have hsbi : fs₁.sbi = fs.sbi := hok.sbi
    dsimp only at hend
    cases found with
    | ioError =>
      cases hend
      exact Or.inr ⟨fun fs₂ run hmarks => hmarks.not_ioError hsearch, _, rfl⟩
    | missed num₁ =>
      have hsame : SameButRsv fs fs₁ := hok.1
      have hdesc : fs₁.desc = fs.desc := by rw [hsame]
      dsimp only at hend
      split at hend
      · -- the search is made again without the window
        rename_i hrsv
        rcases ih (hsbi ▸ hbpg) hend with ⟨fs₂, run, hmarks, hcase⟩ | ⟨hnone, herr⟩
        · rw [hsbi, hdesc] at hcase
          exact Or.inl ⟨fs₂, run, .again hsearch hrsv hmarks, hcase⟩
        · exact Or.inr ⟨fun fs₂ run hmarks => hnone fs₂ run (hmarks.of_missed hsearch).2, herr⟩
      · rename_i hrsv
        cases hend
        exact Or.inr ⟨fun fs₂ run hmarks => hrsv (hmarks.of_missed hsearch).1, _, rfl⟩
    | found group first num₁ =>
      have hclaim : Claimed fs fs₁ group first num₁ num := hok
      have hdesc : fs₁.desc = fs.desc := by rw [hclaim.state]
      refine Or.inl ⟨fs₁, ⟨group, first, num₁⟩, .found hsearch, ?_⟩
      dsimp only at hend
      rw [hsbi, hdesc] at hend
      split at hend
      · rename_i hzone
        exact Or.inl hzone
      · split at hend
        · rename_i hpast
          cases hend
          exact Or.inr ⟨rfl, (if_pos hpast).symm⟩
        · rename_i hpast
          cases hend
          exact Or.inr ⟨rfl, (if_neg hpast).symm⟩

theorem Fs.allocView_newBlocksDone (fs : Fs) (ino count : Nat) (run : MarkedRun) :
    (newBlocksDone fs ino run.group run.num count).allocView ino =
      (fs.allocView ino).handedOut run := by
  unfold newBlocksDone
  dsimp only
  split
  · exact Fs.allocView_chargeBlocks _ _ _
  · rfl

/-- What a call gives that marks nothing in the metadata. -/
theorem krNewBlocks_handsOut {count : Nat} {result : Except Errno (Nat × Nat)}
    (hbpg : 0 < fs.sbi.sBlocksPerGroup) (hwf : fs.rsv.Wf)
    (hclean : ¬ (fs.allocView ino).MarksZone env goal count)
    (hrun : krNewBlocks ops env ino fuel fs goal count = .done (fs', result)) :
    (∃ run, result = .ok (run.block fs.sbi, run.num) ∧
      (fs.allocView ino).HandsOut env goal count run (fs'.allocView ino)) ∨
    (∃ e, result = .error e) ∧ ∀ run v', ¬ (fs.allocView ino).HandsOut env goal count run v' := by
  unfold krNewBlocks at hrun
  split at hrun
  · rename_i err hquota
    cases hrun
    refine Or.inr ⟨⟨err, rfl⟩, fun run v' hout => ?_⟩
    rw [hout.1.1] at hquota
    cases hquota
  rename_i hquota
  dsimp only at hrun
  split at hrun
  · rename_i hhas
    cases hrun
    refine Or.inr ⟨⟨_, rfl⟩, fun run v' hout => ?_⟩
    have hmay : krHasFreeBlocks (fs.chargeBlocks ino count).sbi env = true := hout.1.2
    rw [hmay] at hhas
    cases hhas
  rename_i hhas
  have hmay : env.MaySearch fs.sbi := by
    refine ⟨hquota, ?_⟩
    have hno : ¬ (!krHasFreeBlocks fs.sbi env) = true := hhas
    simpa using hno
  obtain ⟨⟨fs₁, outcome⟩, hretry, hend⟩ := Exec.bind_eq_done.mp hrun
  have hbpg' : 0 < (fs.chargeBlocks ino count).sbi.sBlocksPerGroup := hbpg
  have hwf' : (fs.chargeBlocks ino count).rsv.Wf := hwf
  rcases retryAlloc_marks fuel hbpg' hretry with ⟨fs₂, run, hmarks, hcase⟩ | ⟨hnone, e, rfl⟩
  · have hfirst := hmarks.firstRun hbpg' hwf'
    rw [fs.allocView_chargeBlocks ino count] at hfirst
    have hzone : ¬ run.InZone fs.sbi fs.desc := fun hin => hclean ⟨hmay, run, _, hfirst, hin⟩
    obtain ⟨rfl, rfl⟩ := hcase.resolve_left hzone
    split at hend
    · rename_i hout
      split at hout
      · -- the run lies past the end
        rename_i hpast
        cases hout
        cases hend
        refine Or.inr ⟨⟨_, rfl⟩, ?_⟩
        rintro run' v' ⟨-, hstray, v₁, hfirst', -⟩
        obtain ⟨rfl, -⟩ := hfirst.unique hfirst'
        exact hstray (Or.inr hpast)
      · cases hout
    · rename_i hout
      split at hout
      · cases hout
      · rename_i hpast
        cases hout
        cases hend
        refine Or.inl ⟨run, rfl, hmay, ?_, _, hfirst, fs₁.allocView_newBlocksDone ino count run⟩
        rintro (hin | hout)
        · exact hzone hin
        · exact hpast hout
  · cases hend
    refine Or.inr ⟨⟨_, rfl⟩, ?_⟩
    rintro run v' ⟨-, -, v₁, hfirst, -⟩
    rw [← fs.allocView_chargeBlocks ino count] at hfirst
    obtain ⟨fs₂, -, hmarks⟩ := hfirst.marksFirst hbpg' hwf' hretry
    exact hnone fs₂ run hmarks

/-- A call leaves the windows in order. -/
theorem krNewBlocks_wf {count : Nat} {result : Except Errno (Nat × Nat)}
    (hbpg : 0 < fs.sbi.sBlocksPerGroup) (hwf : fs.rsv.Wf)
    (hrun : krNewBlocks ops env ino fuel fs goal count = .done (fs', result)) : fs'.rsv.Wf := by
  obtain ⟨fs₁, result₁, hlong, hwf₁⟩ := krNewBlocks_returns ops env ino hbpg hwf
    (le_max_left fs.sbi.allocFuel fuel) goal count
  -- with more fuel the call ends in the same way
  have hmore := krNewBlocks_continues ops env ino (le_max_right fs.sbi.allocFuel fuel) fs goal count _
    hrun
  rw [hlong] at hmore
  cases hmore
  exact hwf₁

/-- Where metadata and padding are marked in use, no run in the metadata is marked. -/
theorem Fs.SystemSet.not_marksZone (h : fs.SystemSet) (goal count : Nat) :
    ¬ (fs.allocView ino).MarksZone env goal count := by
  rintro ⟨-, run, v', hfirst, hzone⟩
  exact h.first_run_ok hfirst (Or.inl hzone)

/-- A call keeps them marked. -/
theorem Fs.SystemSet.newBlocks {count : Nat} {result : Except Errno (Nat × Nat)} (h : fs.SystemSet)
    (hcount : 1 ≤ count)
    (hrun : krNewBlocks ops env ino fuel fs goal count = .done (fs', result)) : fs'.SystemSet := by
  have heffect := krNewBlocks_effect ops env ino fuel h hcount hrun
  cases result with
  | error e =>
    have hsame : SameButRsv fs fs' := heffect
    rw [hsame]
    exact ⟨h.bpg_pos, h.system, h.padding⟩
  | ok found =>
    obtain ⟨block, n⟩ := found
    obtain ⟨group, first, -, -, -, -, -, -, heq⟩ := heffect
    rw [heq]
    exact h.takeRun fs'.rsv ino group first n

end Call

/-! ## The calls for a branch -/

/-- Where `kr_alloc_blocks` stands: the number of its next call, what the search of that depends
on, the blocks that are wanted, and how many of these go to indirect blocks. -/
structure BranchRequest where
  call : Nat
  view : AllocView
  target : Nat
  indirect : Nat

namespace BranchRequest

variable (alloc : Nat → AllocEnv) (goal : Nat)

/-- The next call hands out the run. -/
def HandsOut (q : BranchRequest) (run : MarkedRun) (v' : AllocView) : Prop :=
  q.view.HandsOut (alloc q.call) goal q.target run v'

/-- All its blocks go to indirect blocks, and there is another call. -/
def Next (q q' : BranchRequest) : Prop :=
  ∃ run v', q.HandsOut alloc goal run v' ∧ run.num ≤ q.indirect ∧
    q' = ⟨q.call + 1, v', q.target - run.num, q.indirect - run.num⟩

/-- The calls come to a request with the property. -/
def Reaches (P : BranchRequest → Prop) (q : BranchRequest) : Prop :=
  ∃ q', Relation.ReflTransGen (Next alloc goal) q q' ∧ P q'

/-- The calls hand out all indirect blocks and at least one block of data. -/
def Completes (q : BranchRequest) : Prop :=
  q.Reaches alloc goal fun q' => ∃ run v', q'.HandsOut alloc goal run v' ∧ q'.indirect < run.num

variable {alloc goal} {P : BranchRequest → Prop} {q : BranchRequest}

theorem reaches_iff : q.Reaches alloc goal P ↔
    P q ∨ ∃ q', Next alloc goal q q' ∧ q'.Reaches alloc goal P := by
  constructor
  · rintro ⟨q', hreach, hq'⟩
    rcases hreach.cases_head with rfl | ⟨q₁, hnext, hrest⟩
    · exact Or.inl hq'
    · exact Or.inr ⟨q₁, hnext, q', hrest, hq'⟩
  · rintro (hq | ⟨q₁, hnext, q', hrest, hq'⟩)
    · exact ⟨q, .refl, hq⟩
    · exact ⟨q', .head hnext hrest, hq'⟩

/-- A call that fails is the last. -/
theorem reaches_of_fails (hfail : ∀ run v', ¬ q.HandsOut alloc goal run v') :
    q.Reaches alloc goal P ↔ P q := by
  rw [reaches_iff]
  refine or_iff_left ?_
  rintro ⟨q', ⟨run, v', hout, -⟩, -⟩
  exact hfail run v' hout

/-- So is one that hands out data. -/
theorem reaches_of_data {run : MarkedRun} {v' : AllocView} (hout : q.HandsOut alloc goal run v')
    (hdata : q.indirect < run.num) : q.Reaches alloc goal P ↔ P q := by
  rw [reaches_iff]
  refine or_iff_left ?_
  rintro ⟨q', ⟨run', v'', hout', hshort, -⟩, -⟩
  obtain ⟨rfl, -⟩ := hout.unique hout'
  omega

theorem reaches_of_short {run : MarkedRun} {v' : AllocView} (hout : q.HandsOut alloc goal run v')
    (hshort : run.num ≤ q.indirect) : q.Reaches alloc goal P ↔ P q ∨
      (BranchRequest.mk (q.call + 1) v' (q.target - run.num) (q.indirect - run.num)).Reaches alloc
        goal P := by
  rw [reaches_iff]
  refine or_congr_right ⟨?_, fun hrest => ⟨_, ⟨run, v', hout, hshort, rfl⟩, hrest⟩⟩
  rintro ⟨q', ⟨run', v'', hout', -, rfl⟩, hrest⟩
  obtain ⟨rfl, rfl⟩ := hout.unique hout'
  exact hrest

end BranchRequest

section Branch

variable {ops : Rebalance Window} {env : GetBlocksEnv} {ino fuel goal : Nat} {fs fs' : Fs}

/-- Each round of `kr_alloc_blocks` is a call of the request. -/
theorem allocBlocksLoop_completes {indirectBlks blks : Nat} (hblks : 1 ≤ blks) (rounds : Nat) :
    ∀ {k : Nat} {fs : Fs} {target : Nat} {new : List Nat}
      {result : Except (Errno × List Nat) (List Nat × Nat × Nat)},
    fs.SystemSet → fs.rsv.Wf → target + new.length = blks + indirectBlks →
    new.length ≤ indirectBlks →
    allocBlocksLoop ops env ino fuel goal indirectBlks rounds k fs target new =
      .done (fs', result) →
    ((∃ found, result = .ok found) ↔ (BranchRequest.mk k (fs.allocView ino) target
      (indirectBlks - new.length)).Completes env.alloc goal) := by
  induction rounds with
  | zero =>
    intro k fs target new result _ _ _ _ hrun
    cases hrun
  | succ rounds ih =>
    intro k fs target new result hsys hwf htarget hlen hrun
    unfold allocBlocksLoop at hrun
    obtain ⟨⟨fs₁, outcome⟩, hcall, hend⟩ := Exec.bind_eq_done.mp hrun
    have htarget1 : 1 ≤ target := by omega
    rcases krNewBlocks_handsOut hsys.bpg_pos hwf (hsys.not_marksZone goal target) hcall with
      ⟨run, rfl, hout⟩ | ⟨⟨e, rfl⟩, hfail⟩
    · obtain ⟨hgrow, hblocks⟩ := krNewBlocks_bits hsys.bpg_pos htarget1 hcall
      obtain ⟨hpos, hle, -⟩ := hblocks _ _ rfl
      have hserves : (BranchRequest.mk k (fs.allocView ino) target
        (indirectBlks - new.length)).HandsOut env.alloc goal run (fs₁.allocView ino) := hout
      dsimp only at hend
      by_cases hdata : 0 < run.num - min (indirectBlks - new.length) run.num
      · -- the indirect blocks are complete and the rest is data
        rw [if_pos hdata] at hend
        cases hend
        have hmore : indirectBlks - new.length < run.num := by omega
        refine iff_of_true ⟨_, rfl⟩ ?_
        exact (BranchRequest.reaches_of_data hserves hmore).mpr ⟨run, _, hserves, hmore⟩
      · rw [if_neg hdata] at hend
        have hshort : run.num ≤ indirectBlks - new.length := by omega
        have htaken : (new ++ List.range' (run.block fs.sbi)
            (min (indirectBlks - new.length) run.num)).length = new.length + run.num := by
          rw [List.length_append, List.length_range']
          omega
        have hrest := ih (hsys.newBlocks htarget1 hcall) (krNewBlocks_wf hsys.bpg_pos hwf hcall)
          (by rw [htaken]; omega) (by rw [htaken]; omega) hend
        rw [hrest, htaken, ← Nat.sub_sub]
        unfold BranchRequest.Completes
        rw [BranchRequest.reaches_of_short hserves hshort]
        refine (or_iff_right ?_).symm
        rintro ⟨run', v', hserves', hmore⟩
        obtain ⟨rfl, -⟩ := hserves.unique hserves'
        exact absurd hmore (not_lt_of_ge hshort)
    · cases hend
      have hfails : ∀ run v', ¬ (BranchRequest.mk k (fs.allocView ino) target
        (indirectBlks - new.length)).HandsOut env.alloc goal run v' := hfail
      refine iff_of_false (by simp) fun hcompletes => ?_
      obtain ⟨run, v', hout, -⟩ := (BranchRequest.reaches_of_fails hfails).mp hcompletes
      exact hfails run v' hout

/-- The loop of `kr_alloc_branch` gets a buffer for each new indirect block, or fails. -/
theorem fillBranch_filled (env : GetBlocksEnv) (data num : Nat) (new : List Nat) :
    ∀ (n : Nat) (fs : Fs) (offsets : List Nat), new.length = offsets.length →
    ((fillBranch env data num n fs new offsets).2 = true ↔
      ∀ i < new.length, env.getblk (n + i) = true) := by
  induction new with
  | nil =>
    intro n fs offsets _
    simp [fillBranch]
  | cons b rest ih =>
    intro n fs offsets hlen
    obtain ⟨off, offsets, rfl⟩ := List.exists_cons_of_ne_nil
      (l := offsets) (by rintro rfl; simp at hlen)
    unfold fillBranch
    split
    · rename_i hno
      refine iff_of_false Bool.false_ne_true fun hall => ?_
      have hfirst : env.getblk n = true := hall 0 (by simp)
      rw [hfirst] at hno
      cases hno
    · rename_i hyes
      dsimp only
      rw [ih _ _ _ (by simpa using hlen), List.length_cons, Nat.forall_lt_succ_left']
      have hfirst : env.getblk (n + 0) = true := by simpa using hyes
      simp only [hfirst, true_and, Nat.add_right_comm n 1, Nat.add_assoc]

end Branch

end KrFs
