import KrFs.FirstRun
import KrFs.InodeTable

/-!
# Allocations that fail

`kr_new_blocks` marks a run of blocks in use before it looks at where the run lies. A run
that it does not accept stays marked: after one in the metadata it goes on to search, after
one past the end of the image it fails, and then it does not give the quota back either.
-/

namespace KrFs

open SearchTree

section Fail

variable (ops : Rebalance Window) (env : AllocEnv) (ino fuel : Nat)

/-- The code of the loop comes to a first run, with the state it leaves: a search that finds
nothing is made again without the window. -/
inductive MarksFirst (goal goalGroup : Nat) :
    Fs → Nat → Bool → Nat → Nat → Fs → MarkedRun → Prop
  | found {fs fs' : Fs} {groupNo : Nat} {useRsv : Bool} {windowsz num group first n : Nat}
      (search : searchFrom ops env ino fuel fs goal groupNo
        (keepRsv ino fs groupNo useRsv windowsz) windowsz num = .done (fs', .found group first n)) :
      MarksFirst goal goalGroup fs groupNo useRsv windowsz num fs' ⟨group, first, n⟩
  | again {fs fs₁ fs' : Fs} {groupNo : Nat} {useRsv : Bool} {windowsz num num₁ : Nat}
      {run : MarkedRun}
      (search : searchFrom ops env ino fuel fs goal groupNo
        (keepRsv ino fs groupNo useRsv windowsz) windowsz num = .done (fs₁, .missed num₁))
      (hrsv : keepRsv ino fs groupNo useRsv windowsz = true)
      (rest : MarksFirst goal goalGroup fs₁ goalGroup false 0 num₁ fs' run) :
      MarksFirst goal goalGroup fs groupNo useRsv windowsz num fs' run

end Fail

/-- The call gets to search for blocks, and the first run that it marks is stray. -/
def NewBlocksStrays (env : AllocEnv) (ino : Nat) (fs : Fs) (goal count : Nat) : Prop :=
  env.MaySearch fs.sbi ∧ ∃ run v',
    (fs.allocView ino).FirstRun env.readBitmap goal count run v' ∧ run.Strays fs.sbi fs.desc

/-- The call has charged nothing, and no block that was free is marked in use. -/
def NewBlocksKept (fs fs' : Fs) : Prop :=
  (∀ i, (fs'.inode i).iBlocks = (fs.inode i).iBlocks) ∧
    ∀ g bit, fs.blockBitmap g bit = false → fs'.blockBitmap g bit = false

section Spec

variable {ops : Rebalance Window} {env : AllocEnv} {ino fuel goal goalGroup : Nat} {fs fs' : Fs}

theorem SameButRsv.kept (h : SameButRsv fs fs') : NewBlocksKept fs fs' := by
  rw [h]
  exact ⟨fun _ => rfl, fun _ _ hclear => hclear⟩

theorem SearchOk.sbi {count : Nat} {result : GroupSearch} (h : SearchOk fs fs' count result) :
    fs'.sbi = fs.sbi := by
  cases result with
  | found group first num =>
    have hclaim : Claimed fs fs' group first num count := h
    rw [hclaim.state]
  | missed num =>
    have hsame : SameButRsv fs fs' := h.1
    rw [hsame]
  | ioError =>
    have hsame : SameButRsv fs fs' := h
    rw [hsame]

/-- A search marks bits and clears none. -/
theorem SearchOk.grows {count g i : Nat} {result : GroupSearch} (h : SearchOk fs fs' count result)
    (hset : fs.blockBitmap g i = true) : fs'.blockBitmap g i = true := by
  cases result with
  | found group first num =>
    have hclaim : Claimed fs fs' group first num count := h
    rw [hclaim.state]
    dsimp only
    by_cases hg : g = group
    · subst hg
      rw [Function.update_self, hclaim.run.bits, setBits, hset, Bool.true_or]
    · rw [Function.update_of_ne hg]
      exact hset
  | missed num =>
    have hsame : SameButRsv fs fs' := h.1
    rw [hsame]
    exact hset
  | ioError =>
    have hsame : SameButRsv fs fs' := h
    rw [hsame]
    exact hset

/-- So does the loop at `retry_alloc`. -/
theorem retryAlloc_grows {g i : Nat} {result : Except (Errno × Bool) (Nat × Nat × Nat)} (rounds : Nat) :
    ∀ {fs : Fs} {groupNo : Nat} {useRsv : Bool} {windowsz num : Nat},
    0 < fs.sbi.sBlocksPerGroup →
    retryAlloc ops env ino fuel goal goalGroup rounds fs groupNo useRsv windowsz num =
      .done (fs', result) → fs.blockBitmap g i = true → fs'.blockBitmap g i = true := by
  induction rounds with
  | zero =>
    intro fs groupNo useRsv windowsz num _ hrun
    cases hrun
  | succ rounds ih =>
    intro fs groupNo useRsv windowsz num hbpg hrun hset
    unfold retryAlloc at hrun
    dsimp only at hrun
    cases hsearch : searchFrom ops env ino fuel fs goal groupNo
        (keepRsv ino fs groupNo useRsv windowsz) windowsz num with
    | bug => simp [hsearch, Exec.bind] at hrun
    | running => simp [hsearch, Exec.bind] at hrun
    | done res =>
      obtain ⟨fs₁, found⟩ := res
      simp only [hsearch, Exec.bind] at hrun
      have hok := searchFrom_spec ops env ino fuel hbpg hsearch
      have hset₁ : fs₁.blockBitmap g i = true := hok.grows hset
      have hsbi : fs₁.sbi = fs.sbi := hok.sbi
      have hbpg₁ : 0 < fs₁.sbi.sBlocksPerGroup := by
        rw [hsbi]
        exact hbpg
      cases found with
      | ioError =>
        cases hrun
        exact hset₁
      | missed num₁ =>
        dsimp only at hrun
        split at hrun
        · exact ih hbpg₁ hrun hset₁
        · cases hrun
          exact hset₁
      | found group first num₁ =>
        dsimp only at hrun
        split at hrun
        · exact ih hbpg₁ hrun hset₁
        · split at hrun
          · cases hrun
            exact hset₁
          · cases hrun
            exact hset₁

/-- A claim takes a bit that was clear. -/
theorem Claimed.takes {group first num count : Nat} (h : Claimed fs fs' group first num count) :
    fs.blockBitmap group first = false ∧ fs'.blockBitmap group first = true := by
  have hpos := h.run.pos
  refine ⟨h.run.clear first (le_refl _) (by omega), ?_⟩
  rw [h.run.bits, setBits, decide_eq_true (le_refl _), decide_eq_true (by omega : first < first + num)]
  exact Bool.or_true _

theorem MarksFirst.not_ioError {groupNo windowsz num : Nat} {useRsv : Bool} {fs₁ : Fs}
    {run : MarkedRun}
    (h : MarksFirst ops env ino fuel goal goalGroup fs groupNo useRsv windowsz num fs' run)
    (hsearch : searchFrom ops env ino fuel fs goal groupNo (keepRsv ino fs groupNo useRsv windowsz)
      windowsz num = .done (fs₁, .ioError)) : False := by
  cases h with
  | found hfound =>
    rw [hsearch] at hfound
    cases hfound
  | again hmissed =>
    rw [hsearch] at hmissed
    cases hmissed

theorem MarksFirst.of_missed {groupNo windowsz num num₁ : Nat} {useRsv : Bool} {fs₁ : Fs}
    {run : MarkedRun}
    (h : MarksFirst ops env ino fuel goal goalGroup fs groupNo useRsv windowsz num fs' run)
    (hsearch : searchFrom ops env ino fuel fs goal groupNo (keepRsv ino fs groupNo useRsv windowsz)
      windowsz num = .done (fs₁, .missed num₁)) :
    keepRsv ino fs groupNo useRsv windowsz = true ∧
      MarksFirst ops env ino fuel goal goalGroup fs₁ goalGroup false 0 num₁ fs' run := by
  cases h with
  | found hfound =>
    rw [hsearch] at hfound
    cases hfound
  | again hmissed hrsv rest =>
    rw [hsearch] at hmissed
    cases hmissed
    exact ⟨hrsv, rest⟩

/-- Without a run the loop changes reservations only; and when it fails after it has marked
one, the run is stray and stays marked. -/
theorem retryAlloc_failed {e : Errno} {performed : Bool} (rounds : Nat) :
    ∀ {fs : Fs} {groupNo : Nat} {useRsv : Bool} {windowsz num : Nat},
    0 < fs.sbi.sBlocksPerGroup →
    retryAlloc ops env ino fuel goal goalGroup rounds fs groupNo useRsv windowsz num =
      .done (fs', .error (e, performed)) →
    (performed = false ∧ SameButRsv fs fs' ∧ ∀ fs₁ run,
      ¬ MarksFirst ops env ino fuel goal goalGroup fs groupNo useRsv windowsz num fs₁ run) ∨
    ∃ fs₁ run, MarksFirst ops env ino fuel goal goalGroup fs groupNo useRsv windowsz num fs₁ run ∧
      run.Strays fs.sbi fs.desc ∧ fs.blockBitmap run.group run.first = false ∧
        fs'.blockBitmap run.group run.first = true := by
  induction rounds with
  | zero =>
    intro fs groupNo useRsv windowsz num _ hrun
    cases hrun
  | succ rounds ih =>
    intro fs groupNo useRsv windowsz num hbpg hrun
    unfold retryAlloc at hrun
    dsimp only at hrun
    cases hsearch : searchFrom ops env ino fuel fs goal groupNo
        (keepRsv ino fs groupNo useRsv windowsz) windowsz num with
    | bug => simp [hsearch, Exec.bind] at hrun
    | running => simp [hsearch, Exec.bind] at hrun
    | done res =>
      obtain ⟨fs₁, found⟩ := res
      simp only [hsearch, Exec.bind] at hrun
      have hok := searchFrom_spec ops env ino fuel hbpg hsearch
      have hbpg₁ : 0 < fs₁.sbi.sBlocksPerGroup := by
        rw [hok.sbi]
        exact hbpg
      cases found with
      | ioError =>
        cases hrun
        exact Or.inl ⟨rfl, hok, fun fs₂ run hmarks => hmarks.not_ioError hsearch⟩
      | missed num₁ =>
        have hsame : SameButRsv fs fs₁ := hok.1
        dsimp only at hrun
        split at hrun
        · -- the search is made again without the window
          rename_i hrsv
          rcases ih hbpg₁ hrun with ⟨hperformed, hsame', hnone⟩ | ⟨fs₂, run, hfirst, hstray, hclear, hset⟩
          · exact Or.inl ⟨hperformed, hsame.trans hsame',
              fun fs₂ run hmarks => hnone fs₂ run (hmarks.of_missed hsearch).2⟩
          · refine Or.inr ⟨fs₂, run, .again hsearch hrsv hfirst, ?_, ?_, hset⟩
            · rwa [hsame] at hstray
            · rwa [hsame] at hclear
        · rename_i hrsv
          cases hrun
          exact Or.inl ⟨rfl, hsame, fun fs₂ run hmarks => hrsv (hmarks.of_missed hsearch).1⟩
      | found group first num₁ =>
        have hclaim : Claimed fs fs₁ group first num₁ num := hok
        obtain ⟨hclear, hset⟩ := hclaim.takes
        have hsbi : fs₁.sbi = fs.sbi := hok.sbi
        have hdesc : fs₁.desc = fs.desc := by rw [hclaim.state]
        refine Or.inr ⟨fs₁, ⟨group, first, num₁⟩, .found hsearch, ?_⟩
        dsimp only at hrun
        rw [hsbi, hdesc] at hrun
        split at hrun
        · rename_i hzone
          exact ⟨Or.inl hzone, hclear, retryAlloc_grows rounds hbpg₁ hrun hset⟩
        · split at hrun
          · rename_i hpast
            cases hrun
            exact ⟨Or.inr hpast, hclear, hset⟩
          · cases hrun

/-! ## The first run is told beforehand -/

theorem searchFrom_outside {groupNo windowsz num : Nat} {useRsv : Bool}
    (h : ¬ groupNo < fs.sbi.sGroupsCount) :
    searchFrom ops env ino fuel fs goal groupNo useRsv windowsz num = .done (fs, .ioError) := by
  have hnone : fs.groupDesc groupNo = none := if_pos (by omega)
  unfold searchFrom
  rw [hnone]

/-- Whether the first search uses a window. -/
theorem keepRsv_iff (fs : Fs) (ino goal : Nat) :
    keepRsv ino fs (fs.sbi.goalGroup goal) (0 < fs.windowSize ino) (fs.windowSize ino) = true ↔
      (fs.allocView ino).UsesWindow goal := by
  have hempty : rsvIsEmpty (fs.rsv.win (.inode ino)) = true ↔ (fs.allocView ino).own.rsvEnd = 0 := by
    rw [rsvIsEmpty_iff]
    exact iff_of_eq (congrArg (· = 0) canonWindow_rsvEnd.symm)
  unfold AllocView.UsesWindow
  rw [Fs.windowSize_allocView, ← hempty, keepRsv, Bool.and_eq_true, decide_eq_true_eq]
  refine and_congr_right fun _ => ?_
  rw [Bool.not_eq_true', ← Bool.not_eq_true]
  refine not_congr ?_
  simp only [Bool.and_eq_true, decide_eq_true_eq, and_assoc]
  exact Iff.rfl

theorem Fs.WindowReady.of_uses (hwf : fs.rsv.Wf) (huses : (fs.allocView ino).UsesWindow goal)
    (useRsv : Bool) : fs.WindowReady ino useRsv := by
  intro _
  exact ⟨hwf, Fs.goalSize_pos (Fs.windowSize_allocView fs ino ▸ huses.1)⟩

theorem Fs.WindowReady.plain (fs : Fs) (ino : Nat) : fs.WindowReady ino false :=
  fun h => absurd h Bool.false_ne_true

section First

variable {count : Nat}

/-- What the code marks first is the first run. -/
theorem MarksFirst.firstRun {fs₁ : Fs} {run : MarkedRun} (hbpg : 0 < fs.sbi.sBlocksPerGroup)
    (hwf : fs.rsv.Wf)
    (h : MarksFirst ops env ino fuel (fs.sbi.goalBlock goal) (fs.sbi.goalGroup goal) fs
      (fs.sbi.goalGroup goal) (0 < fs.windowSize ino) (fs.windowSize ino) count fs₁ run) :
    (fs.allocView ino).FirstRun env.readBitmap goal count run (fs₁.allocView ino) := by
  have hinside : fs.sbi.goalGroup goal < fs.sbi.sGroupsCount := by
    by_contra hout
    exact h.not_ioError (searchFrom_outside hout)
  cases h with
  | found hsearch =>
    by_cases huses : (fs.allocView ino).UsesWindow goal
    · rw [(keepRsv_iff fs ino goal).mpr huses] at hsearch
      obtain ⟨e, ⟨n, rfl⟩, htries⟩ :=
        searchFrom_tries hinside hbpg (.of_uses hwf huses _) (fun _ => rfl) hsearch
      exact .window hinside huses htries
    · rw [Bool.eq_false_iff.mpr (mt (keepRsv_iff fs ino goal).mp huses)] at hsearch
      obtain ⟨e, ⟨n, rfl⟩, htries⟩ :=
        searchFrom_tries hinside hbpg (.plain fs ino) (fun h => absurd h Bool.false_ne_true) hsearch
      exact .plain hinside huses htries
  | @again _ fs₂ _ _ _ _ _ num₂ _ hsearch hrsv hrest =>
    have huses := (keepRsv_iff fs ino goal).mp hrsv
    rw [hrsv] at hsearch
    have hok := searchFrom_spec ops env ino fuel hbpg hsearch
    have hsbi : fs₂.sbi = fs.sbi := hok.sbi
    obtain ⟨e, rfl, htries⟩ :=
      searchFrom_tries hinside hbpg (.of_uses hwf huses _) (fun _ => rfl) hsearch
    have hinside₂ : fs₂.sbi.goalGroup goal < fs₂.sbi.sGroupsCount := hsbi.symm ▸ hinside
    cases hrest with
    | found hsearch₂ =>
      rw [← hsbi] at hsearch₂ hbpg
      obtain ⟨e₂, ⟨n, rfl⟩, htries₂⟩ :=
        searchFrom_tries hinside₂ hbpg (.plain fs₂ ino) (fun h => absurd h Bool.false_ne_true)
          (show searchFrom ops env ino fuel fs₂ (fs₂.sbi.goalBlock goal) (fs₂.sbi.goalGroup goal)
            false 0 num₂ = _ from hsearch₂)
      exact .again hinside huses htries htries₂
    | again _ hrsv₂ => simp [keepRsv] at hrsv₂

/-- A visit of `retry_alloc` in a call that returns. -/
theorem retryAlloc_search {rounds groupNo windowsz : Nat} {useRsv : Bool}
    {res : Fs × Except (Errno × Bool) (Nat × Nat × Nat)}
    (h : retryAlloc ops env ino fuel goal goalGroup rounds fs groupNo useRsv windowsz count =
      .done res) :
    ∃ fs₁ found, searchFrom ops env ino fuel fs goal groupNo (keepRsv ino fs groupNo useRsv windowsz)
        windowsz count = .done (fs₁, found) ∧
      ∀ num₁, found = .missed num₁ → keepRsv ino fs groupNo useRsv windowsz = true →
        ∃ rounds₁, retryAlloc ops env ino fuel goal goalGroup rounds₁ fs₁ goalGroup false 0 num₁ =
          .done res := by
  cases rounds with
  | zero => cases h
  | succ rounds =>
    unfold retryAlloc at h
    obtain ⟨⟨fs₁, found⟩, hsearch, hrest⟩ := Exec.bind_eq_done.mp h
    refine ⟨fs₁, found, hsearch, ?_⟩
    rintro num₁ rfl hrsv
    dsimp only at hrest
    rw [if_pos hrsv] at hrest
    exact ⟨rounds, hrest⟩

/-- The first run is what a call that returns marks first. -/
theorem AllocView.FirstRun.marksFirst {rounds : Nat}
    {res : Fs × Except (Errno × Bool) (Nat × Nat × Nat)} {run : MarkedRun} {v' : AllocView}
    (hbpg : 0 < fs.sbi.sBlocksPerGroup) (hwf : fs.rsv.Wf)
    (hdone : retryAlloc ops env ino fuel (fs.sbi.goalBlock goal) (fs.sbi.goalGroup goal) rounds fs
      (fs.sbi.goalGroup goal) (0 < fs.windowSize ino) (fs.windowSize ino) count = .done res)
    (h : (fs.allocView ino).FirstRun env.readBitmap goal count run v') :
    ∃ fs₁, fs₁.allocView ino = v' ∧
      MarksFirst ops env ino fuel (fs.sbi.goalBlock goal) (fs.sbi.goalGroup goal) fs
        (fs.sbi.goalGroup goal) (0 < fs.windowSize ino) (fs.windowSize ino) count fs₁ run := by
  -- a search that gives the run is one of the code that finds it
  have hfound : ∀ {fs₁ : Fs} {found : GroupSearch} {n : Nat} {e},
      searchEnd fs₁ ino found e → e = .took run (v', n) →
      fs₁.allocView ino = v' ∧ found = .found run.group run.first run.num := by
    rintro fs₁ found n e hend rfl
    cases found with
    | found group first num =>
      obtain ⟨n', heq⟩ := hend
      cases heq
      exact ⟨rfl, rfl⟩
    | missed num => cases hend
    | ioError => cases hend
  obtain ⟨fs₁, found, hsearch, hagain⟩ := retryAlloc_search hdone
  cases h with
  | window inside uses search =>
    have hkeep := (keepRsv_iff fs ino goal).mpr uses
    have hsearch' := hsearch
    rw [hkeep] at hsearch'
    obtain ⟨e, hend, htries⟩ :=
      searchFrom_tries inside hbpg (.of_uses hwf uses _) (fun _ => rfl) hsearch'
    obtain ⟨hview, rfl⟩ := hfound hend (htries.unique search)
    exact ⟨fs₁, hview, .found hsearch⟩
  | plain inside uses search =>
    have hkeep := Bool.eq_false_iff.mpr (mt (keepRsv_iff fs ino goal).mp uses)
    have hsearch' := hsearch
    rw [hkeep] at hsearch'
    obtain ⟨e, hend, htries⟩ :=
      searchFrom_tries inside hbpg (.plain fs ino) (fun h => absurd h Bool.false_ne_true) hsearch'
    obtain ⟨hview, rfl⟩ := hfound hend (htries.unique search)
    exact ⟨fs₁, hview, .found hsearch⟩
  | @again v₁ _ n₁ _ inside uses missed search =>
    have hkeep := (keepRsv_iff fs ino goal).mpr uses
    have hsearch' := hsearch
    rw [hkeep] at hsearch'
    obtain ⟨e, hend, htries⟩ :=
      searchFrom_tries inside hbpg (.of_uses hwf uses _) (fun _ => rfl) hsearch'
    obtain rfl := htries.unique missed
    cases found with
    | found group first num => cases hend.choose_spec
    | ioError => cases hend
    | missed num₁ =>
      cases hend
      have hsbi : fs₁.sbi = fs.sbi := (searchFrom_spec ops env ino fuel hbpg hsearch).sbi
      obtain ⟨rounds₁, hdone₁⟩ := hagain n₁ rfl hkeep
      obtain ⟨fs₂, found₂, hsearch₂, -⟩ := retryAlloc_search hdone₁
      have hinside₁ : fs₁.sbi.goalGroup goal < fs₁.sbi.sGroupsCount := hsbi.symm ▸ inside
      have hbpg₁ : 0 < fs₁.sbi.sBlocksPerGroup := hsbi.symm ▸ hbpg
      have hplain : searchFrom ops env ino fuel fs₁ (fs₁.sbi.goalBlock goal)
          (fs₁.sbi.goalGroup goal) false 0 n₁ = .done (fs₂, found₂) := by
        rw [hsbi]
        exact hsearch₂
      obtain ⟨e₂, hend₂, htries₂⟩ := searchFrom_tries hinside₁ hbpg₁ (.plain fs₁ ino)
        (fun h => absurd h Bool.false_ne_true) hplain
      obtain ⟨hview, rfl⟩ := hfound hend₂ (htries₂.unique search)
      exact ⟨fs₂, hview, .again hsearch hkeep (.found hsearch₂)⟩

end First

end Spec

theorem Fs.allocView_chargeBlocks (fs : Fs) (ino : Nat) (blocks : Int) :
    (fs.chargeBlocks ino blocks).allocView ino = fs.allocView ino := by
  simp [Fs.allocView, Fs.chargeBlocks, Inode.addSectors]

/-- Where metadata and padding are marked in use no run strays. -/
theorem Fs.SystemSet.first_run_ok {fs : Fs} {ino goal count : Nat} {readable : Nat → Bool}
    {run : MarkedRun} {v' : AllocView} (h : fs.SystemSet)
    (hfirst : (fs.allocView ino).FirstRun readable goal count run v') :
    ¬ run.Strays fs.sbi fs.desc := by
  obtain ⟨hgroup, -, c, htakes⟩ := hfirst.takes (show 0 < fs.sbi.sBlocksPerGroup from h.bpg_pos)
  have hpos := htakes.claimed.pos
  obtain ⟨hzone, hend⟩ := h.run_ok hgroup hpos htakes.claimed.inside htakes.claimed.clear
  unfold MarkedRun.Strays MarkedRun.InZone MarkedRun.block
  rw [Nat.add_comm run.first]
  rintro (hin | hout)
  · rw [hzone] at hin
    cases hin
  · omega

/-- A call of `kr_new_blocks` that fails has charged nothing and left no bit set, just when
it has marked no run of blocks that lies in the metadata or past the end of the image. -/
theorem krNewBlocks_kept_iff {ops : Rebalance Window} {env : AllocEnv} {ino fuel goal count : Nat}
    {fs fs' : Fs} {e : Errno} (hbpg : 0 < fs.sbi.sBlocksPerGroup) (hwf : fs.rsv.Wf)
    (hrun : krNewBlocks ops env ino fuel fs goal count = .done (fs', .error e)) :
    NewBlocksKept fs fs' ↔ ¬ NewBlocksStrays env ino fs goal count := by
  unfold krNewBlocks at hrun
  dsimp only at hrun
  split at hrun
  · rename_i err hquota
    cases hrun
    refine iff_of_true (SameButRsv.kept rfl) fun h => ?_
    rw [h.1.1] at hquota
    cases hquota
  rename_i hquota
  split at hrun
  · rename_i hhas
    cases hrun
    have hsame : SameButRsv fs ((fs.chargeBlocks ino count).chargeBlocks ino (-count)) :=
      SameButRsv.refund ino rfl
    refine iff_of_true hsame.kept fun h => ?_
    have hmay : krHasFreeBlocks (fs.chargeBlocks ino count).sbi env = true := h.1.2
    rw [hmay] at hhas
    cases hhas
  rename_i hhas
  obtain ⟨⟨fs₁, outcome⟩, hretry, hend⟩ := Exec.bind_eq_done.mp hrun
  cases outcome with
  | ok val => cases hend
  | error err =>
    obtain ⟨e', performed⟩ := err
    simp only [Exec.done.injEq, Prod.mk.injEq] at hend
    obtain ⟨rfl, -⟩ := hend
    have hbpg' : 0 < (fs.chargeBlocks ino count).sbi.sBlocksPerGroup := hbpg
    have hwf' : (fs.chargeBlocks ino count).rsv.Wf := hwf
    have hmay : env.MaySearch fs.sbi := by
      refine ⟨hquota, ?_⟩
      have hno : ¬ (!krHasFreeBlocks fs.sbi env) = true := hhas
      simpa using hno
    rcases retryAlloc_failed fuel hbpg' hretry with ⟨rfl, hsame, hnone⟩ | ⟨fs₂, run, hmarks, hstray,
      hclear, hset⟩
    · have hback : SameButRsv fs (fs₁.chargeBlocks ino (-count)) := SameButRsv.refund ino hsame
      refine iff_of_true hback.kept ?_
      rintro ⟨-, run, v', hfirst, -⟩
      rw [← fs.allocView_chargeBlocks ino count] at hfirst
      obtain ⟨fs₂, -, hmarks⟩ := hfirst.marksFirst hbpg' hwf' hretry
      exact hnone fs₂ run hmarks
    · have hfirst := hmarks.firstRun hbpg' hwf'
      rw [fs.allocView_chargeBlocks ino count] at hfirst
      refine iff_of_false ?_ (not_not.mpr ⟨hmay, run, _, hfirst, hstray⟩)
      rintro ⟨-, hkept⟩
      have hfalse := hkept run.group run.first hclear
      split at hfalse
      · rw [hset] at hfalse
        cases hfalse
      · rw [show (fs₁.chargeBlocks ino (-count)).blockBitmap = fs₁.blockBitmap from rfl, hset]
          at hfalse
        cases hfalse

/-- An image of 14 blocks in a group of 16, all of them in use, with the two bits behind
them clear. -/
def paddingImage : SuperBlock :=
  { smallImage 16 with sBlocksCount := 15, sBlocksPerGroup := 16, sFragsPerGroup := 16 }

def paddingFs : Fs where
  sbi := sbInfoOf smallEnv paddingImage 1024
  desc := fun _ => { smallDesc with bgFreeBlocksCount := 2 }
  blockBitmap := fun _ i => decide (i < 14)
  inodeBitmap := fun _ _ => false
  sFreeblocksCounter := 2
  sFreeinodesCounter := 0
  sDirsCounter := 0
  sDebts := fun _ => 0
  inode := fun _ => { Inode.blank with iMode := 0x8000 }
  ptr := fun _ _ => 0
  rsv := ⟨.node .head .nil .nil, fun _ => ⟨0, 0, 0, 0⟩⟩

theorem paddingFs_wf : paddingFs.rsv.Wf := by
  have hroot : inorder paddingFs.rsv.root = [.head] := rfl
  rw [Rsv.Wf, hroot]
  exact ⟨by simp, by simp [paddingFs], rfl, ⟨rfl, rfl⟩, by simp [paddingFs]⟩

/-- A bitmap that cannot be read. -/
theorem krNewBlocks_kept_iff_io : ∃ fs',
    krNewBlocks Rebalance.plain ⟨none, 2, false, fun _ => false⟩ 12 20 paddingFs 1 1 =
      .done (fs', .error .eio) ∧ NewBlocksKept paddingFs fs' := by
  have hcall : krNewBlocks Rebalance.plain ⟨none, 2, false, fun _ => false⟩ 12 20 paddingFs 1 1 =
      .done ((paddingFs.chargeBlocks 12 1).chargeBlocks 12 (-1), .error .eio) := rfl
  refine ⟨_, hcall, (krNewBlocks_kept_iff (by decide) paddingFs_wf hcall).mpr ?_⟩
  rintro ⟨-, run, v', hfirst, -⟩
  obtain ⟨-, -, _, htakes⟩ := hfirst.takes (show 0 < paddingFs.sbi.sBlocksPerGroup by decide)
  exact absurd htakes.read Bool.false_ne_true

/-- The block behind the end of the image is marked, and the call fails with the quota
charged. -/
theorem krNewBlocks_past_end :
    krFillSuper smallEnv paddingImage = .ok paddingFs.sbi ∧ ∃ fs',
      krNewBlocks Rebalance.plain ⟨none, 2, false, fun _ => true⟩ 12 20 paddingFs 1 1 =
        .done (fs', .error .enospc) ∧
      paddingFs.blockBitmap 0 14 = false ∧ fs'.blockBitmap 0 14 = true ∧
      (paddingFs.inode 12).iBlocks = 0 ∧ (fs'.inode 12).iBlocks = 2 ∧
      ¬ NewBlocksKept paddingFs fs' := by
  have hvalue : (krNewBlocks Rebalance.plain ⟨none, 2, false, fun _ => true⟩ 12 20 paddingFs 1
      1).toOption.map (fun r => (r.2, r.1.blockBitmap 0 14, (r.1.inode 12).iBlocks)) =
        some (.error .enospc, true, 2) := by decide +kernel
  obtain ⟨⟨fs', ret⟩, hcall, hvalue⟩ := Exec.toOption_map_eq_some.mp hvalue
  simp only [Prod.mk.injEq] at hvalue
  obtain ⟨rfl, hset, hblocks⟩ := hvalue
  refine ⟨rfl, fs', hcall, rfl, hset, rfl, hblocks, ?_⟩
  rintro ⟨-, hkept⟩
  have hfalse := hkept 0 14 rfl
  rw [hset] at hfalse
  cases hfalse

end KrFs
