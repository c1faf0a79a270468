import KrFs.Balloc

/-!
# The goal size of a window

A window that is used has a goal size, and no step of its inode takes it away.
A request for no block then runs like a request for one: the count is compared
with the goal size and with the blocks left in the window, both at least one, and
a bit that was found is claimed without a look at the count.
-/

namespace KrFs

open SearchTree Bitmap

section Goal

variable (ops : Rebalance Window) {sbi : SbInfo} {me : Window}

theorem reserveLocked_goalSize {r r' : Rsv} {searchHead : Option Window} {startBlock last : Nat}
    {booked : Bool} (h : reserveLocked ops r searchHead me startBlock last = .done (r', booked)) :
    (r'.win me).rsvGoalSize = (r.win me).rsvGoalSize := by
  have hdrop : ((rsvWindowDrop ops r me).win me).rsvGoalSize = (r.win me).rsvGoalSize := by
    unfold rsvWindowDrop
    split
    · rfl
    · simp [rsvWindowRemove, Rsv.setWin]
  have hadd : ∀ {r1 r2 : Rsv}, krRsvWindowAdd ops r1 me = .done r2 → r2.win = r1.win := by
    intro r1 r2 hadd
    unfold krRsvWindowAdd at hadd
    split at hadd
    · cases hadd
    · cases hadd
      rfl
  unfold reserveLocked findNextReservableWindow at h
  dsimp only at h
  split at h
  · cases h
    exact hdrop
  split at h
  · cases h
    exact hdrop
  rename_i cur prev _
  by_cases hprev : prev = me
  · rw [if_neg (not_not_intro hprev), if_neg (not_not_intro hprev)] at h
    cases h
    simp [Rsv.setWin]
  · rw [if_pos hprev, if_pos hprev] at h
    generalize hr2 : (rsvWindowDrop ops r me).setWin me _ = r2 at h
    cases hrun : krRsvWindowAdd ops r2 me with
    | bug => simp [hrun, Exec.bind] at h
    | running => simp [hrun, Exec.bind] at h
    | done r3 =>
      simp only [hrun, Exec.bind, Exec.done.injEq, Prod.mk.injEq] at h
      rw [← h.1, hadd hrun, ← hr2]
      simp [Rsv.setWin, hdrop]

theorem newReservationSize_goalSize {P : Nat → Prop} {w w' : ReserveWindowNode}
    {groupEnd startBlock : Nat} (hdouble : ∀ n, P n → P (min (n * 2) KR_MAX_RESERVE_BLOCKS))
    (h : newReservationSize w groupEnd startBlock = some w') (hw : P w.rsvGoalSize) :
    P w'.rsvGoalSize := by
  unfold newReservationSize at h
  split at h
  · cases h
    exact hw
  split at h
  · cases h
  split at h
  · cases h
    exact hdouble _ hw
  · cases h
    exact hw

/-- A goal size changes by the doubling and by the raise to a request only. -/
theorem threadStep_goalSize_of {P : Nat → Prop} {r : Rsv} {phase : RsvPhase}
    (hdouble : ∀ n, P n → P (min (n * 2) KR_MAX_RESERVE_BLOCKS))
    (hraise : ∀ req failed n, phase = .loop req failed → P n → n < req.count → P req.count)
    (h : P (r.win me).rsvGoalSize) (answer : RsvAnswer) :
    P ((threadStep ops sbi r me answer phase).1.win me).rsvGoalSize := by
  cases phase with
  | idle => exact h
  | bug => exact h
  | inspect req => exact h
  | loop req failed =>
    simp only [threadStep, loopHead]
    split
    · have hw : P (if (r.win me).rsvGoalSize < req.count then
          { r.win me with rsvGoalSize := req.count } else r.win me).rsvGoalSize := by
        split
        · rename_i hlt
          exact hraise req failed _ rfl h hlt
        · exact h
      split
      · simpa [Rsv.setWin] using hw
      · rename_i hsize
        simpa [Rsv.setWin] using newReservationSize_goalSize hdouble hsize hw
    · split
      · split
        · exact h
        · exact h
      · exact h
  | reserve req startBlock again =>
    simp only [threadStep]
    split
    · rename_i hrun
      rw [reserveLocked_goalSize ops hrun]
      exact h
    · rename_i hrun
      rw [reserveLocked_goalSize ops hrun]
      exact h
    · exact h
  | giveUp =>
    simp only [threadStep, rsvWindowDrop]
    split
    · exact h
    · simpa [rsvWindowRemove, Rsv.setWin] using h
  | extend req size =>
    simp only [threadStep, tryToExtendReservation]
    split
    · exact h
    split
    · simpa [Rsv.setWin] using h
    · split
      · simpa [Rsv.setWin] using h
      · simpa [Rsv.setWin] using h
  | allocate req =>
    simp only [threadStep, allocateInWindow]
    split
    · exact h
    split
    · simpa [Rsv.setWin] using h
    · exact h

/-- A step of the inode leaves its window a goal size. -/
theorem threadStep_goalSize {r : Rsv} (h : 1 ≤ (r.win me).rsvGoalSize) (answer : RsvAnswer)
    (phase : RsvPhase) : 1 ≤ ((threadStep ops sbi r me answer phase).1.win me).rsvGoalSize := by
  refine threadStep_goalSize_of ops ?_ ?_ h answer
  · intro n hn
    simp only [KR_MAX_RESERVE_BLOCKS]
    omega
  · intro req failed n _ hn hlt
    omega

theorem withRsvRun_goalSize {bm bm' : Nat → Bool} {r' : Rsv} {found : Option (Nat × Nat)}
    (fuel : Nat) : ∀ {r : Rsv} {phase : RsvPhase}, 1 ≤ (r.win me).rsvGoalSize →
    withRsvRun ops sbi me bm fuel r phase = .done (r', bm', found) →
    1 ≤ (r'.win me).rsvGoalSize := by
  induction fuel with
  | zero =>
    intro r phase _ h
    simp [withRsvRun] at h
  | succ fuel ih =>
    intro r phase hsize h
    have step : ∀ {phase' : RsvPhase}, withRsvRun ops sbi me bm (fuel + 1) r phase' =
        withRsvRun ops sbi me bm fuel (threadStep ops sbi r me ⟨bm, true, none⟩ phase').1
          (threadStep ops sbi r me ⟨bm, true, none⟩ phase').2 →
        withRsvRun ops sbi me bm (fuel + 1) r phase' = .done (r', bm', found) →
        1 ≤ (r'.win me).rsvGoalSize := by
      intro phase' heq h'
      rw [heq] at h'
      exact ih (threadStep_goalSize ops hsize _ phase') h'
    cases phase with
    | idle =>
      simp only [withRsvRun, Exec.done.injEq, Prod.mk.injEq] at h
      rw [← h.1]
      exact hsize
    | bug => simp [withRsvRun] at h
    | loop req failed => exact step rfl h
    | reserve req startBlock again => exact step rfl h
    | inspect req => exact step rfl h
    | giveUp => exact step rfl h
    | extend req size => exact step rfl h
    | allocate req =>
      simp only [withRsvRun] at h
      split at h
      · cases h
      cases htry : krTryToAllocate sbi req.group bm req.grpGoal req.count (some (r.win me)) with
      | bug => simp [htry, Exec.bind] at h
      | running => simp [htry, Exec.bind] at h
      | done res =>
        obtain ⟨bm1, found1, num⟩ := res
        simp only [htry, Exec.bind] at h
        cases found1 with
        | none => exact ih hsize h
        | some first =>
          simp only [Exec.done.injEq, Prod.mk.injEq] at h
          rw [← h.1]
          exact threadStep_goalSize ops hsize ⟨bm, true, some num⟩ (.allocate req)

/-- The request with its count raised to one. -/
def RsvRequest.atLeastOne (req : RsvRequest) : RsvRequest := { req with count := max 1 req.count }

def RsvPhase.atLeastOne : RsvPhase → RsvPhase
  | .idle => .idle
  | .loop req failed => .loop req.atLeastOne failed
  | .reserve req startBlock again => .reserve req.atLeastOne startBlock again
  | .inspect req => .inspect req.atLeastOne
  | .giveUp => .giveUp
  | .extend req size => .extend req.atLeastOne size
  | .allocate req => .allocate req.atLeastOne
  | .bug => .bug

theorem claimRun_atLeastOne (bm : Nat → Bool) (count stop n : Nat) : ∀ goal num, 1 ≤ num →
    claimRun bm (max 1 count) stop n goal num = claimRun bm count stop n goal num := by
  induction n with
  | zero => exact fun _ _ _ => rfl
  | succ n ih =>
    intro goal num hnum
    have hcount : num < max 1 count ↔ num < count := by omega
    simp only [claimRun, hcount, ih (goal + 1) (num + 1) (by omega)]

theorem krTryToAllocate_atLeastOne (group : Nat) (bm : Nat → Bool) (grpGoal : Int) (count : Nat)
    (myRsv : Option ReserveWindowNode) :
    krTryToAllocate sbi group bm grpGoal (max 1 count) myRsv =
      krTryToAllocate sbi group bm grpGoal count myRsv := by
  simp only [krTryToAllocate, claimRun_atLeastOne bm count _ _ _ 1 (le_refl 1)]

/-- With a goal size there is no difference between no block and one. -/
theorem threadStep_atLeastOne {r : Rsv} (h : 1 ≤ (r.win me).rsvGoalSize) (answer : RsvAnswer)
    (phase : RsvPhase) : threadStep ops sbi r me answer phase.atLeastOne =
      ((threadStep ops sbi r me answer phase).1,
        (threadStep ops sbi r me answer phase).2.atLeastOne) := by
  cases phase with
  | idle => rfl
  | bug => rfl
  | giveUp => rfl
  | extend req size => rfl
  | loop req failed =>
    have hw : (if (r.win me).rsvGoalSize < max 1 req.count then
        { r.win me with rsvGoalSize := max 1 req.count } else r.win me) =
        if (r.win me).rsvGoalSize < req.count then
          { r.win me with rsvGoalSize := req.count } else r.win me := by
      by_cases hlt : (r.win me).rsvGoalSize < req.count
      · rw [if_pos hlt, if_pos (by omega), max_eq_right (by omega)]
      · rw [if_neg hlt, if_neg (by omega)]
    simp only [RsvPhase.atLeastOne, RsvRequest.atLeastOne, threadStep, loopHead, hw]
    split
    · split
      · rfl
      · rfl
    · split
      · have hcurr : (r.win me).rsvEnd -
            (req.grpGoal.toNat + sbi.groupFirstBlockNo req.group) + 1 < max 1 req.count ↔
            (r.win me).rsvEnd -
              (req.grpGoal.toNat + sbi.groupFirstBlockNo req.group) + 1 < req.count := by
          omega
        simp only [hcurr]
        split
        · have hmax : max 1 req.count = req.count := by omega
          simp only [hmax]
        · rfl
      · rfl
  | reserve req startBlock again =>
    simp only [RsvPhase.atLeastOne, RsvRequest.atLeastOne, threadStep]
    generalize reserveLocked ops r _ me startBlock _ = run
    cases run with
    | bug => rfl
    | running => rfl
    | done res =>
      obtain ⟨r', booked⟩ := res
      cases booked with
      | true => rfl
      | false => rfl
  | inspect req =>
    simp only [RsvPhase.atLeastOne, RsvRequest.atLeastOne, threadStep, inspectWindow]
    split
    · rfl
    split
    · split
      · rfl
      · rfl
    · rfl
  | allocate req =>
    simp only [RsvPhase.atLeastOne, RsvRequest.atLeastOne, threadStep, allocateInWindow]
    split
    · rfl
    split
    · rfl
    · rfl

theorem withRsvRun_atLeastOne (bm : Nat → Bool) (fuel : Nat) :
    ∀ {r : Rsv} (phase : RsvPhase), 1 ≤ (r.win me).rsvGoalSize →
    withRsvRun ops sbi me bm fuel r phase.atLeastOne = withRsvRun ops sbi me bm fuel r phase := by
  induction fuel with
  | zero =>
    intro r phase _
    cases phase <;> rfl
  | succ fuel ih =>
    intro r phase hsize
    have step : ∀ {phase' : RsvPhase},
        (∀ q, q = phase' ∨ q = phase'.atLeastOne → withRsvRun ops sbi me bm (fuel + 1) r q =
          withRsvRun ops sbi me bm fuel (threadStep ops sbi r me ⟨bm, true, none⟩ q).1
            (threadStep ops sbi r me ⟨bm, true, none⟩ q).2) →
        withRsvRun ops sbi me bm (fuel + 1) r phase'.atLeastOne =
          withRsvRun ops sbi me bm (fuel + 1) r phase' := by
      intro phase' hrun
      rw [hrun _ (.inr rfl), hrun _ (.inl rfl), threadStep_atLeastOne ops hsize]
      exact ih _ (threadStep_goalSize ops hsize _ _)
    cases phase with
    | idle => rfl
    | bug => rfl
    | loop req failed => exact step (by rintro q (rfl | rfl) <;> rfl)
    | reserve req startBlock again => exact step (by rintro q (rfl | rfl) <;> rfl)
    | inspect req => exact step (by rintro q (rfl | rfl) <;> rfl)
    | giveUp => exact step (by rintro q (rfl | rfl) <;> rfl)
    | extend req size => exact step (by rintro q (rfl | rfl) <;> rfl)
    | allocate req =>
      have htry : krTryToAllocate sbi req.group bm req.grpGoal (max 1 req.count) (some (r.win me)) =
          krTryToAllocate sbi req.group bm req.grpGoal req.count (some (r.win me)) :=
        krTryToAllocate_atLeastOne _ _ _ _ _
      have hloop : withRsvRun ops sbi me bm fuel r (.loop req.atLeastOne true) =
          withRsvRun ops sbi me bm fuel r (.loop req true) := ih (.loop req true) hsize
      simp only [RsvPhase.atLeastOne, withRsvRun]
      by_cases hout : (groupEndBlock sbi req.group < (r.win me).rsvStart ||
          (r.win me).rsvEnd < sbi.groupFirstBlockNo req.group) = true
      · have hbug : ∀ q : RsvRequest, q.group = req.group → ∀ found,
            allocateInWindow sbi r me q found = (r, .bug) := by
          rintro ⟨group, goal, count⟩ rfl found
          exact if_pos hout
        simp only [hbug req.atLeastOne rfl, hbug req rfl]
      · have hgo : ∀ q : RsvRequest, q.group = req.group → ∀ found,
            allocateInWindow sbi r me q found = found.elim (r, .loop q true) fun num =>
              (r.setWin me { r.win me with rsvAllocHit := (r.win me).rsvAllocHit + num }, .idle) := by
          rintro ⟨group, goal, count⟩ rfl found
          cases found with
          | none => exact if_neg hout
          | some num => exact if_neg hout
        simp only [hgo req.atLeastOne rfl, hgo req rfl, hloop]
        simp only [RsvRequest.atLeastOne, htry, Option.elim_none, Option.elim_some]

end Goal

end KrFs
