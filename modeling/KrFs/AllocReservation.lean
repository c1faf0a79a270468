import KrFs.NoSpace

/-!
# A new reservation window

One call of `alloc_new_reservation` with no other inode running. Each round books
the next gap between the other windows and looks for the first clear bit from its
start on; the caller's own window is an obstacle like the others, and from the
second round on the place where the search begins. A further round starts behind
the window of the round before, so a group has at most as many rounds as blocks.
-/

namespace KrFs

open SearchTree Bitmap

section Alloc

variable (ops : Rebalance Window) (sbi : SbInfo) (me : Window) (group : Nat) (bm : Nat → Bool)

/-- The loop at `retry` of `alloc_new_reservation`; the result is whether a window
was reserved. -/
def reserveRetry : Nat → Rsv → Option Window → Nat → Exec (Rsv × Bool)
  | 0, _, _, _ => .running
  | fuel + 1, r, searchHead, startBlock =>
    let groupFirstBlock := sbi.groupFirstBlockNo group
    (reserveLocked ops r searchHead me startBlock (groupEndBlock sbi group)).bind
      fun (r, booked) =>
        if !booked then .done (r, false)
        else match bitmapSearchNextUsableBlock ((r.win me).rsvStart - groupFirstBlock) bm
            (groupEndBlock sbi group - groupFirstBlock + 1) with
          | none => .done (rsvWindowDrop ops r me, false)
          | some firstFreeBlock =>
            let startBlock := firstFreeBlock + groupFirstBlock
            if (r.win me).rsvStart ≤ startBlock && startBlock ≤ (r.win me).rsvEnd then
              .done (r, true)
            else reserveRetry fuel r (some me) startBlock

/-- `alloc_new_reservation`. -/
def allocNewReservation (fuel : Nat) (r : Rsv) (grpGoal : Int) : Exec (Rsv × Bool) :=
  let groupFirstBlock := sbi.groupFirstBlockNo group
  let startBlock := if grpGoal < 0 then groupFirstBlock else grpGoal.toNat + groupFirstBlock
  match newReservationSize (r.win me) (groupEndBlock sbi group) startBlock with
  | none => .done (r, false)
  | some w =>
    let r := r.setWin me w
    reserveRetry ops sbi me group bm fuel r (searchReserveWindow r startBlock) startBlock

end Alloc

/-! ## The call inside the loop of the allocation -/

section Phases

variable (ops : Rebalance Window) {sbi : SbInfo} {me : Window} {bm : Nat → Bool}
  {req : RsvRequest}

/-- The request as it goes on with a new window: without its goal, when that lies outside. -/
def RsvRequest.within (sbi : SbInfo) (w : ReserveWindowNode) (req : RsvRequest) : RsvRequest :=
  { req with grpGoal := if goalInMyReservation sbi w req.grpGoal req.group then req.grpGoal else -1 }

/-- The program points from the lock to the return are the loop at `retry`. -/
theorem withRsvRun_reserve (fuel : Nat) : ∀ {r r' : Rsv} {startBlock : Nat} {again reserved : Bool},
    reserveRetry ops sbi me req.group bm fuel r
      (if again then some me else searchReserveWindow r startBlock) startBlock =
        .done (r', reserved) →
    ∃ steps, ∀ n, withRsvRun ops sbi me bm (n + steps) r (.reserve req startBlock again) =
      withRsvRun ops sbi me bm n r'
        (if reserved then .allocate (req.within sbi (r'.win me)) else .idle) := by
  induction fuel with
  | zero =>
    intro r r' startBlock again reserved h
    cases h
  | succ fuel ih =>
    intro r r' startBlock again reserved h
    rw [reserveRetry] at h
    obtain ⟨⟨r1, booked⟩, hlocked, h⟩ := Exec.bind_eq_done.mp h
    cases booked with
    | false =>
      cases h
      refine ⟨1, fun n => ?_⟩
      simp only [withRsvRun, threadStep, hlocked, Bool.false_eq_true, if_false]
    | true =>
      have hstep : ∀ n, withRsvRun ops sbi me bm (n + 2) r (.reserve req startBlock again) =
          withRsvRun ops sbi me bm n r1 (inspectWindow sbi r1 me req bm) := by
        intro n
        simp only [withRsvRun, threadStep, hlocked]
      simp only [Bool.not_true, Bool.false_eq_true, if_false] at h
      cases hsearch : bitmapSearchNextUsableBlock
          ((r1.win me).rsvStart - sbi.groupFirstBlockNo req.group) bm
          (groupEndBlock sbi req.group - sbi.groupFirstBlockNo req.group + 1) with
      | none =>
        simp only [hsearch] at h
        cases h
        refine ⟨3, fun n => ?_⟩
        rw [show n + 3 = (n + 1) + 2 from rfl, hstep]
        simp only [inspectWindow, hsearch, withRsvRun, threadStep, Bool.false_eq_true, if_false]
      | some b =>
        simp only [hsearch] at h
        by_cases hin : ((r1.win me).rsvStart ≤ b + sbi.groupFirstBlockNo req.group &&
            b + sbi.groupFirstBlockNo req.group ≤ (r1.win me).rsvEnd) = true
        · rw [if_pos hin] at h
          cases h
          refine ⟨2, fun n => ?_⟩
          rw [hstep]
          simp only [inspectWindow, hsearch, if_pos hin, if_true, RsvRequest.within]
          by_cases hgoal : goalInMyReservation sbi (r'.win me) req.grpGoal req.group = true
          · simp only [hgoal, Bool.not_true, Bool.false_eq_true, if_false, if_true]
          · simp only [hgoal, Bool.not_false, Bool.false_eq_true, if_false, if_true]
        · rw [if_neg hin] at h
          obtain ⟨steps, hrun⟩ := @ih r1 r' _ true reserved h
          refine ⟨steps + 2, fun n => ?_⟩
          rw [← Nat.add_assoc, hstep, ← hrun]
          simp only [inspectWindow, hsearch, if_neg hin]

/-- A round of `kr_try_to_allocate_with_rsv` that needs a new window raises the
goal size to the request and calls `alloc_new_reservation`. -/
theorem withRsvRun_allocNewReservation {r r' : Rsv} {failed reserved : Bool} {fuel : Nat}
    (hnew : (rsvIsEmpty (r.win me) || failed ||
      !goalInMyReservation sbi (r.win me) req.grpGoal req.group) = true)
    (h : allocNewReservation ops sbi me req.group bm fuel
      (r.setWin me (if (r.win me).rsvGoalSize < req.count then
        { r.win me with rsvGoalSize := req.count } else r.win me)) req.grpGoal =
        .done (r', reserved)) :
    ∃ steps, ∀ n, withRsvRun ops sbi me bm (n + steps) r (.loop req failed) =
      withRsvRun ops sbi me bm n r'
        (if reserved then .allocate (req.within sbi (r'.win me)) else .idle) := by
  set w := if (r.win me).rsvGoalSize < req.count then
    { r.win me with rsvGoalSize := req.count } else r.win me with hw
  have hme : (r.setWin me w).win me = w := by simp [Rsv.setWin]
  have htwice : ∀ w', (r.setWin me w).setWin me w' = r.setWin me w' := by
    intro w'
    simp [Rsv.setWin]
  simp only [allocNewReservation, hme, htwice] at h
  cases hsize : newReservationSize w (groupEndBlock sbi req.group)
      (if req.grpGoal < 0 then sbi.groupFirstBlockNo req.group
        else req.grpGoal.toNat + sbi.groupFirstBlockNo req.group) with
  | none =>
    simp only [hsize] at h
    cases h
    refine ⟨1, fun n => ?_⟩
    simp only [withRsvRun, threadStep, loopHead, if_pos hnew, ← hw, hsize, Bool.false_eq_true,
      if_false]
  | some w' =>
    simp only [hsize] at h
    obtain ⟨steps, hrun⟩ := @withRsvRun_reserve ops sbi me bm req fuel _ _ _ false _ h
    refine ⟨steps + 1, fun n => ?_⟩
    rw [← hrun, ← Nat.add_assoc]
    simp only [withRsvRun, threadStep, loopHead, if_pos hnew, ← hw, hsize]

end Phases

section Spec

variable (ops : Rebalance Window) {sbi : SbInfo} {ino group : Nat} (bm : Nat → Bool)

/-- The window holds a block of the group whose bit is clear. -/
def HoldsFree (sbi : SbInfo) (group : Nat) (bm : Nat → Bool) (w : ReserveWindowNode) : Prop :=
  ∃ b < sbi.sBlocksPerGroup, bm b = false ∧ w.rsvStart ≤ sbi.groupFirstBlockNo group + b ∧
    sbi.groupFirstBlockNo group + b ≤ w.rsvEnd

/-- Two windows of the tree share no block. -/
theorem Rsv.Wf.apart {r : Rsv} (h : r.Wf) {a b : Window} (ha : a ∈ inorder r.root)
    (hb : b ∈ inorder r.root) (hne : a ≠ b) :
    (r.win a).rsvEnd < (r.win b).rsvStart ∨ (r.win b).rsvEnd < (r.win a).rsvStart := by
  let R : Window → Window → Prop := fun x y =>
    (r.win x).rsvEnd < (r.win y).rsvStart ∨ (r.win y).rsvEnd < (r.win x).rsvStart
  have hsymm : Std.Symm R := ⟨fun _ _ hor => hor.symm⟩
  have hpair : (inorder r.root).Pairwise R := h.disjoint.imp fun hlt => Or.inl hlt
  exact hpair.forall ha hb hne

/-- The caller's window after a search that succeeded. -/
structure Reserved (sbi : SbInfo) (group : Nat) (bm : Nat → Bool) (startBlock size : Nat)
    (w : ReserveWindowNode) : Prop where
  after_start : startBlock ≤ w.rsvStart
  in_group : w.rsvStart ≤ groupEndBlock sbi group
  size_eq : w.rsvGoalSize = size
  length : w.rsvEnd + 1 = w.rsvStart + size
  free : HoldsFree sbi group bm w

/-- The loop ends: with a window, or with the caller's window out of the tree. -/
theorem reserveRetry_spec (hbpg : 0 < sbi.sBlocksPerGroup) (n : Nat) : ∀ {r : Rsv} {searchHead : Window} {startBlock size : Nat},
    r.Wf → searchHead ∈ inorder r.root → (r.win (.inode ino)).rsvGoalSize = size → 1 ≤ size →
    sbi.groupFirstBlockNo group ≤ startBlock → startBlock ≤ groupEndBlock sbi group →
    groupEndBlock sbi group + 1 - startBlock ≤ n →
    ∃ r' reserved, (∀ fuel, n ≤ fuel → reserveRetry ops sbi (.inode ino) group bm fuel r
        (some searchHead) startBlock = .done (r', reserved)) ∧ r'.Wf ∧
      (∀ k, k ≠ .inode ino → r'.win k = r.win k) ∧
      (reserved = true → .inode ino ∈ inorder r'.root ∧
        Reserved sbi group bm startBlock size (r'.win (.inode ino))) ∧
      (reserved = false → (r'.win (.inode ino)).rsvEnd = 0) := by
  induction n with
  | zero => omega
  | succ n ih =>
    intro r searchHead startBlock size h hhead hgoal hsize hlow hhigh hn
    have hfuel : ∀ {fuel}, n + 1 ≤ fuel → ∃ m, fuel = m + 1 ∧ n ≤ m :=
      fun {fuel} hle => ⟨fuel - 1, by omega, by omega⟩
    have hsize' : 1 ≤ (r.win (.inode ino)).rsvGoalSize := hgoal ▸ hsize
    rcases findNextReservableWindow_spec ops h hhead hsize' startBlock
        (groupEndBlock sbi group) with hfail | ⟨r1, cur, hfound, hwf, hpos, hge, hle, hwin⟩
    · obtain ⟨hwf, hend, -, hother, -⟩ := rsvWindowDrop_wf ops h ino
      refine ⟨rsvWindowDrop ops r (.inode ino), false, fun fuel hle => ?_, hwf, hother, by simp,
        fun _ => hend⟩
      obtain ⟨m, rfl, -⟩ := hfuel hle
      simp [reserveRetry, reserveLocked, hfail, Exec.bind]
    have hround : ∀ m, reserveRetry ops sbi (.inode ino) group bm (m + 1) r (some searchHead)
        startBlock = match bitmapSearchNextUsableBlock (cur - sbi.groupFirstBlockNo group) bm
            (groupEndBlock sbi group - sbi.groupFirstBlockNo group + 1) with
          | none => .done (rsvWindowDrop ops r1 (.inode ino), false)
          | some b =>
            if cur ≤ b + sbi.groupFirstBlockNo group &&
                b + sbi.groupFirstBlockNo group ≤ cur + size - 1 then .done (r1, true)
            else reserveRetry ops sbi (.inode ino) group bm m r1 (some (.inode ino))
              (b + sbi.groupFirstBlockNo group) := by
      intro m
      simp only [reserveRetry, reserveLocked, hfound, Exec.bind, hwin, Function.update_self,
        bookedWindow, hgoal, Bool.not_true, Bool.false_eq_true, if_false]
    have hother : ∀ k, k ≠ .inode ino → r1.win k = r.win k := by
      intro k hk
      rw [hwin, Function.update_of_ne hk]
    have hbooked : r1.win (.inode ino) = bookedWindow (r.win (.inode ino)) cur := by
      rw [hwin, Function.update_self]
    have hmem : .inode ino ∈ inorder r1.root := by
      rw [hwf.mem_iff, hbooked]
      simp only [bookedWindow, hgoal]
      omega
    cases hsearch : bitmapSearchNextUsableBlock (cur - sbi.groupFirstBlockNo group) bm
        (groupEndBlock sbi group - sbi.groupFirstBlockNo group + 1) with
    | none =>
      obtain ⟨hwf', hend, -, hother', -⟩ := rsvWindowDrop_wf ops hwf ino
      refine ⟨rsvWindowDrop ops r1 (.inode ino), false, fun fuel hle => ?_, hwf',
        fun k hk => (hother' k hk).trans (hother k hk), by simp, fun _ => hend⟩
      obtain ⟨m, rfl, -⟩ := hfuel hle
      rw [hround, hsearch]
    | some b =>
      obtain ⟨hb1, hb2, hclear⟩ := bitmapSearchNextUsableBlock_some hsearch
      by_cases hin : (cur ≤ b + sbi.groupFirstBlockNo group &&
          b + sbi.groupFirstBlockNo group ≤ cur + size - 1) = true
      · refine ⟨r1, true, fun fuel hle => ?_, hwf, hother, fun _ => ?_, by simp⟩
        · obtain ⟨m, rfl, -⟩ := hfuel hle
          rw [hround, hsearch]
          exact if_pos hin
        · simp only [Bool.and_eq_true, decide_eq_true_eq] at hin
          refine ⟨hmem, ?_⟩
          rw [hbooked]
          refine ⟨hge, hle, hgoal, ?_, b, ?_, hclear, ?_, ?_⟩
          · simp only [bookedWindow, hgoal]
            omega
          · unfold groupEndBlock at hb2
            omega
          · simp only [bookedWindow, hgoal]
            omega
          · simp only [bookedWindow, hgoal]
            omega
      · -- the bit lies behind the window, and the next round starts there
        have hgoal1 : (r1.win (.inode ino)).rsvGoalSize = size := by
          rw [hbooked]
          exact hgoal
        simp only [Bool.and_eq_true, decide_eq_true_eq, not_and] at hin
        obtain ⟨r', reserved, hrun, hwf', hother', hyes, hno⟩ := ih hwf hmem hgoal1 hsize
          (show sbi.groupFirstBlockNo group ≤ b + sbi.groupFirstBlockNo group by omega) (by omega)
          (by omega)
        refine ⟨r', reserved, fun fuel hle' => ?_, hwf', fun k hk => (hother' k hk).trans
          (hother k hk), fun hres => ?_, hno⟩
        · obtain ⟨m, rfl, hm⟩ := hfuel hle'
          rw [hround, hsearch, ← hrun m hm]
          exact if_neg (by simpa using hin)
        · obtain ⟨hin, hstart, hin', hsz, hlen, hfree⟩ := hyes hres
          exact ⟨hin, by omega, hin', hsz, hlen, hfree⟩

/-- The goal size after the call: as before, or doubled up to the limit. -/
def RegrownFrom (old new : Nat) : Prop :=
  new = old ∨ new = min (old * 2) KR_MAX_RESERVE_BLOCKS

/-- The block the search for a window begins at. -/
def startBlockNo (sbi : SbInfo) (group : Nat) (grpGoal : Int) : Nat :=
  if grpGoal < 0 then sbi.groupFirstBlockNo group
  else grpGoal.toNat + sbi.groupFirstBlockNo group

theorem allocNewReservation_eq (me : Window) (fuel : Nat) (r : Rsv) (grpGoal : Int) :
    allocNewReservation ops sbi me group bm fuel r grpGoal =
      match newReservationSize (r.win me) (groupEndBlock sbi group) (startBlockNo sbi group grpGoal) with
      | none => .done (r, false)
      | some w => reserveRetry ops sbi me group bm fuel (r.setWin me w)
          (searchReserveWindow (r.setWin me w) (startBlockNo sbi group grpGoal))
          (startBlockNo sbi group grpGoal) := rfl

theorem newReservationSize_regrown {w w' : ReserveWindowNode} {groupEnd startBlock : Nat}
    (h : newReservationSize w groupEnd startBlock = some w') :
    RegrownFrom w.rsvGoalSize w'.rsvGoalSize := by
  unfold newReservationSize at h
  split at h
  · exact Or.inl (by cases h; rfl)
  split at h
  · cases h
  split at h
  · exact Or.inr (by cases h; rfl)
  · exact Or.inl (by cases h; rfl)

/-- The early return, for a start block in the group. -/
theorem newReservationSize_none_iff {w : ReserveWindowNode} {groupEnd startBlock : Nat}
    (hstart : startBlock ≤ groupEnd) :
    newReservationSize w groupEnd startBlock = none ↔
      w.rsvStart ≤ startBlock ∧ groupEnd < w.rsvEnd := by
  unfold newReservationSize
  split
  · rename_i hempty
    have hend : w.rsvEnd = 0 := by
      simpa [rsvIsEmpty, KR_RESERVE_WINDOW_NOT_ALLOCATED] using hempty
    simp [hend]
  split
  · rename_i hkeep
    simp only [Bool.and_eq_true, decide_eq_true_eq] at hkeep
    exact iff_of_true rfl ⟨hkeep.2, hkeep.1.2⟩
  · rename_i hkeep
    simp only [Bool.and_eq_true, decide_eq_true_eq] at hkeep
    refine iff_of_false ?_ fun h => hkeep ⟨⟨by omega, h.2⟩, h.1⟩
    split
    · simp
    · simp

/-- `alloc_new_reservation` ends. It returns 0 with a window of the goal size in
the tree that holds a clear bit of the group, and -1 with the window out of the
tree unless the old one reaches past the group from the start block or before. -/
theorem allocNewReservation_spec (hbpg : 0 < sbi.sBlocksPerGroup) {r : Rsv} (h : r.Wf)
    (hsize : 1 ≤ (r.win (.inode ino)).rsvGoalSize) {grpGoal : Int}
    (hgoal : grpGoal < sbi.sBlocksPerGroup) :
    ∃ r' reserved, (∀ fuel, sbi.sBlocksPerGroup ≤ fuel →
        allocNewReservation ops sbi (.inode ino) group bm fuel r grpGoal =
          .done (r', reserved)) ∧
      r'.Wf ∧
      (∀ k, k ≠ .inode ino → r'.win k = r.win k ∧ (k ∈ inorder r'.root ↔ k ∈ inorder r.root)) ∧
      (reserved = true → .inode ino ∈ inorder r'.root ∧
        (∃ size, RegrownFrom (r.win (.inode ino)).rsvGoalSize size ∧
          Reserved sbi group bm (startBlockNo sbi group grpGoal) size (r'.win (.inode ino))) ∧
        ∀ k ∈ inorder r'.root, k ≠ .inode ino → (r'.win k).rsvEnd < (r'.win (.inode ino)).rsvStart ∨
          (r'.win (.inode ino)).rsvEnd < (r'.win k).rsvStart) ∧
      (reserved = false →
        if (r.win (.inode ino)).rsvStart ≤ startBlockNo sbi group grpGoal ∧
            groupEndBlock sbi group < (r.win (.inode ino)).rsvEnd then r' = r
        else .inode ino ∉ inorder r'.root) := by
  have hlow : sbi.groupFirstBlockNo group ≤ startBlockNo sbi group grpGoal := by
    unfold startBlockNo
    split
    · exact le_refl _
    · exact Nat.le_add_left _ _
  have hhigh : startBlockNo sbi group grpGoal ≤ groupEndBlock sbi group := by
    unfold startBlockNo groupEndBlock
    split
    · omega
    · omega
  cases hnew : newReservationSize (r.win (.inode ino)) (groupEndBlock sbi group)
      (startBlockNo sbi group grpGoal) with
  | none =>
    have hkept := (newReservationSize_none_iff hhigh).mp hnew
    refine ⟨r, false, fun fuel _ => ?_, h, fun k _ => ⟨rfl, Iff.rfl⟩, by simp, fun _ => ?_⟩
    · simp only [startBlockNo] at hnew
      simp only [allocNewReservation, hnew]
    · rw [if_pos hkept]
  | some w =>
    have hkept := mt (newReservationSize_none_iff hhigh).mpr (by rw [hnew]; simp)
    obtain ⟨hstart, hend, hpos⟩ := newReservationSize_some hnew
    have hwf : (r.setWin (.inode ino) w).Wf := h.setWin hstart hend
    obtain ⟨node, hnode, hmem⟩ := searchReserveWindow_mem hwf (startBlockNo sbi group grpGoal)
    have hgoal' : ((r.setWin (.inode ino) w).win (.inode ino)).rsvGoalSize = w.rsvGoalSize := by
      simp [Rsv.setWin]
    obtain ⟨r', reserved, hrun, hwf', hother, hyes, hno⟩ := reserveRetry_spec ops bm hbpg
      sbi.sBlocksPerGroup hwf hmem hgoal' (hpos hsize) hlow hhigh
      (by unfold groupEndBlock; omega)
    have hwin : ∀ k, k ≠ .inode ino → r'.win k = r.win k := fun k hk =>
      (hother k hk).trans (setWin_other _ _ _ _ hk)
    refine ⟨r', reserved, fun fuel hle => ?_, hwf', fun k hk => ⟨hwin k hk, ?_⟩, fun hres => ?_,
      fun hres => ?_⟩
    · simp only [startBlockNo] at hnew hnode
      rw [← hrun fuel hle]
      simp only [allocNewReservation, hnew, hnode]
      rfl
    · -- who is in the tree is told by the windows
      cases k with
      | head => exact iff_of_true (WindowsOrdered.head_mem hwf') (WindowsOrdered.head_mem h)
      | inode i => rw [hwf'.mem_iff, h.mem_iff, hwin _ hk]
    · obtain ⟨hin, hres⟩ := hyes hres
      exact ⟨hin, ⟨w.rsvGoalSize, newReservationSize_regrown hnew, hres⟩,
        fun k hk hne => hwf'.apart hk hin hne⟩
    · rw [if_neg hkept]
      exact fun hin => (hwf'.mem_iff ino).mp hin (hno hres)

/-- Inode 13 holds the blocks 8 to 11. -/
def neighbourRsv : Rsv where
  root := .node .head .nil (.node (.inode 13) .nil .nil)
  win
    | .inode 12 => ⟨4, 0, 0, 0⟩
    | .inode 13 => ⟨4, 0, 8, 11⟩
    | _ => ⟨0, 0, 0, 0⟩

theorem neighbourRsv_wf : neighbourRsv.Wf := by
  have hroot : inorder neighbourRsv.root = [.head, .inode 13] := rfl
  rw [Rsv.Wf, hroot]
  refine ⟨by simp [neighbourRsv], by simp [neighbourRsv], rfl, ⟨rfl, rfl⟩, fun i => ?_⟩
  by_cases hi : i = 13
  · subst hi
    simp [neighbourRsv]
  · have hend : (neighbourRsv.win (.inode i)).rsvEnd = 0 := by
      unfold neighbourRsv
      dsimp only
      split
      · rfl
      · simp_all
      · rfl
    simp [hi, hend]

/-- The bounds of the windows of inodes 12 and 13, and the result. -/
def boundsAfter : Exec (Rsv × Bool) → Option (Nat × Nat × Nat × Nat × Bool)
  | .done (r, reserved) => some ((r.win (.inode 12)).rsvStart, (r.win (.inode 12)).rsvEnd,
      (r.win (.inode 13)).rsvStart, (r.win (.inode 13)).rsvEnd, reserved)
  | _ => none

/-- A goal inside the neighbour's window is served behind it. -/
theorem allocNewReservation_spec_neighbour : ∃ r',
    allocNewReservation Rebalance.plain reserveFs.sbi (.inode 12) 0 (reserveFs.blockBitmap 0) 16
      neighbourRsv 8 = .done (r', true) ∧
    (r'.win (.inode 12)).rsvStart = 12 ∧ (r'.win (.inode 12)).rsvEnd = 15 ∧
    Reserved reserveFs.sbi 0 (reserveFs.blockBitmap 0) 9 4 (r'.win (.inode 12)) := by
  obtain ⟨r', reserved, hrun, -, -, hyes, -⟩ := @allocNewReservation_spec
    Rebalance.plain _ 12 0 (reserveFs.blockBitmap 0) (show 0 < reserveFs.sbi.sBlocksPerGroup by decide)
    _ neighbourRsv_wf
    (by decide) 8 (by decide)
  have hbounds : boundsAfter (allocNewReservation Rebalance.plain reserveFs.sbi (.inode 12) 0
      (reserveFs.blockBitmap 0) 16 neighbourRsv 8) = some (12, 15, 8, 11, true) := by
    decide +kernel
  have hrun := hrun 16 (by decide)
  rw [hrun] at hbounds
  simp only [boundsAfter, Option.some.injEq, Prod.mk.injEq] at hbounds
  obtain ⟨hs, he, -, -, rfl⟩ := hbounds
  obtain ⟨-, ⟨size, -, hres⟩, -⟩ := hyes rfl
  refine ⟨r', hrun, hs, he, ?_⟩
  have hlen := hres.length
  have hsz : size = 4 := by omega
  subst hsz
  exact hres

end Spec

end KrFs
