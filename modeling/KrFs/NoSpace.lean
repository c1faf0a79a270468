import KrFs.Reserve
import KrFs.RsvGoal

/-!
# When an allocation fails

`kr_new_blocks` with no other caller, no quota and no unreadable bitmap returns
after finitely many steps, and it fails for want of space only when there is no
free block. A group may be skipped because of its window; the pass without
reservations comes to every group again.
-/

namespace KrFs

open SearchTree Bitmap

/-! ## The search of one group -/

theorem claimFirst_finds {bm : Nat → Bool} {stop b : Nat} (hclear : bm b = false)
    (hstop : b < stop) (n : Nat) :
    ∀ goal, goal ≤ b → b - goal < n → ∃ p, claimFirst bm stop n goal = some p := by
  induction n with
  | zero => omega
  | succ n ih =>
    intro goal hle hn
    unfold claimFirst
    by_cases hset : bm goal = true
    · have hne : goal ≠ b := by
        rintro rfl
        rw [hclear] at hset
        cases hset
      rw [if_pos hset, if_neg (by omega)]
      exact ih (goal + 1) (by omega) (by omega)
    · rw [if_neg hset]
      exact ⟨goal, rfl⟩

theorem memscanZero_spec (bm : Nat → Bool) (n : Nat) : ∀ i,
    memscanZero bm n i < i + n → byteClear bm (memscanZero bm n i) = true := by
  induction n with
  | zero =>
    intro i h
    simp only [memscanZero] at h
    omega
  | succ n ih =>
    intro i h
    unfold memscanZero at h ⊢
    split
    · rename_i hbyte
      exact hbyte
    · rename_i hbyte
      rw [if_neg hbyte] at h
      exact ih (i + 1) (by omega)

theorem byteClear_first {bm : Nat → Bool} {i : Nat} (h : byteClear bm i = true) :
    bm (i * 8) = false := by
  rw [byteClear, List.all_eq_true] at h
  have h0 := h 0 (by simp)
  rw [Nat.mul_comm]
  simpa using h0

/-- Each of the three searches gives a clear bit of the range. -/
theorem findNextUsableBlock_sound {start : Int} {bm : Nat → Bool} {maxblocks p : Nat}
    (h : findNextUsableBlock start bm maxblocks = some p) :
    start.toNat ≤ p ∧ p < maxblocks ∧ bm p = false := by
  have hlt := findNextUsableBlock_lt h
  unfold findNextUsableBlock at h
  dsimp only at h
  split at h
  · rename_i hnear
    simp only [Bool.and_eq_true, decide_eq_true_eq] at hnear
    cases h
    obtain ⟨hge, hbit⟩ := (nextZero_spec bm (min ((start.toNat + 63) / 64 * 64) maxblocks)
      start.toNat).2.1 hnear.2
    exact ⟨hge, hlt, hbit⟩
  · split at h
    · rename_i hnext
      simp only [Bool.and_eq_true, decide_eq_true_eq] at hnext
      cases h
      refine ⟨hnext.2, hlt, byteClear_first (memscanZero_spec bm _ _ ?_)⟩
      omega
    · exact bitmapSearchNextUsableBlock_some h

/-- The search bit by bit comes last and goes over the whole range. -/
theorem findNextUsableBlock_none {start : Int} {bm : Nat → Bool} {maxblocks i : Nat}
    (h : findNextUsableBlock start bm maxblocks = none) (hle : start.toNat ≤ i)
    (hlt : i < maxblocks) : bm i = true := by
  unfold findNextUsableBlock at h
  dsimp only at h
  split at h
  · cases h
  · split at h
    · cases h
    · obtain ⟨-, hfound, hset⟩ := nextZero_spec bm maxblocks start.toNat
      have hend : maxblocks ≤ nextZero bm maxblocks start.toNat := by
        by_contra hlt'
        rw [bitmapSearchNextUsableBlock, if_neg (by omega)] at h
        cases h
      exact hset i hle (by omega)

/-- `find_next_usable_block` fails just when the range is full, and else gives a clear bit of it. -/
theorem findNextUsableBlock_iff (start : Int) (bm : Nat → Bool) (maxblocks : Nat) :
    (findNextUsableBlock start bm maxblocks = none ↔
      ∀ i : Nat, max start 0 ≤ (i : Int) → i < maxblocks → bm i = true) ∧
    ∀ p : Nat, findNextUsableBlock start bm maxblocks = some p →
      max start 0 ≤ (p : Int) ∧ p < maxblocks ∧ bm p = false := by
  have hsound : ∀ p : Nat, findNextUsableBlock start bm maxblocks = some p →
      max start 0 ≤ (p : Int) ∧ p < maxblocks ∧ bm p = false := by
    intro p h
    obtain ⟨hge, hlt, hclear⟩ := findNextUsableBlock_sound h
    exact ⟨by omega, hlt, hclear⟩
  refine ⟨⟨fun h i hge hlt => findNextUsableBlock_none h (by omega) hlt, fun h => ?_⟩, hsound⟩
  cases hres : findNextUsableBlock start bm maxblocks with
  | none => rfl
  | some p =>
    obtain ⟨hge, hlt, hclear⟩ := hsound p hres
    rw [h p hge hlt] at hclear
    cases hclear

/-- A clear bit in the range is found, or another one. -/
theorem findNextUsableBlock_finds {bm : Nat → Bool} {start maxblocks b : Nat} (hle : start ≤ b)
    (hlt : b < maxblocks) (hclear : bm b = false) :
    ∃ p, findNextUsableBlock start bm maxblocks = some p ∧ start ≤ p ∧ bm p = false := by
  cases hres : findNextUsableBlock start bm maxblocks with
  | none =>
    have hset := findNextUsableBlock_none hres (by simpa using hle) hlt
    rw [hclear] at hset
    cases hset
  | some p =>
    obtain ⟨hge, -, hbit⟩ := findNextUsableBlock_sound hres
    exact ⟨p, rfl, by simpa using hge, hbit⟩

section Try

variable {sbi : SbInfo} {group : Nat} {bm : Nat → Bool} {grpGoal : Int} {count : Nat}
  {myRsv : Option ReserveWindowNode}

/-- The `BUG_ON` is the only way not to return. -/
theorem krTryToAllocate_done (bm : Nat → Bool) (count : Nat)
    (hstart : (allocRange sbi group grpGoal myRsv).1 ≤ sbi.sBlocksPerGroup) :
    ∃ bm' found num, krTryToAllocate sbi group bm grpGoal count myRsv =
      .done (bm', found, num) := by
  unfold krTryToAllocate
  dsimp only
  rw [if_neg (by omega)]
  split
  · exact ⟨_, _, _, rfl⟩
  · exact ⟨_, _, _, rfl⟩

/-- A clear bit in the range of the search, from the goal on, is enough. -/
theorem krTryToAllocate_finds {start stop b : Nat} {goal : Option Nat}
    (hrange : allocRange sbi group grpGoal myRsv = (start, stop, goal))
    (hgoal : ∀ g, goal = some g → g = start) (hstart : start ≤ b) (hstop : b < stop)
    (hbpg : stop ≤ sbi.sBlocksPerGroup) (hclear : bm b = false) :
    ∃ bm' first num, krTryToAllocate sbi group bm grpGoal count myRsv =
      .done (bm', some first, num) := by
  unfold krTryToAllocate
  rw [hrange]
  dsimp only
  rw [if_neg (by omega)]
  cases goal with
  | some g =>
    have hg := hgoal g rfl
    obtain ⟨p, hp⟩ := claimFirst_finds hclear hstop (stop - g + 1) g (by omega) (by omega)
    simp only [Option.bind_some, hp]
    exact ⟨_, _, _, rfl⟩
  | none =>
    obtain ⟨q, hq, hqs, hqc⟩ := findNextUsableBlock_finds hstart hstop hclear
    have hql := findNextUsableBlock_lt hq
    simp only [hq, Option.map_some, Option.bind_some]
    set g := if myRsv.isNone = true then backUp bm start 7 q else q with hg
    have hgq : g ≤ q := by
      rw [hg]
      split
      · exact backUp_le _ _ _ _
      · exact le_refl _
    obtain ⟨p, hp⟩ := claimFirst_finds hqc hql (stop - g + 1) g hgq (by omega)
    simp only [hp]
    exact ⟨_, _, _, rfl⟩

/-- Without a window and without a goal any clear bit of the group is enough. -/
theorem krTryToAllocate_any (group count : Nat) {b : Nat} (hb : b < sbi.sBlocksPerGroup) (hclear : bm b = false) :
    ∃ bm' first num, krTryToAllocate sbi group bm (-1) count none =
      .done (bm', some first, num) := by
  have hrange : allocRange sbi group (-1) none = (0, sbi.sBlocksPerGroup, none) := rfl
  exact krTryToAllocate_finds hrange (by simp) (Nat.zero_le b) hb (le_refl _) hclear

end Try

/-! ## The search with a window -/

section Window

variable (ops : Rebalance Window) {sbi : SbInfo} {bm : Nat → Bool} {ino : Nat}

/-- A window that was just booked: it begins in the group, not before the goal,
and a bit of the group in it is clear. -/
structure FreshWindow (sbi : SbInfo) (bm : Nat → Bool) (w : ReserveWindowNode) (req : RsvRequest) :
    Prop where
  in_group : sbi.groupFirstBlockNo req.group ≤ w.rsvStart
  after_goal : 0 ≤ req.grpGoal → req.grpGoal.toNat + sbi.groupFirstBlockNo req.group ≤ w.rsvStart
  clear : ∃ b < sbi.sBlocksPerGroup, bm b = false ∧
    w.rsvStart ≤ sbi.groupFirstBlockNo req.group + b ∧
    sbi.groupFirstBlockNo req.group + b ≤ w.rsvEnd

theorem FreshWindow.finds {w : ReserveWindowNode} {req : RsvRequest}
    (h : FreshWindow sbi bm w req) (count : Nat) : ∃ bm' first num,
    krTryToAllocate sbi req.group bm req.grpGoal count (some w) = .done (bm', some first, num) := by
  obtain ⟨hin, hgoal, b, hb, hclear, hlow, hhigh⟩ := h
  set first := sbi.groupFirstBlockNo req.group with hfirst
  have hstop : b < min (w.rsvEnd - first + 1) sbi.sBlocksPerGroup := by omega
  by_cases hmid : ((w.rsvStart - first : Nat) : Int) ≤ req.grpGoal ∧
      req.grpGoal < (min (w.rsvEnd - first + 1) sbi.sBlocksPerGroup : Nat)
  · have hrange : allocRange sbi req.group req.grpGoal (some w) =
        (req.grpGoal.toNat, min (w.rsvEnd - first + 1) sbi.sBlocksPerGroup,
          some req.grpGoal.toNat) := by
      simp only [allocRange, ← hfirst]
      exact if_pos (by simpa using hmid)
    refine krTryToAllocate_finds hrange (fun g hg => (Option.some.inj hg).symm) ?_ hstop
      (min_le_right _ _) hclear
    have := hgoal (by omega)
    omega
  · have hrange : allocRange sbi req.group req.grpGoal (some w) =
        (w.rsvStart - first, min (w.rsvEnd - first + 1) sbi.sBlocksPerGroup, none) := by
      simp only [allocRange, ← hfirst]
      exact if_neg (by simpa using hmid)
    exact krTryToAllocate_finds hrange (by simp) (by omega) hstop (min_le_right _ _) hclear

/-- The run of a call returns with a tree in order. -/
def WindowDone (sbi : SbInfo) (bm : Nat → Bool) (ino fuel : Nat) (r : Rsv) (phase : RsvPhase) :
    Prop :=
  ∃ r' bm' found, withRsvRun ops sbi (.inode ino) bm fuel r phase = .done (r', bm', found) ∧ r'.Wf

theorem windowDone_idle {fuel : Nat} {r : Rsv} (h : r.Wf) :
    WindowDone ops sbi bm ino (fuel + 1) r .idle :=
  ⟨r, bm, none, rfl, h⟩

/-- A step of the inode, and the run from there on. -/
theorem windowDone_step {fuel : Nat} {r r' : Rsv} {phase phase' : RsvPhase}
    (hphase : withRsvRun ops sbi (.inode ino) bm (fuel + 1) r phase =
      withRsvRun ops sbi (.inode ino) bm fuel
        (threadStep ops sbi r (.inode ino) ⟨bm, true, none⟩ phase).1
        (threadStep ops sbi r (.inode ino) ⟨bm, true, none⟩ phase).2)
    (hstep : threadStep ops sbi r (.inode ino) ⟨bm, true, none⟩ phase = (r', phase'))
    (h : WindowDone ops sbi bm ino fuel r' phase') :
    WindowDone ops sbi bm ino (fuel + 1) r phase := by
  obtain ⟨r'', bm', found, hrun, hwf⟩ := h
  exact ⟨r'', bm', found, by rw [hphase, hstep, hrun], hwf⟩

/-- What one round at the allocation comes to. -/
theorem withRsvRun_allocate {fuel : Nat} {r : Rsv} {req : RsvRequest}
    (hmeets : MeetsGroup sbi (r.win (.inode ino)) req.group) :
    withRsvRun ops sbi (.inode ino) bm (fuel + 1) r (.allocate req) =
      (krTryToAllocate sbi req.group bm req.grpGoal req.count (some (r.win (.inode ino)))).bind
        fun (bm', found, num) =>
          match found with
          | some first => .done ((r.setWin (.inode ino) { r.win (.inode ino) with
              rsvAllocHit := (r.win (.inode ino)).rsvAllocHit + num }), bm', some (first, num))
          | none => withRsvRun ops sbi (.inode ino) bm fuel r (.loop req true) := by
  have hin : ¬ (groupEndBlock sbi req.group < (r.win (.inode ino)).rsvStart ||
      (r.win (.inode ino)).rsvEnd < sbi.groupFirstBlockNo req.group) = true := by
    simp only [Bool.or_eq_true, decide_eq_true_eq, not_or, not_lt]
    exact hmeets
  have hstep : ∀ found, allocateInWindow sbi r (.inode ino) req found =
      match found with
      | some num => (r.setWin (.inode ino) { r.win (.inode ino) with
          rsvAllocHit := (r.win (.inode ino)).rsvAllocHit + num }, .idle)
      | none => (r, .loop req true) := fun found => if_neg hin
  rw [withRsvRun, hstep none]
  generalize krTryToAllocate sbi req.group bm req.grpGoal req.count (some (r.win (.inode ino))) = run
  cases run with
  | bug => rfl
  | running => rfl
  | done res =>
    obtain ⟨bm', found, num⟩ := res
    cases found with
    | none => rfl
    | some first =>
      exact congrArg (fun p => Exec.done (p.1, bm', some (first, num))) (hstep (some num))

theorem windowDone_fresh {fuel : Nat} {r : Rsv} {req : RsvRequest} (h : r.Wf)
    (hp : PhaseOk sbi (r.win (.inode ino)) (.allocate req))
    (hfresh : FreshWindow sbi bm (r.win (.inode ino)) req) :
    WindowDone ops sbi bm ino (fuel + 1) r (.allocate req) := by
  obtain ⟨bm', first, num, hfound⟩ := hfresh.finds req.count
  refine ⟨r.setWin (.inode ino) { r.win (.inode ino) with
    rsvAllocHit := (r.win (.inode ino)).rsvAllocHit + num }, bm', some (first, num), ?_,
    h.setWin rfl rfl⟩
  rw [withRsvRun_allocate ops hp.2.2, hfound]
  rfl

/-- The search for a new window ends: every further round starts behind the
window of the round before. -/
theorem windowDone_reserve (hbpg : 0 < sbi.sBlocksPerGroup) {req : RsvRequest} (n : Nat) :
    ∀ {fuel startBlock : Nat} {again : Bool} {r : Rsv}, r.Wf →
    PhaseOk sbi (r.win (.inode ino)) (.reserve req startBlock again) →
    sbi.groupFirstBlockNo req.group ≤ startBlock →
    (0 ≤ req.grpGoal → req.grpGoal.toNat + sbi.groupFirstBlockNo req.group ≤ startBlock) →
    groupEndBlock sbi req.group + 1 - startBlock ≤ n → 2 * n + 4 ≤ fuel →
    WindowDone ops sbi bm ino fuel r (.reserve req startBlock again) := by
  induction n with
  | zero =>
    intro fuel startBlock again r h hp hlow hgoal hn hfuel
    obtain ⟨fuel, rfl⟩ : ∃ m, fuel = m + 2 := ⟨fuel - 2, by omega⟩
    rcases reserve_cases ops h hp ⟨bm, true, none⟩ with
      ⟨r', hstep, hwf, -⟩ | ⟨r', cur, -, -, -, hge, hle, -⟩
    · exact windowDone_step ops rfl hstep (windowDone_idle ops hwf)
    · omega
  | succ n ih =>
    intro fuel startBlock again r h hp hlow hgoal hn hfuel
    obtain ⟨fuel, rfl⟩ : ∃ m, fuel = m + 4 := ⟨fuel - 4, by omega⟩
    have hok := reserve_ok ops h hp ⟨bm, true, none⟩
    rcases reserve_cases ops h hp ⟨bm, true, none⟩ with
      ⟨r', hstep, hwf, -⟩ | ⟨r', cur, hstep, hwf, hpos, hge, hle, hwin⟩
    · exact windowDone_step ops rfl hstep (windowDone_idle ops hwf)
    · rw [hstep] at hok
      have hp1 : PhaseOk sbi (r'.win (.inode ino)) (.inspect req) := hok.2.2
      have hp2 := inspectWindow_ok hbpg hp1 bm
      have hstart : (r'.win (.inode ino)).rsvStart = cur := by
        rw [hwin, Function.update_self]
        rfl
      have hend : cur ≤ (r'.win (.inode ino)).rsvEnd := by
        have hsize := hp.2.1
        rw [hwin, Function.update_self]
        simp only [bookedWindow]
        omega
      refine windowDone_step ops rfl hstep (windowDone_step ops rfl rfl ?_)
      unfold inspectWindow at hp2 ⊢
      dsimp only at hp2 ⊢
      cases hsearch : bitmapSearchNextUsableBlock ((r'.win (.inode ino)).rsvStart -
          sbi.groupFirstBlockNo req.group) bm (groupEndBlock sbi req.group -
          sbi.groupFirstBlockNo req.group + 1) with
      | none =>
        exact windowDone_step ops rfl rfl
          (windowDone_idle ops (rsvWindowDrop_wf ops hwf ino).1)
      | some b =>
        simp only [hsearch] at hp2
        obtain ⟨hb1, hb2, hclear⟩ := bitmapSearchNextUsableBlock_some hsearch
        have hb : b < sbi.sBlocksPerGroup := by
          unfold groupEndBlock at hb2
          omega
        dsimp only
        by_cases hin : ((r'.win (.inode ino)).rsvStart ≤ b + sbi.groupFirstBlockNo req.group &&
            b + sbi.groupFirstBlockNo req.group ≤ (r'.win (.inode ino)).rsvEnd) = true
        · rw [if_pos hin] at hp2 ⊢
          simp only [Bool.and_eq_true, decide_eq_true_eq] at hin
          have hfresh : ∀ goal, (0 ≤ goal → goal = req.grpGoal) →
              FreshWindow sbi bm (r'.win (.inode ino)) { req with grpGoal := goal } := by
            intro goal heq
            refine ⟨by rw [hstart]; exact hlow.trans hge, fun h0 => ?_, b, hb, hclear, ?_, ?_⟩
            · have hg : goal = req.grpGoal := heq h0
              have := hgoal (hg ▸ h0)
              rw [hstart, hg]
              exact this.trans hge
            · rw [Nat.add_comm]
              exact hin.1
            · rw [Nat.add_comm]
              exact hin.2
          split at hp2
          · rename_i hout
            rw [if_pos hout]
            exact windowDone_fresh ops hwf hp2 (hfresh (-1) (by omega))
          · rename_i hout
            rw [if_neg hout]
            exact windowDone_fresh ops hwf hp2 (hfresh req.grpGoal fun _ => rfl)
        · rw [if_neg hin] at hp2 ⊢
          simp only [Bool.and_eq_true, decide_eq_true_eq, not_and] at hin
          exact ih hwf hp2 (by omega) (fun h0 => by have := hgoal h0; omega) (by omega) (by omega)

/-- After a failed attempt a new window is searched for. -/
theorem windowDone_failed (hbpg : 0 < sbi.sBlocksPerGroup) {r : Rsv} {req : RsvRequest} {fuel : Nat}
    {failed : Bool} (h : r.Wf) (hcount : 1 ≤ req.count) (hfuel : 2 * sbi.sBlocksPerGroup + 5 ≤ fuel)
    (hnew : (rsvIsEmpty (r.win (.inode ino)) || failed ||
      !goalInMyReservation sbi (r.win (.inode ino)) req.grpGoal req.group) = true) :
    WindowDone ops sbi bm ino fuel r (.loop req failed) := by
  obtain ⟨fuel, rfl⟩ : ∃ m, fuel = m + 1 := ⟨fuel - 1, by omega⟩
  have hok : StepOk sbi r ino (loopHead sbi r (.inode ino) req failed) :=
    loopHead_ok hbpg h hcount failed
  obtain ⟨r', phase', hstep⟩ : ∃ r' phase', loopHead sbi r (.inode ino) req failed = (r', phase') :=
    ⟨_, _, rfl⟩
  rw [hstep] at hok
  refine windowDone_step ops rfl hstep ?_
  unfold loopHead at hstep
  dsimp only at hstep
  rw [if_pos hnew] at hstep
  split at hstep
  · cases hstep
    obtain ⟨fuel, rfl⟩ : ∃ m, fuel = m + 1 := ⟨fuel - 1, by omega⟩
    exact windowDone_idle ops hok.1
  · cases hstep
    refine windowDone_reserve ops hbpg sbi.sBlocksPerGroup hok.1 hok.2.2 ?_ ?_ ?_ (by omega)
    · split <;> omega
    · intro h0
      rw [if_neg (by omega)]
    · unfold groupEndBlock
      split <;> omega

/-- `kr_try_to_allocate_with_rsv` returns when no other inode runs. -/
theorem windowDone_loop (hbpg : 0 < sbi.sBlocksPerGroup) {r : Rsv} {req : RsvRequest} {fuel : Nat}
    (h : r.Wf) (hcount : 1 ≤ req.count) (hfuel : 2 * sbi.sBlocksPerGroup + 8 ≤ fuel) :
    WindowDone ops sbi bm ino fuel r (.loop req false) := by
  by_cases hnew : (rsvIsEmpty (r.win (.inode ino)) || false ||
      !goalInMyReservation sbi (r.win (.inode ino)) req.grpGoal req.group) = true
  · exact windowDone_failed ops hbpg h hcount (by omega) hnew
  · -- the window is used as it is, after an attempt to extend it
    have allocate : ∀ {m : Nat} {r : Rsv}, 2 * sbi.sBlocksPerGroup + 6 ≤ m → r.Wf →
        PhaseOk sbi (r.win (.inode ino)) (.allocate req) →
        WindowDone ops sbi bm ino m r (.allocate req) := by
      intro m r hm hwf hp
      obtain ⟨m, rfl⟩ : ∃ n, m = n + 1 := ⟨m - 1, by omega⟩
      have hstart : (allocRange sbi req.group req.grpGoal (some (r.win (.inode ino)))).1 ≤
          sbi.sBlocksPerGroup := by
        have hmeets := hp.2.2
        unfold MeetsGroup groupEndBlock at hmeets
        simp only [allocRange]
        split
        · rename_i hin
          simp only [Bool.and_eq_true, decide_eq_true_eq] at hin
          dsimp only
          omega
        · dsimp only
          omega
      obtain ⟨bm', found, num, htry⟩ := krTryToAllocate_done bm req.count hstart
      cases found with
      | some first =>
        refine ⟨r.setWin (.inode ino) { r.win (.inode ino) with
          rsvAllocHit := (r.win (.inode ino)).rsvAllocHit + num }, bm', some (first, num), ?_,
          hwf.setWin rfl rfl⟩
        rw [withRsvRun_allocate ops hp.2.2, htry]
        rfl
      | none =>
        obtain ⟨r', bm'', found, hrun, hwf'⟩ : WindowDone ops sbi bm ino m r (.loop req true) :=
          windowDone_failed ops hbpg hwf hcount (by omega) (by simp)
        refine ⟨r', bm'', found, ?_, hwf'⟩
        rw [withRsvRun_allocate ops hp.2.2, htry]
        exact hrun
    obtain ⟨fuel, rfl⟩ : ∃ m, fuel = m + 2 := ⟨fuel - 2, by omega⟩
    have hok : StepOk sbi r ino (loopHead sbi r (.inode ino) req false) :=
      loopHead_ok hbpg h hcount false
    obtain ⟨r', phase', hstep⟩ : ∃ r' phase', loopHead sbi r (.inode ino) req false = (r', phase') :=
      ⟨_, _, rfl⟩
    rw [hstep] at hok
    refine windowDone_step ops rfl hstep ?_
    unfold loopHead at hstep
    dsimp only at hstep
    rw [if_neg hnew] at hstep
    split at hstep
    · split at hstep
      · cases hstep
        have hstep' := threadStep_ok ops hbpg hok.1 _ hok.2.2 ⟨bm, true, none⟩
        exact windowDone_step ops rfl rfl (allocate (by omega) hstep'.1 hstep'.2.2)
      · cases hstep
        exact allocate (by omega) hok.1 hok.2.2
    · cases hstep
      exact allocate (by omega) hok.1 hok.2.2

/-- The same for a request of no block, when the window has a goal size. -/
theorem windowDone_request (hbpg : 0 < sbi.sBlocksPerGroup) {r : Rsv} {req : RsvRequest}
    {fuel : Nat} (h : r.Wf) (hask : 1 ≤ req.count ∨ 1 ≤ (r.win (.inode ino)).rsvGoalSize)
    (hfuel : 2 * sbi.sBlocksPerGroup + 8 ≤ fuel) :
    WindowDone ops sbi bm ino fuel r (.loop req false) := by
  rcases hask with hcount | hsize
  · exact windowDone_loop ops hbpg h hcount hfuel
  · obtain ⟨r', bm', found, hrun, hwf⟩ : WindowDone ops sbi bm ino fuel r
        (.loop req.atLeastOne false) :=
      windowDone_loop ops hbpg h (le_max_left 1 req.count) hfuel
    refine ⟨r', bm', found, ?_, hwf⟩
    rw [← hrun]
    exact (withRsvRun_atLeastOne ops bm fuel (.loop req false) hsize).symm

end Window

/-! ## All groups -/

/-- A state in which the counts of the groups agree with their bitmaps, the
metadata is marked in use and the reservations are in order. -/
structure Fs.Counted (fs : Fs) : Prop extends fs.SystemSet where
  freeCount : ∀ g < fs.sbi.sGroupsCount, (fs.desc g).bgFreeBlocksCount.toNat =
    clearCount (fs.blockBitmap g) fs.sbi.sBlocksPerGroup
  windows : fs.rsv.Wf

/-- No bit of the group is clear. -/
def Fs.GroupFull (fs : Fs) (g : Nat) : Prop :=
  ∀ i < fs.sbi.sBlocksPerGroup, fs.blockBitmap g i = true

section Search

variable (ops : Rebalance Window) (env : AllocEnv) (ino : Nat) {fuel : Nat} {fs fs' : Fs}

theorem SameButRsv.counted (hsame : SameButRsv fs fs') (hwf : fs'.rsv.Wf) (h : fs.Counted) :
    fs'.Counted := by
  rw [hsame]
  exact ⟨⟨h.bpg_pos, h.system, h.padding⟩, h.freeCount, hwf⟩

theorem Fs.Counted.full_iff (h : fs.Counted) {g : Nat} (hg : g < fs.sbi.sGroupsCount) :
    fs.GroupFull g ↔ (fs.desc g).bgFreeBlocksCount.toNat = 0 := by
  rw [h.freeCount g hg, clearCount, Finset.card_eq_zero, Finset.filter_eq_empty_iff]
  simp [Fs.GroupFull]

/-- What a search with a window relies on: a block is asked for, or the window
has a goal size. -/
def Fs.AsksWindow (fs : Fs) (ino : Nat) (useRsv : Bool) (num : Nat) : Prop :=
  useRsv = true → 1 ≤ num ∨ 1 ≤ (fs.rsv.win (.inode ino)).rsvGoalSize

/-- The attempt on one group returns. -/
theorem tryGroup_done {useRsv : Bool} (group : Nat) {num : Nat} {grpGoal : Int}
    (hbpg : 0 < fs.sbi.sBlocksPerGroup) (hwf : fs.rsv.Wf) (hask : fs.AsksWindow ino useRsv num)
    (hgoal : grpGoal < fs.sbi.sBlocksPerGroup) (hfuel : 2 * fs.sbi.sBlocksPerGroup + 8 ≤ fuel) :
    ∃ fs' found num', tryGroup ops ino fuel fs useRsv group grpGoal num =
      .done (fs', found, num') ∧ fs'.rsv.Wf ∧ (found = none → fs'.AsksWindow ino useRsv num') := by
  cases useRsv with
  | true =>
    obtain ⟨r', bm', found, hrun, hwf'⟩ : WindowDone ops fs.sbi (fs.blockBitmap group) ino fuel
        fs.rsv (.loop ⟨group, grpGoal, num⟩ false) :=
      windowDone_request ops hbpg hwf (hask rfl) hfuel
    cases found with
    | some val =>
      obtain ⟨first, num'⟩ := val
      refine ⟨{ fs with rsv := r', blockBitmap := Function.update fs.blockBitmap group bm' },
        some first, num', ?_, hwf', by simp⟩
      simp only [tryGroup, if_true, hrun]
      rfl
    | none =>
      refine ⟨{ fs with rsv := r', blockBitmap := Function.update fs.blockBitmap group bm' },
        none, num, ?_, hwf', fun _ huse => ?_⟩
      · simp only [tryGroup, if_true, hrun]
        rfl
      · exact (hask huse).imp_right fun hsize => withRsvRun_goalSize ops fuel hsize hrun
  | false =>
    have hstart : (allocRange fs.sbi group grpGoal none).1 ≤ fs.sbi.sBlocksPerGroup := by
      simp only [allocRange]
      omega
    obtain ⟨bm', found, num', htry⟩ := krTryToAllocate_done (fs.blockBitmap group) num hstart
    refine ⟨{ fs with blockBitmap := Function.update fs.blockBitmap group bm' }, found, num', ?_,
      hwf, fun _ huse => by simp at huse⟩
    simp only [tryGroup, Bool.false_eq_true, if_false, htry]
    rfl

theorem searchGroups_returns {useRsv : Bool} {windowsz : Nat} (n : Nat) :
    ∀ {fs : Fs} {groupNo num : Nat}, 0 < fs.sbi.sBlocksPerGroup → fs.rsv.Wf →
    fs.AsksWindow ino useRsv num → 2 * fs.sbi.sBlocksPerGroup + 8 ≤ fuel →
    ∃ fs' result, searchGroups ops env ino fuel useRsv windowsz n fs groupNo num =
      .done (fs', result) ∧ fs'.rsv.Wf := by
  induction n with
  | zero => exact fun _ hwf _ _ => ⟨_, _, rfl, hwf⟩
  | succ n ih =>
    intro fs groupNo num hbpg hwf hask hfuel
    unfold searchGroups
    dsimp only
    generalize (if fs.sbi.sGroupsCount ≤ groupNo + 1 then 0 else groupNo + 1) = group
    split
    · exact ⟨_, _, rfl, hwf⟩
    rename_i gdp hdesc
    split
    · exact ih hbpg hwf hask hfuel
    split
    · exact ih hbpg hwf hask hfuel
    split
    · exact ⟨_, _, rfl, hwf⟩
    have hgoal : (-1 : Int) < fs.sbi.sBlocksPerGroup := by omega
    obtain ⟨fs1, found, num1, htry, hwf1, hkeep⟩ := tryGroup_done ops ino group hbpg hwf hask
      hgoal hfuel
    rw [htry]
    cases found with
    | some first => exact ⟨_, _, rfl, hwf1⟩
    | none =>
      rcases tryGroup_spec ops ino fuel (Fs.groupDesc_some hdesc).1 hgoal htry with
        ⟨-, hsame, -⟩ | ⟨first, hf, -⟩
      · have hsbi : fs1.sbi = fs.sbi := by rw [hsame]
        exact ih (by rwa [hsbi]) hwf1 (hkeep rfl) (by rwa [hsbi])
      · cases hf

theorem searchFrom_returns {useRsv : Bool} {goal groupNo windowsz num : Nat}
    (hbpg : 0 < fs.sbi.sBlocksPerGroup) (hwf : fs.rsv.Wf) (hask : fs.AsksWindow ino useRsv num)
    (hfuel : 2 * fs.sbi.sBlocksPerGroup + 8 ≤ fuel) :
    ∃ fs' result, searchFrom ops env ino fuel fs goal groupNo useRsv windowsz num =
      .done (fs', result) ∧ fs'.rsv.Wf := by
  unfold searchFrom
  split
  · exact ⟨_, _, rfl, hwf⟩
  rename_i gdp hdesc
  split
  · exact searchGroups_returns ops env ino _ hbpg hwf hask hfuel
  split
  · exact ⟨_, _, rfl, hwf⟩
  have hgoal : (((goal - fs.sbi.sEs.sFirstDataBlock.toNat) % fs.sbi.sBlocksPerGroup : Nat) :
      Int) < fs.sbi.sBlocksPerGroup := by
    exact_mod_cast Nat.mod_lt _ hbpg
  obtain ⟨fs1, found, num1, htry, hwf1, hkeep⟩ := tryGroup_done ops ino groupNo hbpg hwf hask
    hgoal hfuel
  dsimp only
  rw [htry]
  cases found with
  | some first => exact ⟨_, _, rfl, hwf1⟩
  | none =>
    rcases tryGroup_spec ops ino fuel (Fs.groupDesc_some hdesc).1 hgoal htry with
      ⟨-, hsame, -⟩ | ⟨first, hf, -⟩
    · have hsbi : fs1.sbi = fs.sbi := by rw [hsame]
      exact searchGroups_returns ops env ino _ (by rwa [hsbi]) hwf1 (hkeep rfl) (by rwa [hsbi])
    · cases hf

/-! ## Full groups -/

/-- An attempt without a window and without a goal fails only on a full group. -/
theorem tryGroup_missed {group num num' : Nat}
    (h : tryGroup ops ino fuel fs false group (-1) num = .done (fs', none, num')) :
    fs.GroupFull group := by
  intro i hi
  by_contra hclear
  obtain ⟨bm', first, num1, hfound⟩ := krTryToAllocate_any group num hi
    (show fs.blockBitmap group i = false by simpa using hclear)
  simp [tryGroup, hfound, Exec.bind] at h

/-- What is known of a search in the state `fs` that ended. -/
structure SearchMissed (fs : Fs) (useRsv : Bool) (visited : Nat → Prop) (result : GroupSearch) :
    Prop where
  no_error : result ≠ .ioError
  full : ∀ num, result = .missed num → useRsv = false → ∀ g, visited g → fs.GroupFull g

/-- The groups that the loop visits in `n` rounds. -/
def visitedGroups (fs : Fs) (groupNo n g : Nat) : Prop :=
  ∃ k < n, g = (groupNo + 1 + k) % fs.sbi.sGroupsCount

/-- Every group is visited in as many rounds as there are groups. -/
theorem visitedGroups_all {groupNo g : Nat} (hno : groupNo < fs.sbi.sGroupsCount)
    (hg : g < fs.sbi.sGroupsCount) : visitedGroups fs groupNo fs.sbi.sGroupsCount g := by
  refine ⟨(g + fs.sbi.sGroupsCount - groupNo - 1) % fs.sbi.sGroupsCount, Nat.mod_lt _ (by omega), ?_⟩
  rw [Nat.add_mod_mod, show groupNo + 1 + (g + fs.sbi.sGroupsCount - groupNo - 1) =
    g + fs.sbi.sGroupsCount by omega, Nat.add_mod_right, Nat.mod_eq_of_lt hg]

/-- The group that follows in the order of the loop, which wraps around. -/
theorem roundGroup {groupNo count : Nat} (hno : groupNo < count) :
    ∃ group, group = (if count ≤ groupNo + 1 then 0 else groupNo + 1) ∧
      group = (groupNo + 1) % count ∧ group < count := by
  refine ⟨_, rfl, ?_, ?_⟩
  · split
    · rw [show groupNo + 1 = count by omega, Nat.mod_self]
    · rw [Nat.mod_eq_of_lt (by omega)]
  · split <;> omega

theorem searchGroups_missed (h : fs.Counted) (hread : ∀ g, env.readBitmap g = true)
    {useRsv : Bool} {windowsz : Nat} {result : GroupSearch} (n : Nat) :
    ∀ {fs1 : Fs} {groupNo num : Nat}, SameButRsv fs fs1 → groupNo < fs.sbi.sGroupsCount →
    searchGroups ops env ino fuel useRsv windowsz n fs1 groupNo num = .done (fs', result) →
    SearchMissed fs useRsv (visitedGroups fs groupNo n) result := by
  induction n with
  | zero =>
    intro fs1 groupNo num _ _ hrun
    simp only [searchGroups, Exec.done.injEq, Prod.mk.injEq] at hrun
    obtain ⟨-, rfl⟩ := hrun
    refine ⟨by simp, ?_⟩
    rintro num' - - g ⟨k, hk, -⟩
    omega
  | succ n ih =>
    intro fs1 groupNo num hsame hno hrun
    have hsbi : fs1.sbi = fs.sbi := by rw [hsame]
    have hdesc : fs1.desc = fs.desc := by rw [hsame]
    -- the group of this round, and what is left when it gives nothing
    obtain ⟨group, hgroup, hmod, hlt⟩ := roundGroup hno
    rw [← hsbi] at hgroup
    have further : ∀ {fs2 : Fs} {num2 : Nat}, SameButRsv fs fs2 →
        (useRsv = false → fs.GroupFull group) →
        searchGroups ops env ino fuel useRsv windowsz n fs2 group num2 = .done (fs', result) →
        SearchMissed fs useRsv (visitedGroups fs groupNo (n + 1)) result := by
      intro fs2 num2 hsame2 hfull hrest
      have hmissed := ih hsame2 hlt hrest
      refine ⟨hmissed.no_error, ?_⟩
      rintro num' hnum huse g ⟨k, hk, rfl⟩
      rcases Nat.eq_zero_or_pos k with rfl | hpos
      · rw [Nat.add_zero, ← hmod]
        exact hfull huse
      · refine hmissed.full num' hnum huse _ ⟨k - 1, by omega, ?_⟩
        rw [hmod, show (groupNo + 1) % fs.sbi.sGroupsCount + 1 + (k - 1) =
          (groupNo + 1) % fs.sbi.sGroupsCount + k by omega, Nat.mod_add_mod]
    have hgdp : fs1.groupDesc group = some (fs.desc group) := by
      simp [Fs.groupDesc, hsbi, hdesc, hlt]
    simp only [searchGroups, ← hgroup, hgdp, hread, Bool.not_true, Bool.false_eq_true,
      if_false] at hrun
    split at hrun
    · rename_i hzero
      exact further hsame (fun _ => (h.full_iff hlt).mpr hzero) hrun
    split at hrun
    · rename_i hskip
      exact further hsame (fun huse => by simp [huse] at hskip) hrun
    have hgoal : (-1 : Int) < fs1.sbi.sBlocksPerGroup := by omega
    cases htry : tryGroup ops ino fuel fs1 useRsv group (-1) num with
    | bug => simp [htry, Exec.bind] at hrun
    | running => simp [htry, Exec.bind] at hrun
    | done res =>
      obtain ⟨fs2, found, num2⟩ := res
      simp only [htry, Exec.bind] at hrun
      rcases tryGroup_spec ops ino fuel (hsbi ▸ hlt) hgoal htry with
        ⟨rfl, hsame2, -⟩ | ⟨first, rfl, -⟩
      · refine further (hsame.trans hsame2) (fun huse => ?_) hrun
        have hfull : fs1.GroupFull group := tryGroup_missed ops ino (huse ▸ htry)
        rwa [hsame] at hfull
      · simp only [Exec.done.injEq, Prod.mk.injEq] at hrun
        obtain ⟨-, rfl⟩ := hrun
        exact ⟨by simp, by simp⟩

/-- From the goal group on through all groups. -/
theorem searchFrom_missed (h : fs.Counted) (hread : ∀ g, env.readBitmap g = true) {useRsv : Bool}
    {goal groupNo windowsz num : Nat} {result : GroupSearch} (hno : groupNo < fs.sbi.sGroupsCount)
    (hrun : searchFrom ops env ino fuel fs goal groupNo useRsv windowsz num = .done (fs', result)) :
    SearchMissed fs useRsv (· < fs.sbi.sGroupsCount) result := by
  have loop : ∀ {fs1 : Fs} {num1 : Nat}, SameButRsv fs fs1 →
      searchGroups ops env ino fuel useRsv windowsz fs1.sbi.sGroupsCount fs1 groupNo num1 =
        .done (fs', result) → SearchMissed fs useRsv (· < fs.sbi.sGroupsCount) result := by
    intro fs1 num1 hsame hloop
    have hsbi : fs1.sbi = fs.sbi := by rw [hsame]
    have hmissed := searchGroups_missed ops env ino h hread _ hsame hno hloop
    exact ⟨hmissed.no_error, fun num' hnum huse g hg =>
      hmissed.full num' hnum huse g (hsbi ▸ visitedGroups_all hno hg)⟩
  have hdesc : fs.groupDesc groupNo = some (fs.desc groupNo) := by
    simp [Fs.groupDesc, hno]
  simp only [searchFrom, hdesc, hread, Bool.not_true, Bool.false_eq_true, if_false] at hrun
  split at hrun
  · exact @loop fs _ rfl hrun
  have hgoal : (((goal - fs.sbi.sEs.sFirstDataBlock.toNat) % fs.sbi.sBlocksPerGroup : Nat) :
      Int) < fs.sbi.sBlocksPerGroup := by
    exact_mod_cast Nat.mod_lt _ h.bpg_pos
  cases htry : tryGroup ops ino fuel fs useRsv groupNo
      ((goal - fs.sbi.sEs.sFirstDataBlock.toNat) % fs.sbi.sBlocksPerGroup : Nat) num with
  | bug => simp only [htry, Exec.bind, reduceCtorEq] at hrun
  | running => simp only [htry, Exec.bind, reduceCtorEq] at hrun
  | done res =>
    obtain ⟨fs1, found, num1⟩ := res
    simp only [htry, Exec.bind] at hrun
    rcases tryGroup_spec ops ino fuel hno hgoal htry with ⟨rfl, hsame, -⟩ | ⟨first, rfl, -⟩
    · exact loop hsame hrun
    · simp only [Exec.done.injEq, Prod.mk.injEq] at hrun
      obtain ⟨-, rfl⟩ := hrun
      exact ⟨by simp, by simp⟩

/-- The outcome of a loop at `retry_alloc` that returned. -/
def RetryDone (fs : Fs) : Except (Errno × Bool) (Nat × Nat × Nat) → Prop
  | .error e => e = (.enospc, false) ∧ ∀ g < fs.sbi.sGroupsCount, fs.GroupFull g
  | .ok _ => True

/-- The loop at `retry_alloc` takes two rounds at most, and the last one is
without reservations. -/
theorem retryAlloc_done (hread : ∀ g, env.readBitmap g = true) {goal goalGroup rounds : Nat}
    {groupNo windowsz num : Nat} {useRsv : Bool} (h : fs.Counted)
    (hno : groupNo < fs.sbi.sGroupsCount) (hgoalGroup : goalGroup < fs.sbi.sGroupsCount)
    (hask : fs.AsksWindow ino useRsv num) (hfuel : 2 * fs.sbi.sBlocksPerGroup + 8 ≤ fuel)
    (hrounds : (if useRsv then 2 else 1) ≤ rounds) :
    ∃ fs' result, retryAlloc ops env ino fuel goal goalGroup rounds fs groupNo useRsv windowsz num =
      .done (fs', result) ∧ RetryDone fs result := by
  induction rounds generalizing fs groupNo windowsz num useRsv with
  | zero =>
    split at hrounds
    · omega
    · omega
  | succ rounds ih =>
    unfold retryAlloc
    dsimp only
    set keep := keepRsv ino fs groupNo useRsv windowsz with hkeep
    have hkeepUse : keep = true → useRsv = true := by
      intro hk
      rw [hkeep, keepRsv, Bool.and_eq_true] at hk
      exact hk.1
    obtain ⟨fs1, found, hsearch, hwf⟩ : ∃ fs' result, searchFrom ops env ino fuel fs goal groupNo
        keep windowsz num = .done (fs', result) ∧ fs'.rsv.Wf :=
      searchFrom_returns ops env ino h.bpg_pos h.windows (fun hk => hask (hkeepUse hk)) hfuel
    have hmissed := searchFrom_missed ops env ino h hread hno hsearch
    have hok := searchFrom_spec ops env ino fuel h.bpg_pos hsearch
    rw [hsearch]
    cases found with
    | ioError => exact absurd rfl hmissed.no_error
    | found group first num' =>
      have hclaim : Claimed fs fs1 group first num' num := hok
      have hsbi : fs1.sbi = fs.sbi := by rw [hclaim.state]
      have hdesc : fs1.desc = fs.desc := by rw [hclaim.state]
      obtain ⟨hzone, hcount⟩ := h.run_ok hclaim.group_lt hclaim.run.pos hclaim.run.inside
        hclaim.run.clear
      have hpos := hclaim.run.pos
      rw [Nat.add_comm, ← hsbi, ← hdesc] at hzone
      rw [Nat.add_comm, ← hsbi] at hcount
      simp only [Exec.bind, hzone, Bool.false_eq_true, if_false]
      rw [if_neg (by omega)]
      exact ⟨_, _, rfl, trivial⟩
    | missed num' =>
      have hsame : SameButRsv fs fs1 := hok.1
      simp only [Exec.bind]
      by_cases hk : keep = true
      · rw [if_pos hk]
        have hsbi : fs1.sbi = fs.sbi := by rw [hsame]
        have hbm : fs1.blockBitmap = fs.blockBitmap := by rw [hsame]
        rw [if_pos (hkeepUse hk)] at hrounds
        have hgroup1 : goalGroup < fs1.sbi.sGroupsCount := by
          rw [hsbi]
          exact hgoalGroup
        have hfuel1 : 2 * fs1.sbi.sBlocksPerGroup + 8 ≤ fuel := by
          rw [hsbi]
          exact hfuel
        obtain ⟨fs', result, hrun, hres⟩ : ∃ fs' result, retryAlloc ops env ino fuel goal goalGroup
            rounds fs1 goalGroup false 0 num' = .done (fs', result) ∧ RetryDone fs1 result :=
          ih (hsame.counted hwf h) hgroup1 hgroup1 (fun huse => by simp at huse) hfuel1
            (by simp; omega)
        refine ⟨fs', result, hrun, ?_⟩
        cases result with
        | ok val => trivial
        | error e =>
          refine ⟨hres.1, fun g hg => ?_⟩
          have := hres.2 g (by rw [hsbi]; exact hg)
          rwa [Fs.GroupFull, hsbi, hbm] at this
      · rw [if_neg hk]
        exact ⟨_, _, rfl, rfl, hmissed.full num' rfl (by simpa using hk)⟩

/-- What a caller of `kr_new_blocks` gets: a run of `n` blocks that were free and
are no metadata, inside one group and the image, with every account changed by
exactly this run. -/
structure Fs.GotRun (fs fs' : Fs) (ino block n count : Nat) : Prop where
  pos : 1 ≤ n
  le : n ≤ count
  in_image : fs.sbi.sEs.sFirstDataBlock.toNat ≤ block ∧
    block + n ≤ fs.sbi.sEs.sBlocksCount.toNat
  no_system : ∀ b, block ≤ b → b < block + n → ∀ g < fs.sbi.sGroupsCount,
    ¬ SystemBlock fs.sbi (fs.desc g) b
  in_group : ∃ group first, group < fs.sbi.sGroupsCount ∧
    block = fs.sbi.groupFirstBlockNo group + first ∧ first + n ≤ fs.sbi.sBlocksPerGroup ∧
    (∀ i, first ≤ i → i < first + n → fs.blockBitmap group i = false) ∧
    fs'.blockBitmap = Function.update fs.blockBitmap group
      (setBits (fs.blockBitmap group) first n) ∧
    (fs'.desc group).bgFreeBlocksCount.toNat + n = (fs.desc group).bgFreeBlocksCount.toNat ∧
    ∀ g, g ≠ group → fs'.desc g = fs.desc g
  counter : fs'.sFreeblocksCounter = fs.sFreeblocksCounter - n
  charged : (fs'.inode ino).iBlocks = (fs.inode ino).iBlocks + n * fs.sectorsPerBlock
  others : ∀ i, i ≠ ino → fs'.inode i = fs.inode i

theorem Fs.Counted.gotRun {k : MountEnv} {es : SuperBlock}
    (accepted : krFillSuper k es = .ok fs.sbi) (hasRead : fs.DescsAsRead) (h : fs.Counted)
    {block n count : Nat} (heffect : NewBlocksEffect fs fs' ino count (.ok (block, n))) :
    fs.GotRun fs' ino block n count := by
  obtain ⟨group, first, rfl, hgroup, hpos, hle, hinside, hclear, heq⟩ := heffect
  have hrun := h.run_ok hgroup hpos hinside hclear
  have hsystem : ∀ b, fs.sbi.groupFirstBlockNo group + first ≤ b →
      b < fs.sbi.groupFirstBlockNo group + first + n → ∀ g < fs.sbi.sGroupsCount,
      ¬ SystemBlock fs.sbi (fs.desc g) b := by
    intro b h1 h2 g hg hs
    -- the metadata of a group lies in the group, so it is this one
    have hin : fs.sbi.InGroup b group := ⟨hgroup, by omega, by omega⟩
    have hsame := inGroup_unique (systemBlock_inGroup accepted hasRead hg hs) hin
    subst hsame
    have hset := h.system g hg (b - fs.sbi.groupFirstBlockNo g) (by omega)
      (by rwa [Nat.add_sub_cancel' (by omega)])
    rw [hclear _ (by omega) (by omega)] at hset
    cases hset
  have hfree : n ≤ (fs.desc group).bgFreeBlocksCount.toNat := by
    have htaken : clearCount (setBits (fs.blockBitmap group) first n) fs.sbi.sBlocksPerGroup + n =
        clearCount (fs.blockBitmap group) fs.sbi.sBlocksPerGroup :=
      clearCount_setBits hinside hclear
    rw [h.freeCount group hgroup]
    omega
  have hlt := (fs.desc group).bgFreeBlocksCount.toNat_lt
  have hadjust := groupAdjustBlocks_toNat (fs.desc group) (-n) (by omega) (by omega)
  rw [heq]
  refine ⟨hpos, hle, ⟨?_, hrun.2⟩, hsystem, ⟨group, first, hgroup, rfl, hinside, hclear, rfl, ?_,
    fun g hg => ?_⟩, rfl, ?_, fun i hi => ?_⟩
  · unfold SbInfo.groupFirstBlockNo
    omega
  · simp only [Fs.takeRun, Function.update_self]
    omega
  · simp [Fs.takeRun, hg]
  · simp [Fs.takeRun, Fs.chargeBlocks, Inode.addSectors]
  · simp [Fs.takeRun, Fs.chargeBlocks, hi]

theorem Fs.Counted.chargeBlocks (h : fs.Counted) (n : Int) : (fs.chargeBlocks ino n).Counted :=
  ⟨⟨h.bpg_pos, h.system, h.padding⟩, h.freeCount, h.windows⟩

/-- A goal inside the image lies in one of the groups. -/
theorem goalGroup_lt {k : MountEnv} {es : SuperBlock} (accepted : krFillSuper k es = .ok fs.sbi)
    (goal : Nat) : fs.sbi.goalGroup goal < fs.sbi.sGroupsCount := by
  unfold SbInfo.goalGroup SbInfo.goalBlock
  have hpos : 0 < fs.sbi.sGroupsCount := by
    rw [groupsCount_of_krFillSuper accepted]
    exact Nat.succ_pos _
  by_cases hout : (goal < fs.sbi.sEs.sFirstDataBlock.toNat ||
      fs.sbi.sEs.sBlocksCount.toNat ≤ goal) = true
  · rw [if_pos hout, Nat.sub_self, Nat.zero_div]
    exact hpos
  · rw [if_neg hout]
    simp only [Bool.or_eq_true, decide_eq_true_eq, not_or, not_lt, not_le] at hout
    have hcover := groups_cover accepted
    refine Nat.div_lt_of_lt_mul ?_
    rw [Nat.mul_comm]
    omega

/-- What ends a call that hands out nothing. -/
def NewBlocksDone (fs : Fs) (env : AllocEnv) : Except Errno (Nat × Nat) → Prop
  | .error e => e = .enospc ∧
      (krHasFreeBlocks fs.sbi env = false ∨ ∀ g < fs.sbi.sGroupsCount, fs.GroupFull g)
  | .ok _ => True

theorem newBlocks_done {k : MountEnv} {es : SuperBlock}
    (accepted : krFillSuper k es = .ok fs.sbi) (h : fs.Counted) (hquota : env.quota = none)
    (hread : ∀ g, env.readBitmap g = true) (goal : Nat) {count : Nat} (hcount : 1 ≤ count)
    (hfuel : 2 * fs.sbi.sBlocksPerGroup + 8 ≤ fuel) :
    ∃ fs' result, krNewBlocks ops env ino fuel fs goal count = .done (fs', result) ∧
      NewBlocksDone fs env result := by
  have hsbi : (fs.chargeBlocks ino count).sbi = fs.sbi := rfl
  simp only [krNewBlocks, hquota, hsbi]
  by_cases hhas : krHasFreeBlocks fs.sbi env = true
  · have hgroup := goalGroup_lt accepted goal
    have hcharged : (fs.chargeBlocks ino count).Counted := h.chargeBlocks ino count
    have hrounds : ∀ useRsv : Bool, (if useRsv then 2 else 1) ≤ fuel := by
      intro useRsv
      split <;> omega
    simp only [hhas, Bool.not_true, Bool.false_eq_true, if_false]
    generalize hretry : retryAlloc ops env ino fuel _ _ fuel _ _ _ _ count = run
    obtain ⟨fs1, outcome, rfl, hres⟩ : ∃ fs1 outcome, run = .done (fs1, outcome) ∧
        RetryDone (fs.chargeBlocks ino count) outcome := by
      rw [← hretry]
      exact retryAlloc_done ops env ino hread hcharged hgroup hgroup (fun _ => .inl hcount) hfuel
        (hrounds _)
    cases outcome with
    | error err =>
      obtain ⟨rfl, hfull⟩ := hres
      exact ⟨_, _, rfl, rfl, .inr hfull⟩
    | ok val => exact ⟨_, _, rfl, trivial⟩
  · have hrefused : krHasFreeBlocks fs.sbi env = false := by simpa using hhas
    simp only [hrefused, Bool.not_false, if_true]
    exact ⟨_, _, rfl, rfl, .inl hrefused⟩

/-- With quota granted, readable bitmaps and no other caller, `kr_new_blocks`
returns; it fails, with `-ENOSPC`, exactly when `kr_has_free_blocks` refuses or no
group has a clear bit, and hands out a run otherwise. -/
theorem krNewBlocks_total {k : MountEnv} {es : SuperBlock}
    (accepted : krFillSuper k es = .ok fs.sbi) (hasRead : fs.DescsAsRead) (h : fs.Counted)
    (hquota : env.quota = none) (hread : ∀ g, env.readBitmap g = true) (goal : Nat) {count : Nat}
    (hcount : 1 ≤ count) (hfuel : 2 * fs.sbi.sBlocksPerGroup + 8 ≤ fuel) :
    ∃ fs' result, krNewBlocks ops env ino fuel fs goal count = .done (fs', result) ∧
      (result = .error .enospc ↔ krHasFreeBlocks fs.sbi env = false ∨
        ∀ g < fs.sbi.sGroupsCount, fs.GroupFull g) ∧
      (∀ e, result = .error e → e = .enospc ∧ SameButRsv fs fs') ∧
      ∀ block n, result = .ok (block, n) → fs.GotRun fs' ino block n count := by
  obtain ⟨fs', result, hrun, hdone⟩ :=
    newBlocks_done ops env ino accepted h hquota hread goal hcount hfuel
  have heffect := krNewBlocks_effect ops env ino fuel h.toSystemSet hcount hrun
  refine ⟨fs', result, hrun, ?_, ?_, ?_⟩
  · cases result with
    | error e =>
      obtain ⟨rfl, hwhy⟩ := hdone
      simp [hwhy]
    | ok val =>
      obtain ⟨block, n⟩ := val
      obtain ⟨group, first, -, hgroup, hpos, -, hinside, hclear, -⟩ := heffect
      have hhas : krHasFreeBlocks fs.sbi env = true :=
        krNewBlocks_hasFreeBlocks ops env ino fuel hrun
      refine ⟨fun herror => (nomatch herror), fun hwhy => ?_⟩
      rcases hwhy with hrefused | hfull
      · rw [hhas] at hrefused
        cases hrefused
      · have hset := hfull group hgroup first (by omega)
        rw [hclear first (le_refl first) (by omega)] at hset
        cases hset
  · rintro e rfl
    exact ⟨hdone.1, heffect⟩
  · rintro block n rfl
    exact h.gotRun ino accepted hasRead heffect

end Search

theorem reserveFs_descsAsRead : reserveFs.DescsAsRead := by
  intro g hg
  have hzero : g = 0 := Nat.lt_one_iff.mp hg
  subst hzero
  exact ⟨_, rfl, rfl, rfl, rfl⟩

theorem reserveFs_counted : reserveFs.Counted := by
  have hempty : inorder reserveFs.rsv.root = [.head] := rfl
  have hwin : ∀ k, reserveFs.rsv.win k = ⟨0, 0, 0, 0⟩ := fun _ => rfl
  refine ⟨reserveFs_systemSet, fun g hg => ?_, ?_⟩
  · have hzero : g = 0 := Nat.lt_one_iff.mp hg
    subst hzero
    decide +kernel
  · rw [Rsv.Wf, hempty]
    refine ⟨by simp, by simp [hwin], rfl, ⟨rfl, rfl⟩, fun ino => ?_⟩
    simp [hwin]

/-- A request with a goal past the end of the image. -/
theorem krNewBlocks_total_past_end : ∃ fs' block n,
    krNewBlocks Rebalance.plain reserveEnv 12 40 reserveFs 1000 4 = .done (fs', .ok (block, n)) ∧
      reserveFs.GotRun fs' 12 block n 4 := by
  obtain ⟨fs', result, hrun, hfails, herror, hgot⟩ := krNewBlocks_total Rebalance.plain reserveEnv 12
    krFillSuper_reserveImage reserveFs_descsAsRead reserveFs_counted rfl (fun _ => rfl) 1000
    (by decide : 1 ≤ 4) (by decide : 2 * reserveFs.sbi.sBlocksPerGroup + 8 ≤ 40)
  cases result with
  | ok val => exact ⟨fs', val.1, val.2, hrun, hgot _ _ rfl⟩
  | error e =>
    obtain ⟨rfl, -⟩ := herror e rfl
    rcases hfails.mp rfl with hrefused | hfull
    · have hhas : krHasFreeBlocks reserveFs.sbi reserveEnv = true := by decide
      rw [hhas] at hrefused
      cases hrefused
    · exact absurd (hfull 0 (by decide) 6 (by decide)) (by decide)

/-! ## Calls whose quota or reads fail -/

section Returns

variable (ops : Rebalance Window) (env : AllocEnv) (ino : Nat) {fuel : Nat} {fs fs' : Fs}

theorem Claimed.freeBlocks {group first num count : Nat} (h : Claimed fs fs' group first num count) :
    fs'.freeBlocks + num = fs.freeBlocks := by
  rw [← freeBlocks_takeRun fs'.rsv 0 h.group_lt h.run.inside h.run.clear, h.state]
  simp only [Fs.freeBlocks, Fs.takeRun, h.run.bits]
  rfl

/-- Every round of the loop at `retry_alloc` but the last gives up the
reservation or leaves fewer bits clear. -/
theorem retryAlloc_returns {goal goalGroup : Nat} (rounds : Nat) :
    ∀ {fs : Fs} {groupNo windowsz num : Nat} {useRsv : Bool}, 0 < fs.sbi.sBlocksPerGroup →
    fs.rsv.Wf → fs.AsksWindow ino useRsv num → 2 * fs.sbi.sBlocksPerGroup + 8 ≤ fuel →
    fs.freeBlocks + (if useRsv then 2 else 1) ≤ rounds →
    ∃ fs' result, retryAlloc ops env ino fuel goal goalGroup rounds fs groupNo useRsv windowsz num =
      .done (fs', result) ∧ fs'.rsv.Wf := by
  induction rounds with
  | zero =>
    intro fs groupNo windowsz num useRsv _ _ _ _ hrounds
    split at hrounds <;> omega
  | succ rounds ih =>
    intro fs groupNo windowsz num useRsv hbpg hwf hask hfuel hrounds
    unfold retryAlloc
    dsimp only
    obtain ⟨keep, hkeep⟩ : ∃ keep, keep = keepRsv ino fs groupNo useRsv windowsz := ⟨_, rfl⟩
    have hkeepUse : keep = true → useRsv = true := by
      intro hk
      rw [hkeep, keepRsv, Bool.and_eq_true] at hk
      exact hk.1
    rw [← hkeep]
    obtain ⟨fs1, found, hsearch, hwf1⟩ : ∃ fs' result, searchFrom ops env ino fuel fs goal groupNo
        keep windowsz num = .done (fs', result) ∧ fs'.rsv.Wf :=
      searchFrom_returns ops env ino hbpg hwf (fun hk => hask (hkeepUse hk)) hfuel
    have hok := searchFrom_spec ops env ino fuel hbpg hsearch
    have hsbi : fs1.sbi = fs.sbi := by
      cases found with
      | ioError => rw [show SameButRsv fs fs1 from hok]
      | missed num' => rw [show SameButRsv fs fs1 from hok.1]
      | found group first num' => rw [Claimed.state hok]
    rw [hsearch]
    cases found with
    | ioError => exact ⟨_, _, rfl, hwf1⟩
    | missed num' =>
      simp only [Exec.bind]
      by_cases hk : keep = true
      · rw [if_pos hk]
        rw [if_pos (hkeepUse hk)] at hrounds
        have hfree : fs1.freeBlocks = fs.freeBlocks := by
          rw [show fs1 = { fs with rsv := fs1.rsv } from hok.1]
          rfl
        exact ih (by rwa [hsbi]) hwf1 (fun huse => by simp at huse) (by rwa [hsbi])
          (by simp; omega)
      · rw [if_neg hk]
        exact ⟨_, _, rfl, hwf1⟩
    | found group first num' =>
      have hclaim : Claimed fs fs1 group first num' num := hok
      have hless := hclaim.freeBlocks
      have hpos := hclaim.run.pos
      simp only [Exec.bind]
      split
      · refine ih (by rwa [hsbi]) hwf1 (fun _ => .inl hpos) (by rwa [hsbi]) ?_
        split
        · rename_i hk
          rw [if_pos (hkeepUse hk)] at hrounds
          omega
        · split at hrounds <;> omega
      split
      · exact ⟨_, _, rfl, hwf1⟩
      · exact ⟨_, _, rfl, hwf1⟩

theorem freeBlocks_le (fs : Fs) :
    fs.freeBlocks ≤ fs.sbi.sGroupsCount * fs.sbi.sBlocksPerGroup := by
  unfold Fs.freeBlocks
  calc ∑ g ∈ Finset.range fs.sbi.sGroupsCount, clearCount (fs.blockBitmap g) fs.sbi.sBlocksPerGroup
      ≤ ∑ _g ∈ Finset.range fs.sbi.sGroupsCount, fs.sbi.sBlocksPerGroup :=
        Finset.sum_le_sum fun g _ => clearCount_le _ _
    _ = fs.sbi.sGroupsCount * fs.sbi.sBlocksPerGroup := by simp

/-- Fuel that is enough for every call on the image. -/
def SbInfo.allocFuel (sbi : SbInfo) : Nat :=
  (sbi.sGroupsCount + 2) * sbi.sBlocksPerGroup + 8

/-- `kr_new_blocks` returns in any state with its windows in order, whatever the
quota and the reads of the bitmaps give. -/
theorem krNewBlocks_returns (hbpg : 0 < fs.sbi.sBlocksPerGroup) (hwf : fs.rsv.Wf)
    (hfuel : fs.sbi.allocFuel ≤ fuel) (goal count : Nat) :
    ∃ fs' result, krNewBlocks ops env ino fuel fs goal count = .done (fs', result) ∧ fs'.rsv.Wf := by
  have hfree := freeBlocks_le fs
  unfold SbInfo.allocFuel at hfuel
  rw [Nat.add_mul] at hfuel
  unfold krNewBlocks
  split
  · exact ⟨_, _, rfl, hwf⟩
  dsimp only
  split
  · exact ⟨_, _, rfl, hwf⟩
  generalize hretry : retryAlloc ops env ino fuel _ _ fuel _ _ _ _ count = run
  have hcharged : (fs.chargeBlocks ino count).freeBlocks = fs.freeBlocks := rfl
  obtain ⟨fs1, outcome, rfl, hwf1⟩ : ∃ fs1 outcome, run = .done (fs1, outcome) ∧ fs1.rsv.Wf := by
    rw [← hretry]
    have hrounds : ∀ useRsv : Bool,
        (fs.chargeBlocks ino count).freeBlocks + (if useRsv then 2 else 1) ≤ fuel := by
      intro useRsv
      cases useRsv with
      | true => simp; omega
      | false => simp; omega
    refine retryAlloc_returns ops env ino fuel hbpg hwf (fun huse => .inr ?_)
      (show 2 * fs.sbi.sBlocksPerGroup + 8 ≤ fuel by omega) (hrounds _)
    -- a window is used only when its goal size is not zero
    exact Fs.goalSize_pos (by simpa using huse)
  cases outcome with
  | error err =>
    refine ⟨_, _, rfl, ?_⟩
    split
    · exact hwf1
    · exact hwf1
  | ok val =>
    refine ⟨_, _, rfl, ?_⟩
    split
    · exact hwf1
    · exact hwf1

end Returns

end KrFs
