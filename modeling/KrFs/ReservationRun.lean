import KrFs.InodeTable
import KrFs.Lib.Bitmap
import KrFs.Reservation

/-!
# Interleaved block reservations

Any number of inodes allocate, extend and discard reservation windows. Each
inode runs `kr_try_to_allocate_with_rsv` under its own `truncate_mutex`, so it
has one program point of its own; every region under `s_rsv_window_lock` is one
step. Between the steps nothing is assumed about the block bitmaps, the outcome
of `spin_trylock` or the other inodes.
-/

namespace KrFs

open SearchTree Bitmap

/-- `bitmap_search_next_usable_block`; `none` is its return of -1. -/
def bitmapSearchNextUsableBlock (start : Nat) (bm : Nat → Bool) (maxblocks : Nat) : Option Nat :=
  let next := nextZero bm maxblocks start
  if maxblocks ≤ next then none else some next

theorem bitmapSearchNextUsableBlock_some {start maxblocks b : Nat} {bm : Nat → Bool}
    (h : bitmapSearchNextUsableBlock start bm maxblocks = some b) :
    start ≤ b ∧ b < maxblocks ∧ bm b = false := by
  obtain ⟨hle, hclear, -⟩ := nextZero_spec bm maxblocks start
  unfold bitmapSearchNextUsableBlock at h
  by_cases hlt : maxblocks ≤ nextZero bm maxblocks start
  · simp [hlt] at h
  · have hb : nextZero bm maxblocks start = b := by simpa [hlt] using h
    rw [← hb]
    exact ⟨(hclear (by omega)).1, by omega, (hclear (by omega)).2⟩

/-- The arguments of one call of `kr_try_to_allocate_with_rsv`. -/
structure RsvRequest where
  group : Nat
  grpGoal : Int
  count : Nat

/-- The program points of an inode between two locked regions. -/
inductive RsvPhase where
  | idle
  | loop (req : RsvRequest) (failed : Bool)
  | reserve (req : RsvRequest) (startBlock : Nat) (again : Bool)
  | inspect (req : RsvRequest)
  | giveUp
  | extend (req : RsvRequest) (size : Nat)
  | allocate (req : RsvRequest)
  | bug

/-- What a step takes from outside: the bitmap it reads, the outcome of
`spin_trylock` and the result of `kr_try_to_allocate`. -/
structure RsvAnswer where
  bitmap : Nat → Bool
  locked : Bool
  allocated : Option Nat

section Steps

variable (ops : Rebalance Window) (sbi : SbInfo)

def groupEndBlock (group : Nat) : Nat :=
  sbi.groupFirstBlockNo group + (sbi.sBlocksPerGroup - 1)

/-- The head of the `while (1)` loop of `kr_try_to_allocate_with_rsv`, up to the
next lock that is taken or to the check of the window. -/
def loopHead (r : Rsv) (me : Window) (req : RsvRequest) (failed : Bool) : Rsv × RsvPhase :=
  let w := r.win me
  let groupFirstBlock := sbi.groupFirstBlockNo req.group
  if rsvIsEmpty w || failed || !goalInMyReservation sbi w req.grpGoal req.group then
    let w := if w.rsvGoalSize < req.count then { w with rsvGoalSize := req.count } else w
    let startBlock :=
      if req.grpGoal < 0 then groupFirstBlock else req.grpGoal.toNat + groupFirstBlock
    match newReservationSize w (groupEndBlock sbi req.group) startBlock with
    | none => (r.setWin me w, .idle)
    | some w => (r.setWin me w, .reserve req startBlock false)
  else if 0 ≤ req.grpGoal then
    let curr := w.rsvEnd - (req.grpGoal.toNat + groupFirstBlock) + 1
    if curr < req.count then (r, .extend req (req.count - curr)) else (r, .allocate req)
  else (r, .allocate req)

/-- The check of the bitmap in `alloc_new_reservation` after the lock has been
released, and on success the second goal check of the caller. -/
def inspectWindow (r : Rsv) (me : Window) (req : RsvRequest) (bm : Nat → Bool) : RsvPhase :=
  let w := r.win me
  let groupFirstBlock := sbi.groupFirstBlockNo req.group
  match bitmapSearchNextUsableBlock (w.rsvStart - groupFirstBlock) bm
      (groupEndBlock sbi req.group - groupFirstBlock + 1) with
  | none => .giveUp
  | some firstFreeBlock =>
    let startBlock := firstFreeBlock + groupFirstBlock
    if w.rsvStart ≤ startBlock && startBlock ≤ w.rsvEnd then
      if !goalInMyReservation sbi w req.grpGoal req.group then
        .allocate { req with grpGoal := -1 }
      else .allocate req
    else .reserve req startBlock true

/-- The check of the window before `kr_try_to_allocate`, and what its result
does to the loop. -/
def allocateInWindow (r : Rsv) (me : Window) (req : RsvRequest) (allocated : Option Nat) :
    Rsv × RsvPhase :=
  let w := r.win me
  if groupEndBlock sbi req.group < w.rsvStart ||
      w.rsvEnd < sbi.groupFirstBlockNo req.group then (r, .bug)
  else match allocated with
    | some num => (r.setWin me { w with rsvAllocHit := w.rsvAllocHit + num }, .idle)
    | none => (r, .loop req true)

/-- One step of the inode that owns the window `me`. -/
def threadStep (r : Rsv) (me : Window) (answer : RsvAnswer) : RsvPhase → Rsv × RsvPhase
  | .idle => (r, .idle)
  | .loop req failed => loopHead sbi r me req failed
  | .reserve req startBlock again =>
    let searchHead := if again then some me else searchReserveWindow r startBlock
    match reserveLocked ops r searchHead me startBlock (groupEndBlock sbi req.group) with
    | .done (r, true) => (r, .inspect req)
    | .done (r, false) => (r, .idle)
    | _ => (r, .bug)
  | .inspect req => (r, inspectWindow sbi r me req answer.bitmap)
  | .giveUp => (rsvWindowDrop ops r me, .idle)
  | .extend req size => (tryToExtendReservation r me size answer.locked, .allocate req)
  | .allocate req => allocateInWindow sbi r me req answer.allocated
  | .bug => (r, .bug)

/-- The reservation tree, the program point of every inode, and which inodes
have a `kr_block_alloc_info`. -/
structure RsvSystem where
  rsv : Rsv
  phase : Nat → RsvPhase
  info : Nat → Bool

/-- One step of the system. The four operations on an idle inode are the ones
its mutex or its last reference protects: the first allocation of the window
node, the ioctl that sets the goal size, a discard and the eviction. -/
inductive RsvStep : RsvSystem → RsvSystem → Prop where
  | init {s : RsvSystem} (ino : Nat) (reservation : Bool) :
      s.phase ino = .idle → s.info ino = false →
      RsvStep s { s with
        rsv := s.rsv.setWin (.inode ino) (krInitWindow reservation)
        info := Function.update s.info ino true }
  | setGoal {s : RsvSystem} (ino size : Nat) :
      s.phase ino = .idle → s.info ino = true →
      RsvStep s { s with
        rsv := s.rsv.setWin (.inode ino) { s.rsv.win (.inode ino) with
          rsvGoalSize := min size KR_MAX_RESERVE_BLOCKS } }
  | request {s : RsvSystem} (ino : Nat) (req : RsvRequest) :
      s.phase ino = .idle → s.info ino = true → req.group < sbi.sGroupsCount →
      -1 ≤ req.grpGoal → req.grpGoal < sbi.sBlocksPerGroup → 1 ≤ req.count →
      RsvStep s { s with phase := Function.update s.phase ino (.loop req false) }
  | run {s : RsvSystem} (ino : Nat) (answer : RsvAnswer) :
      RsvStep s { s with
        rsv := (threadStep ops sbi s.rsv (.inode ino) answer (s.phase ino)).1
        phase := Function.update s.phase ino
          (threadStep ops sbi s.rsv (.inode ino) answer (s.phase ino)).2 }
  | discard {s : RsvSystem} (ino : Nat) :
      s.phase ino = .idle → s.info ino = true →
      RsvStep s { s with rsv := krDiscardReservation ops s.rsv ino }
  | evict {s : RsvSystem} (ino : Nat) :
      s.phase ino = .idle → s.info ino = true →
      RsvStep s { s with
        rsv := krDiscardReservation ops s.rsv ino
        info := Function.update s.info ino false }

/-- The states a mounted file system can reach. -/
inductive RsvReachable : RsvSystem → Prop where
  | mount (win : Window → ReserveWindowNode) (r : Rsv) :
      (∀ ino, (win (.inode ino)).rsvEnd = 0) → rsvInit ops win = .done r →
      RsvReachable ⟨r, fun _ => .idle, fun _ => false⟩
  | step {s s' : RsvSystem} : RsvReachable s → RsvStep ops sbi s s' → RsvReachable s'

end Steps

/-! ## The invariant -/

/-- The window shares a block with the group. -/
def MeetsGroup (sbi : SbInfo) (w : ReserveWindowNode) (group : Nat) : Prop :=
  w.rsvStart ≤ groupEndBlock sbi group ∧ sbi.groupFirstBlockNo group ≤ w.rsvEnd

/-- What an inode relies on at each program point about its own window. -/
def PhaseOk (sbi : SbInfo) (w : ReserveWindowNode) : RsvPhase → Prop
  | .idle => True
  | .loop req _ => 1 ≤ req.count
  | .reserve req _ again => 1 ≤ req.count ∧ 1 ≤ w.rsvGoalSize ∧
      (again = true → w.rsvEnd ≠ 0)
  | .inspect req => 1 ≤ req.count ∧ 1 ≤ w.rsvGoalSize ∧ w.rsvEnd ≠ 0
  | .giveUp => True
  | .extend req _ => 1 ≤ req.count ∧ w.rsvEnd ≠ 0 ∧ MeetsGroup sbi w req.group
  | .allocate req => 1 ≤ req.count ∧ w.rsvEnd ≠ 0 ∧ MeetsGroup sbi w req.group
  | .bug => False

structure RsvSystem.Inv (sbi : SbInfo) (s : RsvSystem) : Prop where
  wf : s.rsv.Wf
  phases : ∀ ino, PhaseOk sbi (s.rsv.win (.inode ino)) (s.phase ino)
  unused : ∀ ino, s.info ino = false → s.phase ino = .idle ∧ (s.rsv.win (.inode ino)).rsvEnd = 0

section Invariant

variable (ops : Rebalance Window) {sbi : SbInfo} {r : Rsv} {ino : Nat}

/-- Fields other than the bounds of a window do not matter to the order. -/
theorem Rsv.Wf.setWin {w : ReserveWindowNode} (h : r.Wf)
    (hstart : w.rsvStart = (r.win (.inode ino)).rsvStart)
    (hend : w.rsvEnd = (r.win (.inode ino)).rsvEnd) : (r.setWin (.inode ino) w).Wf := by
  have hs : ∀ k, ((r.setWin (.inode ino) w).win k).rsvStart = (r.win k).rsvStart := by
    intro k
    by_cases hk : k = .inode ino
    · simp [Rsv.setWin, hk, hstart]
    · simp [Rsv.setWin, hk]
  have he : ∀ k, ((r.setWin (.inode ino) w).win k).rsvEnd = (r.win k).rsvEnd := by
    intro k
    by_cases hk : k = .inode ino
    · simp [Rsv.setWin, hk, hend]
    · simp [Rsv.setWin, hk]
  have hroot : (r.setWin (.inode ino) w).root = r.root := rfl
  refine ⟨?_, ?_, h.head_first, ?_, ?_⟩
  · simpa [hs, he, hroot] using h.disjoint
  · simpa [hs, he, hroot] using h.start_le_end
  · simpa [hs, he] using h.head_window
  · simpa [he, hroot] using h.mem_iff

theorem goalInMyReservation_meets {w : ReserveWindowNode} {grpGoal : Int} {group : Nat}
    (hbpg : 0 < sbi.sBlocksPerGroup) (h : goalInMyReservation sbi w grpGoal group = true) :
    MeetsGroup sbi w group := by
  unfold goalInMyReservation at h
  dsimp only at h
  split at h
  · cases h
  · rename_i hout
    simp only [Bool.or_eq_true, decide_eq_true_eq, not_or, not_lt] at hout
    unfold MeetsGroup groupEndBlock
    omega

theorem newReservationSize_some {w w' : ReserveWindowNode} {groupEnd startBlock : Nat}
    (h : newReservationSize w groupEnd startBlock = some w') :
    w'.rsvStart = w.rsvStart ∧ w'.rsvEnd = w.rsvEnd ∧
      (1 ≤ w.rsvGoalSize → 1 ≤ w'.rsvGoalSize) := by
  unfold newReservationSize at h
  split at h
  · cases h; simp
  split at h
  · cases h
  split at h
  · cases h
    refine ⟨rfl, rfl, fun hpos => ?_⟩
    simp only [KR_MAX_RESERVE_BLOCKS]
    omega
  · cases h; simp

/-- The property a step of one inode has to establish. -/
def StepOk (sbi : SbInfo) (r : Rsv) (ino : Nat) (res : Rsv × RsvPhase) : Prop :=
  res.1.Wf ∧ (∀ k, k ≠ .inode ino → res.1.win k = r.win k) ∧
    PhaseOk sbi (res.1.win (.inode ino)) res.2

theorem setWin_other (r : Rsv) (me : Window) (w : ReserveWindowNode) (k : Window)
    (hk : k ≠ me) : (r.setWin me w).win k = r.win k := by
  simp [Rsv.setWin, hk]

theorem loopHead_ok (hbpg : 0 < sbi.sBlocksPerGroup) (h : r.Wf) {req : RsvRequest}
    (hcount : 1 ≤ req.count) (failed : Bool) :
    StepOk sbi r ino (loopHead sbi r (.inode ino) req failed) := by
  unfold loopHead
  dsimp only
  by_cases hnew : (rsvIsEmpty (r.win (.inode ino)) || failed ||
      !goalInMyReservation sbi (r.win (.inode ino)) req.grpGoal req.group) = true
  · rw [if_pos hnew]
    set w := if (r.win (.inode ino)).rsvGoalSize < req.count then
      { r.win (.inode ino) with rsvGoalSize := req.count } else r.win (.inode ino) with hw
    have hbounds : w.rsvStart = (r.win (.inode ino)).rsvStart ∧
        w.rsvEnd = (r.win (.inode ino)).rsvEnd ∧ 1 ≤ w.rsvGoalSize := by
      rw [hw]
      split
      · exact ⟨rfl, rfl, hcount⟩
      · exact ⟨rfl, rfl, by omega⟩
    split
    · exact ⟨h.setWin hbounds.1 hbounds.2.1, setWin_other _ _ _, trivial⟩
    · rename_i w' hsize
      obtain ⟨hs, he, hg⟩ := newReservationSize_some hsize
      refine ⟨h.setWin (hs.trans hbounds.1) (he.trans hbounds.2.1), setWin_other _ _ _, ?_⟩
      simpa [PhaseOk, Rsv.setWin] using ⟨hcount, hg hbounds.2.2⟩
  · rw [if_neg hnew]
    simp only [Bool.or_eq_true, Bool.not_eq_true', not_or, Bool.not_eq_true,
      Bool.not_eq_false] at hnew
    have hmeets := goalInMyReservation_meets hbpg hnew.2
    have hend : (r.win (.inode ino)).rsvEnd ≠ 0 := by
      simpa [rsvIsEmpty, KR_RESERVE_WINDOW_NOT_ALLOCATED] using hnew.1.1
    split
    · split
      · exact ⟨h, fun _ _ => rfl, hcount, hend, hmeets⟩
      · exact ⟨h, fun _ _ => rfl, hcount, hend, hmeets⟩
    · exact ⟨h, fun _ _ => rfl, hcount, hend, hmeets⟩

theorem inspectWindow_ok (hbpg : 0 < sbi.sBlocksPerGroup) {req : RsvRequest}
    (hp : PhaseOk sbi (r.win (.inode ino)) (.inspect req)) (bm : Nat → Bool) :
    PhaseOk sbi (r.win (.inode ino)) (inspectWindow sbi r (.inode ino) req bm) := by
  obtain ⟨hcount, hgoal, hend⟩ := hp
  unfold inspectWindow
  dsimp only
  split
  · trivial
  · rename_i b hb
    obtain ⟨-, hlt, -⟩ := bitmapSearchNextUsableBlock_some hb
    split
    · rename_i hin
      simp only [Bool.and_eq_true, decide_eq_true_eq] at hin
      have hmeets : MeetsGroup sbi (r.win (.inode ino)) req.group := by
        unfold MeetsGroup groupEndBlock at *
        omega
      split
      · exact ⟨hcount, hend, hmeets⟩
      · exact ⟨hcount, hend, hmeets⟩
    · exact ⟨hcount, hgoal, fun _ => hend⟩

/-- The locked search for a new window fails and leaves the caller without one, or
books a window from the start block on and inside the group. -/
theorem reserve_cases (h : r.Wf) {req : RsvRequest} {startBlock : Nat} {again : Bool}
    (hp : PhaseOk sbi (r.win (.inode ino)) (.reserve req startBlock again))
    (answer : RsvAnswer) :
    (∃ r', threadStep ops sbi r (.inode ino) answer (.reserve req startBlock again) = (r', .idle) ∧
      r'.Wf ∧ (r'.win (.inode ino)).rsvEnd = 0 ∧ ∀ k, k ≠ .inode ino → r'.win k = r.win k) ∨
    ∃ r' cur, threadStep ops sbi r (.inode ino) answer (.reserve req startBlock again) =
        (r', .inspect req) ∧ r'.Wf ∧ 0 < cur ∧ startBlock ≤ cur ∧
      cur ≤ groupEndBlock sbi req.group ∧
      r'.win = Function.update r.win (.inode ino) (bookedWindow (r.win (.inode ino)) cur) := by
  obtain ⟨-, hgoal, hagain⟩ := hp
  obtain ⟨node, hnode, hmem⟩ : ∃ node, (if again then some (.inode ino)
      else searchReserveWindow r startBlock) = some node ∧ node ∈ inorder r.root := by
    cases again with
    | true => exact ⟨.inode ino, rfl, (h.mem_iff ino).mpr (hagain rfl)⟩
    | false => simpa using searchReserveWindow_mem h startBlock
  obtain ⟨hwf, hend, -, hother, -⟩ := rsvWindowDrop_wf ops h ino
  simp only [threadStep, reserveLocked, hnode]
  rcases findNextReservableWindow_spec ops h hmem hgoal startBlock
      (groupEndBlock sbi req.group) with hfail | ⟨r', cur, hfound, hwf', hpos, hge, hle, hwin⟩
  · simp only [hfail, Exec.bind]
    exact Or.inl ⟨_, rfl, hwf, hend, hother⟩
  · simp only [hfound, Exec.bind]
    exact Or.inr ⟨r', cur, rfl, hwf', hpos, hge, hle, hwin⟩

theorem reserve_ok (h : r.Wf) {req : RsvRequest} {startBlock : Nat} {again : Bool}
    (hp : PhaseOk sbi (r.win (.inode ino)) (.reserve req startBlock again))
    (answer : RsvAnswer) :
    StepOk sbi r ino
      (threadStep ops sbi r (.inode ino) answer (.reserve req startBlock again)) := by
  rcases reserve_cases ops h hp answer with
    ⟨r', hstep, hwf, -, hother⟩ | ⟨r', cur, hstep, hwf, hpos, -, -, hwin⟩
  · rw [hstep]
    exact ⟨hwf, hother, trivial⟩
  · rw [hstep]
    obtain ⟨hcount, hgoal, -⟩ := hp
    refine ⟨hwf, fun k hk => by simp [hwin, hk], hcount, ?_, ?_⟩
    · simpa [hwin, bookedWindow] using hgoal
    · simp only [hwin, Function.update_self, bookedWindow]
      omega

theorem threadStep_ok (hbpg : 0 < sbi.sBlocksPerGroup) (h : r.Wf) (phase : RsvPhase)
    (hp : PhaseOk sbi (r.win (.inode ino)) phase) (answer : RsvAnswer) :
    StepOk sbi r ino (threadStep ops sbi r (.inode ino) answer phase) := by
  cases phase with
  | idle => exact ⟨h, fun _ _ => rfl, trivial⟩
  | loop req failed => exact loopHead_ok hbpg h hp failed
  | reserve req startBlock again => exact reserve_ok ops h hp answer
  | inspect req => exact ⟨h, fun _ _ => rfl, inspectWindow_ok hbpg hp answer.bitmap⟩
  | giveUp =>
    obtain ⟨hwf, -, -, hother, -⟩ := rsvWindowDrop_wf ops h ino
    exact ⟨hwf, hother, trivial⟩
  | extend req size =>
    obtain ⟨hcount, hend, hmeets⟩ := hp
    obtain ⟨hwf, w, hwin, hs, -, he⟩ := tryToExtendReservation_wf h ((h.mem_iff ino).mpr hend)
      size answer.locked
    refine ⟨hwf, fun k hk => by simp [threadStep, hwin, hk], hcount, ?_, ?_⟩
    · simp only [threadStep, hwin, Function.update_self]
      omega
    · simp only [threadStep, hwin, Function.update_self, MeetsGroup] at hmeets ⊢
      omega
  | allocate req =>
    obtain ⟨hcount, hend, hmeets⟩ := hp
    have hin : ¬ (groupEndBlock sbi req.group < (r.win (.inode ino)).rsvStart ||
        (r.win (.inode ino)).rsvEnd < sbi.groupFirstBlockNo req.group) = true := by
      simp only [Bool.or_eq_true, decide_eq_true_eq, not_or, not_lt]
      exact hmeets
    simp only [threadStep, allocateInWindow]
    rw [if_neg hin]
    cases answer.allocated with
    | some num => exact ⟨h.setWin rfl rfl, setWin_other _ _ _, trivial⟩
    | none => exact ⟨h, fun _ _ => rfl, hcount⟩
  | bug => exact hp.elim

/-- Every step of the system keeps the invariant. -/
theorem RsvStep.inv (hbpg : 0 < sbi.sBlocksPerGroup) {s s' : RsvSystem}
    (hstep : RsvStep ops sbi s s') (h : s.Inv sbi) : s'.Inv sbi := by
  -- an idle inode may change its own window in any way that keeps the tree
  have idle : ∀ (ino : Nat) (r' : Rsv) (info : Nat → Bool), s.phase ino = .idle → r'.Wf →
      (∀ k, k ≠ .inode ino → r'.win k = s.rsv.win k) →
      (∀ i, i ≠ ino → info i = s.info i) →
      (info ino = false → (r'.win (.inode ino)).rsvEnd = 0) →
      RsvSystem.Inv sbi ⟨r', s.phase, info⟩ := by
    intro ino r' info hidle hwf hother hinfo hempty
    refine ⟨hwf, fun i => ?_, fun i hi => ?_⟩
    · by_cases hi : i = ino
      · subst hi
        simp only [hidle]
        trivial
      · simp only [hother (.inode i) (by simpa using hi)]
        exact h.phases i
    · by_cases hii : i = ino
      · subst hii
        exact ⟨hidle, hempty hi⟩
      · simp only [hother (.inode i) (by simpa using hii)]
        exact h.unused i ((hinfo i hii).symm.trans hi)
  have drop := fun ino => rsvWindowDrop_wf ops h.wf ino
  cases hstep with
  | init ino reservation hidle hinfo =>
    have hend := (h.unused ino hinfo).2
    have hnot : Window.inode ino ∉ inorder s.rsv.root := fun hm => (h.wf.mem_iff ino).mp hm hend
    refine idle ino _ _ hidle ?_ (setWin_other _ _ _) (fun i hi => by simp [hi])
      (fun hi => by simp at hi)
    have herase := h.wf.erase (w := krInitWindow reservation) ino rfl
    rwa [List.erase_of_not_mem hnot] at herase
  | setGoal ino size hidle hinfo =>
    exact idle ino _ _ hidle (h.wf.setWin rfl rfl) (setWin_other _ _ _) (fun _ _ => rfl)
      (fun hi => by simp [hinfo] at hi)
  | request ino req hidle hinfo hgroup hlow hhigh hcount =>
    refine ⟨h.wf, fun i => ?_, fun i hi => ?_⟩
    · by_cases hii : i = ino
      · subst hii
        simpa [PhaseOk] using hcount
      · simpa [hii] using h.phases i
    · have hii : i ≠ ino := by
        rintro rfl
        simp [hinfo] at hi
      simpa [hii] using h.unused i hi
  | run ino answer =>
    obtain ⟨hwf, hother, hphase⟩ := threadStep_ok ops hbpg h.wf (s.phase ino) (h.phases ino) answer
    refine ⟨hwf, fun i => ?_, fun i hi => ?_⟩
    · by_cases hii : i = ino
      · subst hii
        simpa using hphase
      · simp only [hother (.inode i) (by simpa using hii), Function.update_of_ne hii]
        exact h.phases i
    · obtain ⟨hidle, hend⟩ := h.unused i hi
      by_cases hii : i = ino
      · subst hii
        simpa [hidle, threadStep] using hend
      · simp only [hother (.inode i) (by simpa using hii), Function.update_of_ne hii]
        exact ⟨hidle, hend⟩
  | discard ino hidle hinfo =>
    exact idle ino _ _ hidle (drop ino).1 (drop ino).2.2.2.1 (fun _ _ => rfl)
      (fun _ => (drop ino).2.1)
  | evict ino hidle hinfo =>
    exact idle ino _ _ hidle (drop ino).1 (drop ino).2.2.2.1 (fun i hi => by simp [hi])
      (fun _ => (drop ino).2.1)

theorem RsvReachable.inv (hbpg : 0 < sbi.sBlocksPerGroup) {s : RsvSystem}
    (hreach : RsvReachable ops sbi s) : s.Inv sbi := by
  induction hreach with
  | mount win r hempty hinit =>
    obtain ⟨r', hinit', hwf, hwin⟩ := rsvInit_wf ops win hempty
    obtain rfl : r = r' := by simpa [hinit] using hinit'
    exact ⟨hwf, fun _ => trivial, fun ino _ => ⟨rfl, by rw [hwin]; exact hempty ino⟩⟩
  | step _ hstep ih => exact hstep.inv ops hbpg ih

/-- In every state that interleaved allocations, extensions and discards can
reach, the windows in the tree are disjoint and in order from the placeholder
on, the tree holds exactly the allocated windows, and no inode has run into one
of the two `BUG()` calls. -/
theorem reservation_windows_ordered {k : MountEnv} {es : SuperBlock}
    (accepted : krFillSuper k es = .ok sbi) {s : RsvSystem}
    (hreach : RsvReachable ops sbi s) : s.rsv.Wf ∧ ∀ ino, s.phase ino ≠ .bug := by
  have inv := hreach.inv ops (blocksPerGroup_pos_of_krFillSuper accepted)
  refine ⟨inv.wf, fun ino hbug => ?_⟩
  have := inv.phases ino
  rw [hbug] at this
  exact this

end Invariant

/-- Inode 12 books a window of eight blocks at its goal while inode 13 waits for
the lock; both reach their next step without a `BUG()`. -/
theorem reservation_windows_ordered_two_inodes :
    ∃ s, RsvReachable Rebalance.plain (sbInfoOf smallEnv (smallImage 16) 1024) s ∧
      (s.rsv.win (.inode 12)).rsvStart = 40 ∧ (s.rsv.win (.inode 12)).rsvEnd = 47 ∧
      (s.rsv.win (.inode 13)).rsvStart = 48 ∧ (s.rsv.win (.inode 13)).rsvEnd = 55 ∧
      s.rsv.Wf ∧ ∀ ino, s.phase ino ≠ .bug := by
  let answer : RsvAnswer := ⟨fun _ => false, true, none⟩
  have mounted : RsvReachable Rebalance.plain (sbInfoOf smallEnv (smallImage 16) 1024)
      ⟨⟨.node .head .nil .nil, Function.update (fun _ => ⟨0, 0, 0, 0⟩) .head ⟨0, 0, 0, 0⟩⟩,
        fun _ => .idle, fun _ => false⟩ :=
    .mount (fun _ => ⟨0, 0, 0, 0⟩) _ (fun _ => rfl) rfl
  have opened := (mounted.step (.init 12 true rfl rfl)).step (.init 13 true rfl rfl)
  have asked := (opened.step (.request 12 ⟨0, 39, 2⟩ rfl rfl (by decide) (by decide) (by decide)
    (by decide))).step (.request 13 ⟨0, 39, 2⟩ rfl rfl (by decide) (by decide) (by decide)
    (by decide))
  have waiting := (asked.step (.run 13 answer)).step (.run 12 answer)
  have booked := (waiting.step (.run 12 answer)).step (.run 13 answer)
  refine ⟨_, booked, by decide +kernel, by decide +kernel, by decide +kernel,
    by decide +kernel, ?_⟩
  exact reservation_windows_ordered Rebalance.plain
    (krFillSuper_smallImage 16 (Or.inl rfl)) booked

end KrFs
