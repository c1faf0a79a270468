import KrFs.RsvGoal
import KrFs.Lib.Trace

/-!
# How far a window spans

Requests, the ioctl and the doubling keep every goal size within
`KR_MAX_RESERVE_BLOCKS`, and a window that is booked is as long as its goal size.
An extension is measured from the goal of the request while the start of the
window stays, so it alone makes a window longer than that.
-/

namespace KrFs

open SearchTree

/-- A step of `RsvStep` with what it takes from outside. -/
inductive RsvEvent where
  | init (ino : Nat) (reservation : Bool)
  | setGoal (ino size : Nat)
  | request (ino : Nat) (req : RsvRequest)
  | run (ino : Nat) (answer : RsvAnswer)
  | discard (ino : Nat)
  | evict (ino : Nat)

/-- The number of blocks of the window. -/
def ReserveWindowNode.span (w : ReserveWindowNode) : Nat := w.rsvEnd - w.rsvStart + 1

/-- The request an inode is busy with asks for so many blocks. -/
def RsvPhase.count : RsvPhase → Nat
  | .loop req _ => req.count
  | .reserve req _ _ => req.count
  | .inspect req => req.count
  | .extend req _ => req.count
  | .allocate req => req.count
  | _ => 0

section Events

variable (ops : Rebalance Window) (sbi : SbInfo)

def RsvSystem.Enabled (s : RsvSystem) : RsvEvent → Prop
  | .init ino _ => s.phase ino = .idle ∧ s.info ino = false
  | .setGoal ino _ => s.phase ino = .idle ∧ s.info ino = true
  | .request ino req => (s.phase ino = .idle ∧ s.info ino = true) ∧ req.group < sbi.sGroupsCount ∧
      -1 ≤ req.grpGoal ∧ req.grpGoal < sbi.sBlocksPerGroup ∧ 1 ≤ req.count
  | .run _ _ => True
  | .discard ino => s.phase ino = .idle ∧ s.info ino = true
  | .evict ino => s.phase ino = .idle ∧ s.info ino = true

def RsvSystem.after (s : RsvSystem) : RsvEvent → RsvSystem
  | .init ino reservation => { s with
      rsv := s.rsv.setWin (.inode ino) (krInitWindow reservation)
      info := Function.update s.info ino true }
  | .setGoal ino size => { s with
      rsv := s.rsv.setWin (.inode ino) { s.rsv.win (.inode ino) with
        rsvGoalSize := min size KR_MAX_RESERVE_BLOCKS } }
  | .request ino req => { s with phase := Function.update s.phase ino (.loop req false) }
  | .run ino answer => { s with
      rsv := (threadStep ops sbi s.rsv (.inode ino) answer (s.phase ino)).1
      phase := Function.update s.phase ino
        (threadStep ops sbi s.rsv (.inode ino) answer (s.phase ino)).2 }
  | .discard ino => { s with rsv := krDiscardReservation ops s.rsv ino }
  | .evict ino => { s with
      rsv := krDiscardReservation ops s.rsv ino
      info := Function.update s.info ino false }

/-- The events are the steps. -/
theorem rsvStep_iff {s s' : RsvSystem} :
    RsvStep ops sbi s s' ↔ ∃ e, s.Enabled sbi e ∧ s' = s.after ops sbi e := by
  constructor
  · intro h
    cases h with
    | init ino reservation hidle hinfo => exact ⟨.init ino reservation, ⟨hidle, hinfo⟩, rfl⟩
    | setGoal ino size hidle hinfo => exact ⟨.setGoal ino size, ⟨hidle, hinfo⟩, rfl⟩
    | request ino req hidle hinfo hgroup hlow hhigh hcount =>
      exact ⟨.request ino req, ⟨⟨hidle, hinfo⟩, hgroup, hlow, hhigh, hcount⟩, rfl⟩
    | run ino answer => exact ⟨.run ino answer, trivial, rfl⟩
    | discard ino hidle hinfo => exact ⟨.discard ino, ⟨hidle, hinfo⟩, rfl⟩
    | evict ino hidle hinfo => exact ⟨.evict ino, ⟨hidle, hinfo⟩, rfl⟩
  · rintro ⟨e, henabled, rfl⟩
    cases e with
    | init ino reservation => exact .init ino reservation henabled.1 henabled.2
    | setGoal ino size => exact .setGoal ino size henabled.1 henabled.2
    | request ino req =>
      obtain ⟨⟨hidle, hinfo⟩, hgroup, hlow, hhigh, hcount⟩ := henabled
      exact .request ino req hidle hinfo hgroup hlow hhigh hcount
    | run ino answer => exact .run ino answer
    | discard ino => exact .discard ino henabled.1 henabled.2
    | evict ino => exact .evict ino henabled.1 henabled.2

end Events

/-- The window is in use: it is the placeholder or belongs to an inode that has a
`kr_block_alloc_info`. -/
def RsvSystem.Live (s : RsvSystem) : Window → Prop
  | .head => True
  | .inode ino => s.info ino = true

/-- No window of the tree and no goal size exceeds the maximum. -/
structure RsvSystem.Bounded (s : RsvSystem) : Prop where
  windows : ∀ k ∈ inorder s.rsv.root, (s.rsv.win k).span ≤ KR_MAX_RESERVE_BLOCKS
  goals : ∀ k, s.Live k → (s.rsv.win k).rsvGoalSize ≤ KR_MAX_RESERVE_BLOCKS

/-- What the inodes have asked for. -/
structure RsvSystem.Asked (sbi : SbInfo) (s : RsvSystem) : Prop where
  counts : ∀ ino, (s.phase ino).count ≤ KR_MAX_RESERVE_BLOCKS
  extends_goal : ∀ ino req size, s.phase ino = .extend req size →
    (s.rsv.win (.inode ino)).rsvEnd + size + 1 =
      req.grpGoal.toNat + sbi.groupFirstBlockNo req.group + req.count

/-- A request is for at most as many blocks as the largest window has. -/
def RsvEvent.Small : RsvEvent → Prop
  | .request _ req => req.count ≤ KR_MAX_RESERVE_BLOCKS
  | _ => True

/-- Where a window is extended, the request ends within the maximum from the start of the
window, or the next window begins there. -/
def ExtendFits (sbi : SbInfo) (s : RsvSystem) : RsvEvent → Prop
  | .run ino answer =>
    match s.phase ino with
    | .extend req _ => answer.locked = true →
        req.grpGoal.toNat + sbi.groupFirstBlockNo req.group + req.count ≤
            (s.rsv.win (.inode ino)).rsvStart + KR_MAX_RESERVE_BLOCKS ∨
          ∃ n, next s.rsv.root (.inode ino) = some n ∧
            (s.rsv.win n).rsvStart ≤ (s.rsv.win (.inode ino)).rsvStart + KR_MAX_RESERVE_BLOCKS
    | _ => True
  | _ => True

/-! ## The window of one inode -/

section Window

variable (ops : Rebalance Window) {sbi : SbInfo} {r : Rsv} {ino : Nat}

theorem goalInMyReservation_goal {w : ReserveWindowNode} {grpGoal : Int} {group : Nat}
    (h : goalInMyReservation sbi w grpGoal group = true) (hgoal : 0 ≤ grpGoal) :
    grpGoal.toNat + sbi.groupFirstBlockNo group ≤ w.rsvEnd := by
  unfold goalInMyReservation at h
  dsimp only at h
  split at h
  · cases h
  split at h
  · cases h
  · rename_i hout
    simp only [hgoal, decide_true, Bool.true_and, Bool.or_eq_true, decide_eq_true_eq, not_or,
      not_lt] at hout
    omega

/-- An extension is asked for from the goal on, not from the start of the window. -/
theorem loopHead_extend {req req' : RsvRequest} {failed : Bool} {size : Nat}
    (h : (loopHead sbi r (.inode ino) req failed).2 = .extend req' size) :
    ((loopHead sbi r (.inode ino) req failed).1.win (.inode ino)).rsvEnd + size + 1 =
      req'.grpGoal.toNat + sbi.groupFirstBlockNo req'.group + req'.count := by
  unfold loopHead at h ⊢
  dsimp only at h ⊢
  split at h
  · split at h
    · cases h
    · cases h
  rename_i hmine
  split at h
  · split at h
    · rename_i hgoal hcurr
      cases h
      rw [if_neg hmine, if_pos hgoal, if_pos hcurr]
      simp only [Bool.or_eq_true, Bool.not_eq_true', not_or, Bool.not_eq_false] at hmine
      have hin := goalInMyReservation_goal hmine.2 hgoal
      dsimp only
      omega
    · cases h
  · cases h

theorem loopHead_bounds (req : RsvRequest) (failed : Bool) :
    ((loopHead sbi r (.inode ino) req failed).1.win (.inode ino)).rsvStart =
        (r.win (.inode ino)).rsvStart ∧
      ((loopHead sbi r (.inode ino) req failed).1.win (.inode ino)).rsvEnd =
        (r.win (.inode ino)).rsvEnd := by
  unfold loopHead
  dsimp only
  split
  · set w := if (r.win (.inode ino)).rsvGoalSize < req.count then
      { r.win (.inode ino) with rsvGoalSize := req.count } else r.win (.inode ino) with hw
    have hbounds : w.rsvStart = (r.win (.inode ino)).rsvStart ∧
        w.rsvEnd = (r.win (.inode ino)).rsvEnd := by
      rw [hw]
      split
      · exact ⟨rfl, rfl⟩
      · exact ⟨rfl, rfl⟩
    split
    · simpa [Rsv.setWin] using hbounds
    · rename_i w' hsize
      obtain ⟨hs, he, -⟩ := newReservationSize_some hsize
      simpa [Rsv.setWin, hs, he] using hbounds
  · split
    · split
      · exact ⟨rfl, rfl⟩
      · exact ⟨rfl, rfl⟩
    · exact ⟨rfl, rfl⟩

/-- Apart from an extension, a step drops the window, leaves its bounds or books one of the
goal size. -/
theorem threadStep_window (h : r.Wf) {phase : RsvPhase}
    (hp : PhaseOk sbi (r.win (.inode ino)) phase)
    (hphase : ∀ req size, phase ≠ .extend req size) (answer : RsvAnswer) :
    let w := (threadStep ops sbi r (.inode ino) answer phase).1.win (.inode ino)
    w.rsvEnd = 0 ∨
      (w.rsvStart = (r.win (.inode ino)).rsvStart ∧ w.rsvEnd = (r.win (.inode ino)).rsvEnd) ∨
      w.span = (r.win (.inode ino)).rsvGoalSize := by
  intro w
  cases phase with
  | idle => exact Or.inr (Or.inl ⟨rfl, rfl⟩)
  | loop req failed => exact Or.inr (Or.inl (loopHead_bounds req failed))
  | reserve req startBlock again =>
    rcases reserve_cases ops h hp answer with
      ⟨r', hstep, -, hend, -⟩ | ⟨r', cur, hstep, -, -, -, -, hwin⟩
    · left
      simpa only [w, hstep] using hend
    · right
      right
      have hsize := hp.2.1
      simp only [w, hstep, hwin, Function.update_self, ReserveWindowNode.span, bookedWindow]
      omega
  | inspect req => exact Or.inr (Or.inl ⟨rfl, rfl⟩)
  | giveUp => exact Or.inl (rsvWindowDrop_wf ops h ino).2.1
  | extend req size => exact absurd rfl (hphase req size)
  | allocate req =>
    right
    left
    simp only [w, threadStep, allocateInWindow]
    split
    · exact ⟨rfl, rfl⟩
    · split
      · simp [Rsv.setWin]
      · exact ⟨rfl, rfl⟩
  | bug => exact Or.inr (Or.inl ⟨rfl, rfl⟩)

theorem Rsv.Wf.next_start (h : r.Wf) {n : Window} (hmem : .inode ino ∈ inorder r.root)
    (hnext : next r.root (.inode ino) = some n) :
    (r.win (.inode ino)).rsvEnd < (r.win n).rsvStart := by
  obtain ⟨before, after, hl⟩ := List.append_of_mem hmem
  have hbefore : Window.inode ino ∉ before := by
    have hnd := hl ▸ h.nodup
    exact fun hm => (List.disjoint_of_nodup_append hnd) hm (by simp)
  rw [next, successors_eq hl hbefore] at hnext
  obtain ⟨-, hpost, -⟩ := List.pairwise_append.mp (hl ▸ h.disjoint)
  exact (List.pairwise_cons.mp hpost).1 n (List.mem_of_mem_head? hnext)

/-- When the window is as long as allowed after `try_to_extend_reservation`. -/
theorem tryToExtendReservation_span_iff (h : r.Wf) (hmem : .inode ino ∈ inorder r.root)
    (locked : Bool) {size stop max : Nat}
    (hstop : (r.win (.inode ino)).rsvEnd + size + 1 = stop)
    (hspan : (r.win (.inode ino)).span ≤ max) :
    ((tryToExtendReservation r (.inode ino) size locked).win (.inode ino)).span ≤ max ↔
      (locked = true → stop ≤ (r.win (.inode ino)).rsvStart + max ∨
        ∃ n, next r.root (.inode ino) = some n ∧
          (r.win n).rsvStart ≤ (r.win (.inode ino)).rsvStart + max) := by
  have hle := h.start_le_end _ hmem
  simp only [ReserveWindowNode.span] at hspan ⊢
  cases locked with
  | false =>
    simp only [tryToExtendReservation]
    constructor
    · intro _ hlocked
      cases hlocked
    · intro _
      exact hspan
  | true =>
    simp only [tryToExtendReservation, Bool.not_true, forall_const]
    rw [if_neg (by simp)]
    cases hnext : next r.root (.inode ino) with
    | none =>
      simp only [Rsv.setWin, Function.update_self]
      constructor
      · intro hbound
        exact Or.inl (by omega)
      · rintro (hfits | ⟨n, hn, -⟩)
        · omega
        · cases hn
    | some n =>
      have hgap := h.next_start hmem hnext
      simp only [Option.some.injEq, exists_eq_left']
      split
      · simp only [Rsv.setWin, Function.update_self]
        omega
      · simp only [Rsv.setWin, Function.update_self]
        omega

end Window

/-! ## The windows of all inodes -/

section System

variable (ops : Rebalance Window) {sbi : SbInfo} {s s' : RsvSystem} {ino : Nat}

/-- Where only the window of one inode changes, only that one is to be looked at. -/
theorem RsvSystem.Bounded.change_iff (h : s.Bounded) (hwf : s.rsv.Wf) (hwf' : s'.rsv.Wf)
    (hother : ∀ k, k ≠ .inode ino → s'.rsv.win k = s.rsv.win k)
    (hinfo : ∀ i, i ≠ ino → s'.info i = s.info i) :
    s'.Bounded ↔
      ((s'.rsv.win (.inode ino)).rsvEnd ≠ 0 →
        (s'.rsv.win (.inode ino)).span ≤ KR_MAX_RESERVE_BLOCKS) ∧
      (s'.info ino = true → (s'.rsv.win (.inode ino)).rsvGoalSize ≤ KR_MAX_RESERVE_BLOCKS) := by
  constructor
  · intro hb
    exact ⟨fun hend => hb.windows _ ((hwf'.mem_iff ino).mpr hend), fun hi => hb.goals _ hi⟩
  · rintro ⟨hspan, hgoal⟩
    constructor
    · intro k hk
      by_cases hki : k = .inode ino
      · subst hki
        exact hspan ((hwf'.mem_iff ino).mp hk)
      · rw [hother k hki]
        refine h.windows k ?_
        cases k with
        | head => exact hwf.head_mem
        | inode i =>
          rw [hwf.mem_iff, ← hother _ hki]
          exact (hwf'.mem_iff i).mp hk
    · intro k hk
      by_cases hki : k = .inode ino
      · subst hki
        exact hgoal hk
      · rw [hother k hki]
        refine h.goals k ?_
        cases k with
        | head => trivial
        | inode i =>
          have hi : i ≠ ino := fun hi => hki (by rw [hi])
          exact (hinfo i hi).symm.trans hk

theorem threadStep_count (hmax : (s.phase ino).count ≤ KR_MAX_RESERVE_BLOCKS) (answer : RsvAnswer) :
    (threadStep ops sbi s.rsv (.inode ino) answer (s.phase ino)).2.count ≤
      KR_MAX_RESERVE_BLOCKS := by
  cases hphase : s.phase ino with
  | idle => simp [threadStep, RsvPhase.count]
  | loop req failed =>
    rw [hphase] at hmax
    simp only [threadStep, loopHead]
    split
    · split
      · simp [RsvPhase.count]
      · exact hmax
    · split
      · split
        · exact hmax
        · exact hmax
      · exact hmax
  | reserve req startBlock again =>
    rw [hphase] at hmax
    simp only [threadStep]
    split
    · exact hmax
    · simp [RsvPhase.count]
    · simp [RsvPhase.count]
  | inspect req =>
    rw [hphase] at hmax
    simp only [threadStep, inspectWindow]
    split
    · simp [RsvPhase.count]
    · split
      · split
        · exact hmax
        · exact hmax
      · exact hmax
  | giveUp => simp [threadStep, RsvPhase.count]
  | extend req size =>
    rw [hphase] at hmax
    exact hmax
  | allocate req =>
    rw [hphase] at hmax
    simp only [threadStep, allocateInWindow]
    split
    · simp [RsvPhase.count]
    · split
      · simp [RsvPhase.count]
      · exact hmax
  | bug => simp [threadStep, RsvPhase.count]

/-- Only the head of the loop asks for an extension. -/
theorem threadStep_extend {r : Rsv} {answer : RsvAnswer} {phase : RsvPhase} {req : RsvRequest}
    {size : Nat} (h : (threadStep ops sbi r (.inode ino) answer phase).2 = .extend req size) :
    ((threadStep ops sbi r (.inode ino) answer phase).1.win (.inode ino)).rsvEnd + size + 1 =
      req.grpGoal.toNat + sbi.groupFirstBlockNo req.group + req.count := by
  cases phase with
  | idle => cases h
  | loop req' failed => exact loopHead_extend h
  | reserve req' startBlock again =>
    simp only [threadStep] at h
    split at h
    · cases h
    · cases h
    · cases h
  | inspect req' =>
    simp only [threadStep, inspectWindow] at h
    split at h
    · cases h
    · split at h
      · split at h
        · cases h
        · cases h
      · cases h
  | giveUp => cases h
  | extend req' size' => cases h
  | allocate req' =>
    simp only [threadStep, allocateInWindow] at h
    split at h
    · cases h
    · split at h
      · cases h
      · cases h
  | bug => cases h

theorem RsvSystem.Asked.after (hbpg : 0 < sbi.sBlocksPerGroup) (hinv : s.Inv sbi)
    (h : s.Asked sbi) {e : RsvEvent} (henabled : s.Enabled sbi e) (hsmall : e.Small) :
    (s.after ops sbi e).Asked sbi := by
  -- an idle inode has no extension to make
  have idle : ∀ {ino : Nat} {r' : Rsv} {info : Nat → Bool}, s.phase ino = .idle →
      (∀ k, k ≠ .inode ino → r'.win k = s.rsv.win k) →
      RsvSystem.Asked sbi ⟨r', s.phase, info⟩ := by
    intro ino r' info hidle hother
    refine ⟨h.counts, fun i req size hphase => ?_⟩
    have hi : Window.inode i ≠ .inode ino := by
      intro hi
      obtain rfl : i = ino := by simpa using hi
      rw [hidle] at hphase
      cases hphase
    simp only [hother _ hi]
    exact h.extends_goal i req size hphase
  cases e with
  | init ino reservation => exact idle henabled.1 (setWin_other _ _ _)
  | setGoal ino size => exact idle henabled.1 (setWin_other _ _ _)
  | request ino req =>
    constructor
    · intro i
      by_cases hi : i = ino
      · subst hi
        simpa [RsvSystem.after, RsvPhase.count, RsvEvent.Small] using hsmall
      · simpa [RsvSystem.after, hi] using h.counts i
    · intro i req' size hphase
      by_cases hi : i = ino
      · subst hi
        simp [RsvSystem.after] at hphase
      · simp only [RsvSystem.after, Function.update_of_ne hi] at hphase ⊢
        exact h.extends_goal i req' size hphase
  | run ino answer =>
    obtain ⟨-, hother, -⟩ :=
      threadStep_ok ops hbpg hinv.wf (s.phase ino) (hinv.phases ino) answer
    constructor
    · intro i
      by_cases hi : i = ino
      · subst hi
        simpa [RsvSystem.after] using threadStep_count ops (h.counts i) answer
      · simpa [RsvSystem.after, hi] using h.counts i
    · intro i req size hphase
      by_cases hi : i = ino
      · subst hi
        simp only [RsvSystem.after, Function.update_self] at hphase ⊢
        exact threadStep_extend ops hphase
      · simp only [RsvSystem.after, Function.update_of_ne hi] at hphase ⊢
        rw [hother (.inode i) (by simpa using hi)]
        exact h.extends_goal i req size hphase
  | discard ino => exact idle henabled.1 (rsvWindowDrop_wf ops hinv.wf ino).2.2.2.1
  | evict ino => exact idle henabled.1 (rsvWindowDrop_wf ops hinv.wf ino).2.2.2.1

/-- From a state within the bound a step leaves it just when it extends a window too far. -/
theorem RsvSystem.Bounded.after_iff (hbpg : 0 < sbi.sBlocksPerGroup) (hinv : s.Inv sbi)
    (hasked : s.Asked sbi) (h : s.Bounded) {e : RsvEvent} (henabled : s.Enabled sbi e) :
    (s.after ops sbi e).Bounded ↔ ExtendFits sbi s e := by
  have hinv' : (s.after ops sbi e).Inv sbi :=
    ((rsvStep_iff ops sbi).mpr ⟨e, henabled, rfl⟩).inv ops hbpg hinv
  have drop := fun ino => rsvWindowDrop_wf ops hinv.wf ino
  have old := fun (ino : Nat) (hend : (s.rsv.win (.inode ino)).rsvEnd ≠ 0) =>
    h.windows _ ((hinv.wf.mem_iff ino).mpr hend)
  cases e with
  | init ino reservation =>
    refine iff_of_true ((h.change_iff hinv.wf hinv'.wf (setWin_other _ _ _)
      fun i hi => Function.update_of_ne hi _ _).mpr ⟨fun hend => ?_, fun _ => ?_⟩) trivial
    · exact absurd (by simp [RsvSystem.after, Rsv.setWin, krInitWindow,
        KR_RESERVE_WINDOW_NOT_ALLOCATED]) hend
    · cases reservation with
      | true => simp [RsvSystem.after, Rsv.setWin, krInitWindow, KR_DEFAULT_RESERVE_BLOCKS,
          KR_MAX_RESERVE_BLOCKS]
      | false => simp [RsvSystem.after, Rsv.setWin, krInitWindow]
  | setGoal ino size =>
    refine iff_of_true ((h.change_iff hinv.wf hinv'.wf (setWin_other _ _ _)
      fun _ _ => rfl).mpr ⟨fun hend => ?_, fun _ => ?_⟩) trivial
    · simp only [RsvSystem.after, Rsv.setWin, Function.update_self] at hend ⊢
      exact old ino hend
    · simp [RsvSystem.after, Rsv.setWin]
  | request ino req => exact iff_of_true ⟨h.windows, h.goals⟩ trivial
  | run ino answer =>
    obtain ⟨-, hother, -⟩ :=
      threadStep_ok ops hbpg hinv.wf (s.phase ino) (hinv.phases ino) answer
    have hgoal : s.info ino = true →
        ((s.after ops sbi (.run ino answer)).rsv.win (.inode ino)).rsvGoalSize ≤
          KR_MAX_RESERVE_BLOCKS := by
      intro hinfo
      refine threadStep_goalSize_of ops (P := (· ≤ KR_MAX_RESERVE_BLOCKS))
        (fun _ _ => min_le_right _ _) ?_ (h.goals (.inode ino) hinfo) answer
      intro req failed n hphase _ _
      have := hasked.counts ino
      rwa [hphase] at this
    rw [h.change_iff hinv.wf hinv'.wf hother fun _ _ => rfl]
    refine (and_iff_left hgoal).trans ?_
    by_cases hextend : ∃ req size, s.phase ino = .extend req size
    · obtain ⟨req, size, hphase⟩ := hextend
      have hok := hinv.phases ino
      rw [hphase] at hok
      obtain ⟨-, hend, -⟩ := hok
      have hmem := (hinv.wf.mem_iff ino).mpr hend
      have hspan := tryToExtendReservation_span_iff hinv.wf hmem answer.locked
        (hasked.extends_goal ino req size hphase) (old ino hend)
      obtain ⟨-, w, hwin, -, -, hgrown⟩ :=
        tryToExtendReservation_wf hinv.wf hmem size answer.locked
      simp only [RsvSystem.after, ExtendFits, hphase, threadStep]
      rw [← hspan, hwin, Function.update_self]
      exact imp_iff_right (by omega)
    · have hfits : ExtendFits sbi s (.run ino answer) := by
        simp only [ExtendFits]
        split
        · rename_i req size hphase
          exact absurd ⟨req, size, hphase⟩ hextend
        · trivial
      refine iff_of_true (fun hend => ?_) hfits
      rcases threadStep_window ops hinv.wf (hinv.phases ino)
        (fun req size hphase => hextend ⟨req, size, hphase⟩) answer with
        hempty | ⟨hstart, hsame⟩ | hbooked
      · exact absurd hempty hend
      · have hend' : (s.rsv.win (.inode ino)).rsvEnd ≠ 0 := hsame ▸ hend
        have hspan := old ino hend'
        simp only [ReserveWindowNode.span, RsvSystem.after, hstart, hsame] at hspan ⊢
        exact hspan
      · have hlive : s.info ino = true := by
          by_contra hinfo
          obtain ⟨hidle, hnone⟩ := hinv.unused ino (by simpa using hinfo)
          exact hend (by simpa [RsvSystem.after, hidle, threadStep] using hnone)
        exact hbooked.trans_le (h.goals (.inode ino) hlive)
  | discard ino =>
    refine iff_of_true ((h.change_iff hinv.wf hinv'.wf (drop ino).2.2.2.1
      fun _ _ => rfl).mpr ⟨fun hend => absurd (drop ino).2.1 hend, fun hi => ?_⟩) trivial
    have hgoal := (drop ino).2.2.1
    exact hgoal.trans_le (h.goals (.inode ino) hi)
  | evict ino =>
    refine iff_of_true ((h.change_iff hinv.wf hinv'.wf (drop ino).2.2.2.1
      fun i hi => Function.update_of_ne hi _ _).mpr ⟨fun hend => absurd (drop ino).2.1 hend,
      fun hi => ?_⟩) trivial
    simp [RsvSystem.after] at hi

/-- The state in which a mount leaves the windows. -/
def RsvSystem.mounted (r : Rsv) : RsvSystem := ⟨r, fun _ => .idle, fun _ => false⟩

theorem RsvSystem.Bounded.mounted {win : Window → ReserveWindowNode} {r : Rsv}
    (hinit : rsvInit ops win = .done r) : (RsvSystem.mounted r).Bounded := by
  obtain rfl := Exec.done.inj (hinit.symm.trans rfl)
  constructor
  · intro k hk
    simp only [RsvSystem.mounted, ops.inorder_insertColor] at hk
    obtain rfl : k = .head := by simpa using hk
    simp [RsvSystem.mounted, ReserveWindowNode.span, KR_MAX_RESERVE_BLOCKS]
  · intro k hk
    cases k with
    | head => simp [RsvSystem.mounted]
    | inode ino => cases hk

/-- In a run of requests for at most `KR_MAX_RESERVE_BLOCKS` blocks every window and every goal
size stays within the maximum just when no extension goes too far from the start of its
window. -/
theorem windows_bounded_iff {k : MountEnv} {es : SuperBlock} (accepted : krFillSuper k es = .ok sbi)
    {win : Window → ReserveWindowNode} {r : Rsv} (hempty : ∀ ino, (win (.inode ino)).rsvEnd = 0)
    (hinit : rsvInit ops win = .done r) {events : List RsvEvent}
    (hrun : Along (RsvSystem.after ops sbi) (fun s e => s.Enabled sbi e ∧ e.Small)
      (RsvSystem.mounted r) events) :
    (∀ before rest, events = before ++ rest →
      (before.foldl (RsvSystem.after ops sbi) (RsvSystem.mounted r)).Bounded) ↔
    ∀ before e rest, events = before ++ e :: rest →
      ExtendFits sbi (before.foldl (RsvSystem.after ops sbi) (RsvSystem.mounted r)) e := by
  have hbpg := blocksPerGroup_pos_of_krFillSuper accepted
  have hstart : (RsvSystem.mounted r).Inv sbi ∧ (RsvSystem.mounted r).Asked sbi ∧
      (RsvSystem.mounted r).Bounded := by
    refine ⟨RsvReachable.inv ops hbpg (.mount win r hempty hinit), ⟨fun _ => ?_, ?_⟩,
      .mounted ops hinit⟩
    · simp [RsvSystem.mounted, RsvPhase.count]
    · intro ino req size hphase
      cases hphase
  have hcongr : Along (RsvSystem.after ops sbi) (fun s e => (s.after ops sbi e).Bounded)
      (RsvSystem.mounted r) events ↔ Along (RsvSystem.after ops sbi) (fun s e => ExtendFits sbi s e)
      (RsvSystem.mounted r) events := by
    refine Along.congr (I := fun s => s.Inv sbi ∧ s.Asked sbi ∧ s.Bounded) ?_ hstart hrun
    rintro s e ⟨hinv, hasked, hbounded⟩ ⟨henabled, hsmall⟩
    refine ⟨hbounded.after_iff ops hbpg hinv hasked henabled, fun hbounded' => ⟨?_, ?_, hbounded'⟩⟩
    · exact ((rsvStep_iff ops sbi).mpr ⟨e, henabled, rfl⟩).inv ops hbpg hinv
    · exact hasked.after ops hbpg hinv henabled hsmall
  rw [← along_iff_split (P := fun s e => ExtendFits sbi s e), ← hcongr, along_iff_split]
  constructor
  · intro h before e rest hes
    simpa using h (before ++ [e]) rest (by simp [hes])
  · intro h before rest hes
    rcases List.eq_nil_or_concat' before with rfl | ⟨init, e, rfl⟩
    · exact hstart.2.2
    · simpa using h init e rest (by simp [hes])

end System

/-- One group of 1 KiB blocks with room for the largest window. -/
def roomyImage : SuperBlock := { smallImage 16 with sBlocksCount := 8000 }

def roomySbi : SbInfo := sbInfoOf smallEnv roomyImage 1024

def mountedRsv : Rsv :=
  ⟨.node .head .nil .nil, Function.update (fun _ => ⟨0, 0, 0, 0⟩) .head ⟨0, 0, 0, 0⟩⟩

/-- The ioctl sets a window size, a block is allocated at block 40 and then two from the goal
on, which lies in the window. -/
def extendingEvents (size goal : Nat) : List RsvEvent :=
  let answer : RsvAnswer := ⟨fun _ => false, true, some 1⟩
  [.init 12 true, .setGoal 12 size, .request 12 ⟨0, 39, 1⟩, .run 12 answer, .run 12 answer,
    .run 12 answer, .run 12 answer, .request 12 ⟨0, goal, 2⟩, .run 12 answer, .run 12 answer]

theorem extendingEvents_run {size goal : Nat}
    (h : size = 8 ∧ goal = 46 ∨ size = 2000 ∧ goal = 1065) :
    Along (RsvSystem.after .plain roomySbi) (fun s e => s.Enabled roomySbi e ∧ e.Small)
      (.mounted mountedRsv) (extendingEvents size goal) := by
  have hone : 1 ≤ KR_MAX_RESERVE_BLOCKS := by decide
  have htwo : 2 ≤ KR_MAX_RESERVE_BLOCKS := by decide
  rcases h with ⟨rfl, rfl⟩ | ⟨rfl, rfl⟩ <;>
    exact ⟨⟨⟨rfl, rfl⟩, trivial⟩, ⟨⟨rfl, rfl⟩, trivial⟩,
      ⟨⟨⟨rfl, rfl⟩, by decide, by decide, by decide, by decide⟩, hone⟩, ⟨trivial, trivial⟩,
      ⟨trivial, trivial⟩, ⟨trivial, trivial⟩, ⟨trivial, trivial⟩,
      ⟨⟨⟨rfl, rfl⟩, by decide, by decide, by decide, by decide⟩, htwo⟩, ⟨trivial, trivial⟩,
      ⟨trivial, trivial⟩, trivial⟩

/-- The window `[40, 47]` is extended by a block. -/
theorem windows_bounded_iff_extended :
    ((extendingEvents 8 46).foldl (RsvSystem.after .plain roomySbi)
      (.mounted mountedRsv)).Bounded := by
  have accepted : krFillSuper smallEnv roomyImage = .ok roomySbi := rfl
  refine (windows_bounded_iff .plain accepted (fun _ => rfl) rfl
    (extendingEvents_run (Or.inl ⟨rfl, rfl⟩))).mpr (along_iff_split.mp ?_) _ []
      (List.append_nil _).symm
  have hfits : ∀ s : RsvSystem, s.phase 12 = .extend ⟨0, 46, 2⟩ 1 →
      (s.rsv.win (.inode 12)).rsvStart = 40 → ∀ answer, ExtendFits roomySbi s (.run 12 answer) := by
    intro s hphase hstart answer
    simp only [ExtendFits, hphase, hstart]
    exact fun _ => Or.inl (by decide)
  exact ⟨trivial, trivial, trivial, trivial, trivial, trivial, trivial, trivial, trivial,
    hfits _ rfl rfl _, trivial⟩

/-- The window of 1027 blocks grows to 1028. -/
theorem windows_bounded_grown :
    krFillSuper smallEnv roomyImage = .ok roomySbi ∧
    rsvInit .plain (fun _ => ⟨0, 0, 0, 0⟩) = .done mountedRsv ∧
    Along (RsvSystem.after .plain roomySbi) (fun s e => s.Enabled roomySbi e ∧ e.Small)
      (.mounted mountedRsv) (extendingEvents 2000 1065) ∧
    ¬ ((extendingEvents 2000 1065).foldl (RsvSystem.after .plain roomySbi)
      (.mounted mountedRsv)).Bounded := by
  refine ⟨rfl, rfl, extendingEvents_run (Or.inr ⟨rfl, rfl⟩), fun hbounded => ?_⟩
  have hspan := hbounded.windows (.inode 12) (by decide +kernel)
  revert hspan
  decide +kernel

end KrFs
