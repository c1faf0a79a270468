import KrFs.WindowSearch
import KrFs.WindowBound
import KrFs.NewBlocksEnd
import KrFs.MaximalRun
import KrFs.Lib.Tries

/-!
# What an attempt on one group gives

`kr_try_to_allocate_with_rsv` uses the caller's window, extends it, gives it up or books
another. Which run of the bitmap it claims in the end, and which window it leaves, is told
by the bitmap and the windows it begins with.
-/

namespace KrFs

open SearchTree Bitmap

/-! ## The run of an attempt -/

/-- Where an attempt begins: at the first clear bit from the goal on, or at the bit to which
`find_next_usable_block` and the walk back lead. -/
def AttemptStart (sbi : SbInfo) (group : Nat) (bm : Nat → Bool) (grpGoal : Int)
    (myRsv : Option ReserveWindowNode) (first : Nat) : Prop :=
  match allocRange sbi group grpGoal myRsv with
  | (_, stop, some goal) => IsLeast {i | goal ≤ i ∧ i < stop ∧ bm i = false} first
  | (start, stop, none) =>
    (findNextUsableBlock start bm stop).map
      (fun goal => if myRsv.isNone then backUp bm start 7 goal else goal) = some first

/-- The run an attempt claims: from there on the clear bits of the range, up to the request. -/
structure AttemptRun (sbi : SbInfo) (group : Nat) (bm : Nat → Bool) (grpGoal : Int) (count : Nat)
    (myRsv : Option ReserveWindowNode) (first num : Nat) : Prop where
  start : AttemptStart sbi group bm grpGoal myRsv first
  length : IsGreatest {n | n ≤ max 1 count ∧
    first + n ≤ (allocRange sbi group grpGoal myRsv).2.1 ∧
    ∀ i, first ≤ i → i < first + n → bm i = false} num

section Attempt

variable {sbi : SbInfo} {group : Nat} {bm bm' : Nat → Bool} {grpGoal : Int} {count first num : Nat}
  {myRsv : Option ReserveWindowNode}

theorem AttemptRun.unique {first' num' : Nat}
    (h : AttemptRun sbi group bm grpGoal count myRsv first num)
    (h' : AttemptRun sbi group bm grpGoal count myRsv first' num') : first = first' ∧ num = num' := by
  have hfirst : first = first' := by
    have hstart := h.start
    have hstart' := h'.start
    unfold AttemptStart at hstart hstart'
    generalize allocRange sbi group grpGoal myRsv = range at hstart hstart'
    obtain ⟨start, stop, goal⟩ := range
    cases goal with
    | some goal => exact hstart.unique hstart'
    | none => exact Option.some.inj (hstart.symm.trans hstart')
  subst hfirst
  exact ⟨rfl, h.length.unique h'.length⟩

theorem AttemptStart.clear (h : AttemptStart sbi group bm grpGoal myRsv first) :
    first < (allocRange sbi group grpGoal myRsv).2.1 ∧ bm first = false := by
  unfold AttemptStart at h
  generalize allocRange sbi group grpGoal myRsv = range at h ⊢
  obtain ⟨start, stop, goal⟩ := range
  cases goal with
  | some goal => exact h.1.2
  | none =>
    obtain ⟨p, hp, rfl⟩ := Option.map_eq_some_iff.mp h
    obtain ⟨-, hlt, hclear⟩ := findNextUsableBlock_sound hp
    split
    · exact ⟨lt_of_le_of_lt (backUp_le _ _ _ _) hlt, backUp_clear 7 hclear⟩
    · exact ⟨hlt, hclear⟩

/-- The run is one of clear bits of the group. -/
theorem AttemptRun.claimed (hgoal : grpGoal < sbi.sBlocksPerGroup)
    (h : AttemptRun sbi group bm grpGoal count myRsv first num) :
    ClaimedRun sbi.sBlocksPerGroup bm (setBits bm first num) first num count := by
  obtain ⟨hlt, hclear⟩ := h.start.clear
  obtain ⟨hle, hend, hbits⟩ := h.length.1
  have hstop := (allocRange_spec sbi group hgoal myRsv).1
  refine ⟨rfl, h.length.2 ⟨le_max_left _ _, by omega, fun i h1 h2 => ?_⟩, hle, by omega, hbits⟩
  rw [show i = first by omega]
  exact hclear

/-- The bits before the one that is claimed first are in use. -/
theorem claimFirst_before {stop p : Nat} (n : Nat) : ∀ {goal : Nat},
    claimFirst bm stop n goal = some p → ∀ i, goal ≤ i → i < p → bm i = true := by
  induction n with
  | zero =>
    intro goal h
    cases h
  | succ n ih =>
    intro goal h i hge hlt
    unfold claimFirst at h
    split at h
    · rename_i hset
      split at h
      · cases h
      · by_cases hi : i = goal
        · rw [hi]
          exact hset
        · exact ih h i (by omega) hlt
    · cases h
      omega

/-- The loop that claims further bits takes as many as it can. -/
theorem claimRun_greatest {stop : Nat} (hclear : bm first = false) (hlt : first < stop) :
    IsGreatest {n | n ≤ max 1 count ∧ first + n ≤ stop ∧ ∀ i, first ≤ i → i < first + n → bm i = false}
      (claimRun bm count stop (stop - first) (first + 1) 1) := by
  obtain ⟨hge, hle, hend, hrest⟩ := claimRun_spec bm count stop (stop - first) (first + 1) 1
  have hmax := claimRun_maximal bm count stop (stop - first) (first + 1) 1 (by omega) (by omega)
  generalize claimRun bm count stop (stop - first) (first + 1) 1 = num at hge hle hend hrest hmax ⊢
  refine ⟨⟨hle, by omega, fun i h1 h2 => ?_⟩, ?_⟩
  · by_cases hi : i = first
    · rw [hi]
      exact hclear
    · exact hrest i (by omega) (by omega)
  · rintro n ⟨hn, hstop, hbits⟩
    by_contra hlt'
    rcases hmax with hcount | hfull | hset
    · omega
    · omega
    · have hbit := hbits (first + 1 + (num - 1)) (by omega) (by omega)
      rw [hset] at hbit
      cases hbit

/-- What `kr_try_to_allocate` returns, by the run it finds. -/
theorem krTryToAllocate_attempt {found : Option Nat} (hgoal : grpGoal < sbi.sBlocksPerGroup)
    (h : krTryToAllocate sbi group bm grpGoal count myRsv = .done (bm', found, num)) :
    (∃ first, found = some first ∧ AttemptRun sbi group bm grpGoal count myRsv first num ∧
      bm' = setBits bm first num) ∨
    (found = none ∧ num = 0 ∧ bm' = bm ∧
      ∀ first n, ¬ AttemptRun sbi group bm grpGoal count myRsv first n) := by
  have hlt := (allocRange_spec sbi group hgoal myRsv).2
  unfold krTryToAllocate at h
  dsimp only at h
  obtain ⟨start, stop, goal, hrange⟩ : ∃ start stop goal,
      allocRange sbi group grpGoal myRsv = (start, stop, goal) := ⟨_, _, _, rfl⟩
  rw [hrange] at h hlt
  dsimp only at h hlt
  split at h
  · cases h
  split at h
  · rename_i hnone
    cases h
    refine Or.inr ⟨rfl, rfl, rfl, fun first n hrun => ?_⟩
    have hstart := hrun.start
    rw [AttemptStart, hrange] at hstart
    cases goal with
    | some goal =>
      obtain ⟨hge, hstop, hclear⟩ := hstart.1
      obtain ⟨p, hp⟩ := claimFirst_finds hclear hstop (stop - goal + 1) goal hge (by omega)
      rw [Option.bind_some, hp] at hnone
      cases hnone
    | none =>
      dsimp only at hstart
      rw [hstart, Option.bind_some] at hnone
      rw [claimFirst, hrun.start.clear.2] at hnone
      cases hnone
  · rename_i first hfirst
    simp only [Exec.done.injEq, Prod.mk.injEq] at h
    obtain ⟨rfl, rfl, rfl⟩ := h
    obtain ⟨g, hg, hclaim⟩ := Option.bind_eq_some_iff.mp hfirst
    obtain ⟨hclear, hge, hstop⟩ := claimFirst_some _ hclaim
    refine Or.inl ⟨first, rfl, ?_, rfl⟩
    have hstart : AttemptStart sbi group bm grpGoal myRsv first ∧ first < stop := by
      rw [AttemptStart, hrange]
      cases goal with
      | some goal =>
        cases hg
        refine ⟨⟨⟨hge, hstop (hlt _ rfl), hclear⟩, ?_⟩, hstop (hlt _ rfl)⟩
        rintro i ⟨hi, -, hiclear⟩
        by_contra hbefore
        rw [claimFirst_before _ hclaim i hi (by omega)] at hiclear
        cases hiclear
      | none =>
        dsimp only at hg ⊢
        obtain ⟨p, hp, hback⟩ := Option.map_eq_some_iff.mp hg
        have hpl := findNextUsableBlock_lt hp
        have hgp : bm g = false ∧ g < stop := by
          rw [← hback]
          split
          · exact ⟨backUp_clear 7 (findNextUsableBlock_sound hp).2.2,
              lt_of_le_of_lt (backUp_le _ _ _ _) hpl⟩
          · exact ⟨(findNextUsableBlock_sound hp).2.2, hpl⟩
        rw [claimFirst, hgp.1] at hclaim
        cases hclaim
        exact ⟨hg, hgp.2⟩
    refine ⟨hstart.1, ?_⟩
    rw [hrange]
    exact claimRun_greatest hclear hstart.2

end Attempt

/-! ## What the search depends on -/

/-- The bounds of a window that is not allocated do not count. -/
def canonWindow (w : ReserveWindowNode) : ReserveWindowNode :=
  if w.rsvEnd = 0 then emptyWindow w.rsvGoalSize else w

section Canon

variable {w w' : ReserveWindowNode}

theorem canonWindow_of_empty (h : w.rsvEnd = 0) : canonWindow w = emptyWindow w.rsvGoalSize :=
  if_pos h

theorem canonWindow_of_allocated (h : w.rsvEnd ≠ 0) : canonWindow w = w := if_neg h

@[simp] theorem canonWindow_rsvEnd : (canonWindow w).rsvEnd = w.rsvEnd := by
  unfold canonWindow
  split
  · rename_i h
    exact h.symm
  · rfl

@[simp] theorem canonWindow_rsvGoalSize : (canonWindow w).rsvGoalSize = w.rsvGoalSize := by
  unfold canonWindow
  split
  · rfl
  · rfl

@[simp] theorem canonWindow_canonWindow : canonWindow (canonWindow w) = canonWindow w := by
  by_cases h : w.rsvEnd = 0
  · rw [canonWindow_of_empty h]
    rfl
  · rw [canonWindow_of_allocated h, canonWindow_of_allocated h]

@[simp] theorem rsvIsEmpty_canonWindow : rsvIsEmpty (canonWindow w) = rsvIsEmpty w := by
  simp [rsvIsEmpty]

theorem rsvIsEmpty_iff : rsvIsEmpty w = true ↔ w.rsvEnd = 0 := by
  simp [rsvIsEmpty, KR_RESERVE_WINDOW_NOT_ALLOCATED]

theorem takenWindows_canon {win win' : Nat → ReserveWindowNode}
    (h : ∀ k, canonWindow (win k) = canonWindow (win' k)) (who : Set Nat) :
    takenWindows win who = takenWindows win' who := by
  have hend : ∀ k, (win k).rsvEnd = (win' k).rsvEnd := by
    intro k
    rw [← canonWindow_rsvEnd, h k, canonWindow_rsvEnd]
  have hwin : ∀ k, (win k).rsvEnd ≠ 0 → win k = win' k := by
    intro k hk
    rw [← canonWindow_of_allocated hk, h k, canonWindow_of_allocated (hend k ▸ hk)]
  ext i
  refine or_congr_right (exists_congr fun k => and_congr_right fun _ => ?_)
  rw [← hend k]
  exact and_congr_right fun hk => by rw [hwin k hk]

/-- Where a window may go does not depend on the bounds of windows that are not allocated. -/
theorem windowPlaces_canon {win win' : Nat → ReserveWindowNode}
    (h : ∀ k, canonWindow (win k) = canonWindow (win' k)) (sbi : SbInfo) (group : Nat)
    (bm : Nat → Bool) (ino start : Nat) :
    WindowPlaces sbi group bm win ino start = WindowPlaces sbi group bm win' ino start := by
  have hsize : (win ino).rsvGoalSize = (win' ino).rsvGoalSize := by
    rw [← canonWindow_rsvGoalSize, h ino, canonWindow_rsvGoalSize]
  unfold WindowPlaces
  rw [takenWindows_canon h, takenWindows_canon h, hsize]
  simp only [bookedWindow_congr hsize]

end Canon

/-- The ends to which a window that ends at `stop` can be extended by up to `size` blocks. -/
def extendedEnds (win : Nat → ReserveWindowNode) (ino stop size : Nat) : Set Nat :=
  {e | e ≤ stop + size ∧ ∀ k, k ≠ ino → (win k).rsvEnd ≠ 0 → stop < (win k).rsvStart →
    e < (win k).rsvStart}

theorem extendedEnds_canon {win win' : Nat → ReserveWindowNode}
    (h : ∀ k, canonWindow (win k) = canonWindow (win' k)) (ino stop size : Nat) :
    extendedEnds win ino stop size = extendedEnds win' ino stop size := by
  have hend : ∀ k, (win k).rsvEnd = (win' k).rsvEnd := by
    intro k
    rw [← canonWindow_rsvEnd, h k, canonWindow_rsvEnd]
  ext e
  refine and_congr_right fun _ => forall_congr' fun k => forall_congr' fun _ => ?_
  rw [← hend k]
  refine forall_congr' fun hk => ?_
  rw [← canonWindow_of_allocated hk, h k, canonWindow_of_allocated (hend k ▸ hk)]

/-- The windows of the inodes, as far as they count. -/
def Rsv.canonWins (r : Rsv) (ino : Nat) : ReserveWindowNode := canonWindow (r.inodeWin ino)

/-- What the search of `kr_new_blocks` for one inode depends on. -/
structure AllocView where
  sbi : SbInfo
  desc : Nat → GroupDesc
  blockBitmap : Nat → Nat → Bool
  ino : Nat
  hasInfo : Bool
  win : Nat → ReserveWindowNode

def Fs.allocView (fs : Fs) (ino : Nat) : AllocView where
  sbi := fs.sbi
  desc := fs.desc
  blockBitmap := fs.blockBitmap
  ino := ino
  hasInfo := (fs.inode ino).iBlockAllocInfo.isSome
  win := fs.rsv.canonWins

/-- A run of blocks of a group. -/
structure MarkedRun where
  group : Nat
  first : Nat
  num : Nat

namespace MarkedRun

/-- Its first block. -/
def block (run : MarkedRun) (sbi : SbInfo) : Nat := run.first + sbi.groupFirstBlockNo run.group

/-- The run has a block in the metadata of its group. -/
def InZone (run : MarkedRun) (sbi : SbInfo) (desc : Nat → GroupDesc) : Prop :=
  inSystemZone sbi (desc run.group) (run.block sbi) run.num = true

/-- The run has a block in the metadata of its group or past the end of the image. -/
def Strays (run : MarkedRun) (sbi : SbInfo) (desc : Nat → GroupDesc) : Prop :=
  run.InZone sbi desc ∨ sbi.sEs.sBlocksCount.toNat ≤ run.block sbi + run.num - 1

end MarkedRun

/-- Quota and free blocks let a call search. -/
def AllocEnv.MaySearch (env : AllocEnv) (sbi : SbInfo) : Prop :=
  env.quota = none ∧ krHasFreeBlocks sbi env = true

/-- The goal size is raised to the request. -/
def ReserveWindowNode.raised (w : ReserveWindowNode) (count : Nat) : ReserveWindowNode :=
  if w.rsvGoalSize < count then { w with rsvGoalSize := count } else w

/-- Blocks have been taken from the window. -/
def ReserveWindowNode.hit (w : ReserveWindowNode) (num : Nat) : ReserveWindowNode :=
  { w with rsvAllocHit := w.rsvAllocHit + num }

namespace AllocView

variable (v : AllocView)

/-- The window of the caller. -/
def own : ReserveWindowNode := v.win v.ino

def setOwn (w : ReserveWindowNode) : AllocView :=
  { v with win := Function.update v.win v.ino w }

/-- The bits of a run are set. -/
def mark (run : MarkedRun) : AllocView :=
  { v with
    blockBitmap := Function.update v.blockBitmap run.group
      (setBits (v.blockBitmap run.group) run.first run.num) }

/-- The window of the caller is used as it is. -/
def serves (group : Nat) (grpGoal : Int) : Bool :=
  !rsvIsEmpty v.own && goalInMyReservation v.sbi v.own grpGoal group

/-- The window with which it is used: with a goal it is extended to the end of the request, as
far as the next window allows. -/
structure Opened (group : Nat) (grpGoal : Int) (count : Nat) (w : ReserveWindowNode) : Prop where
  rest : w = { v.own with rsvEnd := w.rsvEnd }
  without_goal : grpGoal < 0 → w.rsvEnd = v.own.rsvEnd
  with_goal : 0 ≤ grpGoal → IsGreatest (extendedEnds v.win v.ino v.own.rsvEnd
    (count - (v.own.rsvEnd - (grpGoal.toNat + v.sbi.groupFirstBlockNo group) + 1))) w.rsvEnd

/-- The window does not serve the goal, or all bits from there on are in use; what is known of
the windows then. -/
def Spent (group : Nat) (grpGoal : Int) (count : Nat) (v₁ : AllocView) : Prop :=
  (v.serves group grpGoal = false ∧ v₁ = v) ∨
    (v.serves group grpGoal = true ∧ ∃ w, v.Opened group grpGoal count w ∧ v₁ = v.setOwn w ∧
      ∀ first n, ¬ AttemptRun v.sbi group (v.blockBitmap group) grpGoal count (some w) first n)

/-- The goal size with which `alloc_new_reservation` searches, unless it keeps the window. -/
def resized (group : Nat) (grpGoal : Int) (count : Nat) : Option ReserveWindowNode :=
  newReservationSize (v.own.raised count) (groupEndBlock v.sbi group)
    (startBlockNo v.sbi group grpGoal)

/-- Where it may put the window. -/
def places (group : Nat) (grpGoal : Int) (w : ReserveWindowNode) : Set Nat :=
  WindowPlaces v.sbi group (v.blockBitmap group) (Function.update v.win v.ino w) v.ino
    (startBlockNo v.sbi group grpGoal)

end AllocView

/-- A search for a new window: the attempt ends in the first place for one, or with no run of
the group. -/
inductive NewWindowTry (v : AllocView) (group : Nat) (grpGoal : Int) (count : Nat) :
    Try MarkedRun AllocView → Prop
  | placed {first num c : Nat} {w : ReserveWindowNode}
      (resized : v.resized group grpGoal count = some w)
      (place : IsLeast (v.places group grpGoal w) c)
      (run : AttemptRun v.sbi group (v.blockBitmap group)
        (if goalInMyReservation v.sbi (bookedWindow w c) grpGoal group then grpGoal else -1) count
        (some (bookedWindow w c)) first num) :
      NewWindowTry v group grpGoal count (.took ⟨group, first, num⟩
        ((v.setOwn ((bookedWindow w c).hit num)).mark ⟨group, first, num⟩))
  | noPlace {w : ReserveWindowNode} (resized : v.resized group grpGoal count = some w)
      (none : v.places group grpGoal w = ∅) :
      NewWindowTry v group grpGoal count (.failed (v.setOwn (emptyWindow w.rsvGoalSize)))
  | kept (resized : v.resized group grpGoal count = none) :
      NewWindowTry v group grpGoal count (.failed (v.setOwn (v.own.raised count)))

/-- An attempt on one group with a window: the window of the caller is tried before a new one. -/
inductive WindowTry (readable : Nat → Bool) (count : Nat) :
    Nat × Int → AllocView → Try MarkedRun AllocView → Prop
  | unread {group : Nat} {grpGoal : Int} {v : AllocView} (read : readable group = false) :
      WindowTry readable count (group, grpGoal) v .stopped
  | own {group first num : Nat} {grpGoal : Int} {v : AllocView} {w : ReserveWindowNode}
      (read : readable group = true) (serves : v.serves group grpGoal = true)
      (opened : v.Opened group grpGoal count w)
      (run : AttemptRun v.sbi group (v.blockBitmap group) grpGoal count (some w) first num) :
      WindowTry readable count (group, grpGoal) v
        (.took ⟨group, first, num⟩ ((v.setOwn (w.hit num)).mark ⟨group, first, num⟩))
  | new {group : Nat} {grpGoal : Int} {v v₁ : AllocView} {e : Try MarkedRun AllocView}
      (read : readable group = true) (spent : v.Spent group grpGoal count v₁)
      (search : NewWindowTry v₁ group grpGoal count e) :
      WindowTry readable count (group, grpGoal) v e

/-- An attempt without a window. When it fails it stores 0 in the count of blocks asked for. -/
inductive PlainTry (readable : Nat → Bool) :
    Nat × Int → AllocView × Nat → Try MarkedRun (AllocView × Nat) → Prop
  | unread {group : Nat} {grpGoal : Int} {s : AllocView × Nat} (read : readable group = false) :
      PlainTry readable (group, grpGoal) s .stopped
  | found {group count first num : Nat} {grpGoal : Int} {v : AllocView}
      (read : readable group = true)
      (run : AttemptRun v.sbi group (v.blockBitmap group) grpGoal count none first num) :
      PlainTry readable (group, grpGoal) (v, count)
        (.took ⟨group, first, num⟩ (v.mark ⟨group, first, num⟩, count))
  | full {group count : Nat} {grpGoal : Int} {v : AllocView} (read : readable group = true)
      (none : ∀ first n,
        ¬ AttemptRun v.sbi group (v.blockBitmap group) grpGoal count none first n) :
      PlainTry readable (group, grpGoal) (v, count) (.failed (v, 0))

/-- An attempt on one group, with what the search depends on and the count of blocks asked
for. -/
def GroupTry (readable : Nat → Bool) (useRsv : Bool) (i : Nat × Int) (s : AllocView × Nat)
    (e : Try MarkedRun (AllocView × Nat)) : Prop :=
  if useRsv then ∃ e', WindowTry readable s.2 i s.1 e' ∧ e = e'.map fun v => (v, s.2)
  else PlainTry readable i s e

theorem GroupTry.unread {readable : Nat → Bool} {group : Nat} (read : readable group = false)
    (useRsv : Bool) (grpGoal : Int) (s : AllocView × Nat) :
    GroupTry readable useRsv (group, grpGoal) s .stopped := by
  cases useRsv with
  | true => exact ⟨.stopped, .unread read, rfl⟩
  | false => exact PlainTry.unread read

/-! ## What an attempt takes -/

/-- A run of clear bits of a group whose bitmap can be read. -/
structure AllocView.Takes (v : AllocView) (readable : Nat → Bool) (count : Nat) (run : MarkedRun) :
    Prop where
  read : readable run.group = true
  claimed : ClaimedRun v.sbi.sBlocksPerGroup (v.blockBitmap run.group)
    (setBits (v.blockBitmap run.group) run.first run.num) run.first run.num count

/-- Another state of the same search. -/
def AllocView.SameButWin (v v' : AllocView) : Prop := v' = { v with win := v'.win }

section Takes

variable {v v₁ : AllocView} {readable : Nat → Bool} {group count : Nat} {grpGoal : Int}

theorem AllocView.Spent.same (h : v.Spent group grpGoal count v₁) : v.SameButWin v₁ := by
  rcases h with ⟨-, rfl⟩ | ⟨-, w, -, rfl, -⟩
  · rfl
  · rfl

theorem AllocView.SameButWin.takes {run : MarkedRun} (h : v.SameButWin v₁)
    (htakes : v₁.Takes readable count run) : v.Takes readable count run := by
  rw [h] at htakes
  exact ⟨htakes.read, htakes.claimed⟩

theorem WindowTry.takes {run : MarkedRun} {v' : AllocView}
    (hgoal : grpGoal < v.sbi.sBlocksPerGroup)
    (h : WindowTry readable count (group, grpGoal) v (.took run v')) :
    run.group = group ∧ v.Takes readable count run := by
  cases h with
  | own read _ _ run => exact ⟨rfl, read, run.claimed hgoal⟩
  | new read spent search =>
    cases search with
    | placed _ _ run =>
      refine ⟨rfl, spent.same.takes ⟨read, run.claimed ?_⟩⟩
      split
      · rw [spent.same]
        exact hgoal
      · omega

theorem WindowTry.same {v' : AllocView} (h : WindowTry readable count (group, grpGoal) v (.failed v')) :
    v.SameButWin v' := by
  cases h with
  | new _ spent search =>
    have hsame := spent.same
    cases search with
    | noPlace => rw [hsame]; rfl
    | kept => rw [hsame]; rfl

theorem GroupTry.takes {useRsv : Bool} {i : Nat × Int} {s s' : AllocView × Nat} {run : MarkedRun}
    (hgoal : i.2 < s.1.sbi.sBlocksPerGroup) (h : GroupTry readable useRsv i s (.took run s')) :
    run.group = i.1 ∧ s.1.Takes readable s.2 run := by
  unfold GroupTry at h
  cases useRsv with
  | true =>
    obtain ⟨e, hwindow, he⟩ := h
    cases e with
    | took run' v' =>
      cases he
      exact hwindow.takes hgoal
    | failed v' => cases he
    | stopped => cases he
  | false =>
    cases h with
    | found read run => exact ⟨rfl, read, run.claimed hgoal⟩

theorem GroupTry.same {useRsv : Bool} {i : Nat × Int} {s s' : AllocView × Nat}
    (h : GroupTry readable useRsv i s (.failed s')) : s.1.SameButWin s'.1 := by
  unfold GroupTry at h
  cases useRsv with
  | true =>
    obtain ⟨e, hwindow, he⟩ := h
    cases e with
    | took run v' => cases he
    | failed v' =>
      cases he
      exact hwindow.same
    | stopped => cases he
  | false =>
    cases h with
    | full => rfl

end Takes

/-! ## Each attempt has one end -/

section Unique

variable {v v₁ v₂ : AllocView} {readable : Nat → Bool} {group count : Nat} {grpGoal : Int}

theorem AllocView.Opened.unique {w w' : ReserveWindowNode} (h : v.Opened group grpGoal count w)
    (h' : v.Opened group grpGoal count w') : w = w' := by
  have hend : w.rsvEnd = w'.rsvEnd := by
    rcases Int.lt_or_le grpGoal 0 with hneg | hpos
    · rw [h.without_goal hneg, h'.without_goal hneg]
    · exact (h.with_goal hpos).unique (h'.with_goal hpos)
  rw [h.rest, h'.rest, hend]

theorem AllocView.Spent.unique (h : v.Spent group grpGoal count v₁)
    (h' : v.Spent group grpGoal count v₂) : v₁ = v₂ := by
  rcases h with ⟨hno, rfl⟩ | ⟨hyes, w, hw, rfl, -⟩
  · rcases h' with ⟨-, rfl⟩ | ⟨hyes', -⟩
    · rfl
    · rw [hno] at hyes'
      cases hyes'
  · rcases h' with ⟨hno', -⟩ | ⟨-, w', hw', rfl, -⟩
    · rw [hyes] at hno'
      cases hno'
    · rw [hw.unique hw']

theorem AllocView.Spent.not_own (h : v.Spent group grpGoal count v₁)
    (serves : v.serves group grpGoal = true) {w : ReserveWindowNode}
    (opened : v.Opened group grpGoal count w) (first n : Nat) :
    ¬ AttemptRun v.sbi group (v.blockBitmap group) grpGoal count (some w) first n := by
  rcases h with ⟨hno, -⟩ | ⟨-, w', hw', -, hnone⟩
  · rw [serves] at hno
    cases hno
  · rw [opened.unique hw']
    exact hnone first n

theorem NewWindowTry.unique {e e' : Try MarkedRun AllocView}
    (h : NewWindowTry v group grpGoal count e) (h' : NewWindowTry v group grpGoal count e') :
    e = e' := by
  cases h with
  | placed resized place run =>
    cases h' with
    | placed resized' place' run' =>
      obtain rfl := Option.some.inj (resized.symm.trans resized')
      obtain rfl := place.unique place'
      obtain ⟨rfl, rfl⟩ := run.unique run'
      rfl
    | noPlace resized' none' =>
      obtain rfl := Option.some.inj (resized.symm.trans resized')
      rw [none'] at place
      exact place.1.elim
    | kept resized' => simp [resized] at resized'
  | noPlace resized none =>
    cases h' with
    | placed resized' place' _ =>
      obtain rfl := Option.some.inj (resized.symm.trans resized')
      rw [none] at place'
      exact place'.1.elim
    | noPlace resized' _ =>
      obtain rfl := Option.some.inj (resized.symm.trans resized')
      rfl
    | kept resized' => simp [resized] at resized'
  | kept resized =>
    cases h' with
    | placed resized' => simp [resized] at resized'
    | noPlace resized' => simp [resized] at resized'
    | kept => rfl

theorem WindowTry.unique {i : Nat × Int} {e e' : Try MarkedRun AllocView}
    (h : WindowTry readable count i v e) (h' : WindowTry readable count i v e') : e = e' := by
  cases h with
  | unread read =>
    cases h' with
    | unread => rfl
    | own read' => simp [read] at read'
    | new read' => simp [read] at read'
  | own read serves opened run =>
    cases h' with
    | unread read' => simp [read] at read'
    | own _ _ opened' run' =>
      obtain rfl := opened.unique opened'
      obtain ⟨rfl, rfl⟩ := run.unique run'
      rfl
    | new _ spent' => exact absurd run (spent'.not_own serves opened _ _)
  | new read spent search =>
    cases h' with
    | unread read' => simp [read] at read'
    | own _ serves' opened' run' => exact absurd run' (spent.not_own serves' opened' _ _)
    | new _ spent' search' =>
      obtain rfl := spent.unique spent'
      exact search.unique search'

theorem PlainTry.unique {i : Nat × Int} {s : AllocView × Nat} {e e' : Try MarkedRun (AllocView × Nat)}
    (h : PlainTry readable i s e) (h' : PlainTry readable i s e') : e = e' := by
  cases h with
  | unread read =>
    cases h' with
    | unread => rfl
    | found read' => simp [read] at read'
    | full read' => simp [read] at read'
  | found read run =>
    cases h' with
    | unread read' => simp [read] at read'
    | found _ run' =>
      obtain ⟨rfl, rfl⟩ := run.unique run'
      rfl
    | full _ none' => exact absurd run (none' _ _)
  | full read none =>
    cases h' with
    | unread read' => simp [read] at read'
    | found _ run' => exact absurd run' (none _ _)
    | full => rfl

theorem GroupTry.unique {useRsv : Bool} {i : Nat × Int} {s : AllocView × Nat}
    {e e' : Try MarkedRun (AllocView × Nat)} (h : GroupTry readable useRsv i s e)
    (h' : GroupTry readable useRsv i s e') : e = e' := by
  unfold GroupTry at h h'
  cases useRsv with
  | true =>
    obtain ⟨w, hw, rfl⟩ := h
    obtain ⟨w', hw', rfl⟩ := h'
    rw [hw.unique hw']
  | false => exact PlainTry.unique h h'

end Unique

/-! ## The code makes these attempts -/

/-- The end of an attempt that left the windows `win'`. -/
def windowEnd (v : AllocView) (group : Nat) (win' : Nat → ReserveWindowNode) :
    Option (Nat × Nat) → Try MarkedRun AllocView
  | some (first, num) => .took ⟨group, first, num⟩ ({ v with win := win' }.mark ⟨group, first, num⟩)
  | none => .failed { v with win := win' }

section Sound

variable (ops : Rebalance Window) {v : AllocView} {r r' : Rsv} {group count : Nat} {grpGoal : Int}

theorem canonWins_update {ino : Nat} {w : ReserveWindowNode}
    (hother : ∀ k, k ≠ .inode ino → r'.win k = r.win k)
    (hown : canonWindow (r'.win (.inode ino)) = w) :
    r'.canonWins = Function.update r.canonWins ino w := by
  funext k
  by_cases hk : k = ino
  · subst hk
    rw [Function.update_self]
    exact hown
  · rw [Function.update_of_ne hk]
    exact congrArg canonWindow (hother (.inode k) (by simpa using hk))

theorem raised_bounds (w : ReserveWindowNode) (count : Nat) :
    (w.raised count).rsvStart = w.rsvStart ∧ (w.raised count).rsvEnd = w.rsvEnd ∧
      w.rsvGoalSize ≤ (w.raised count).rsvGoalSize := by
  unfold ReserveWindowNode.raised
  split
  · exact ⟨rfl, rfl, by dsimp only; omega⟩
  · exact ⟨rfl, rfl, le_refl _⟩

/-- The goal size is the same for a window and what counts of it. -/
theorem raised_canonWindow (w : ReserveWindowNode) (count : Nat) :
    canonWindow ((canonWindow w).raised count) = canonWindow (w.raised count) := by
  by_cases h : w.rsvEnd = 0
  · rw [canonWindow_of_empty h, canonWindow_of_empty ((raised_bounds _ _).2.1.trans rfl),
      canonWindow_of_empty ((raised_bounds _ _).2.1.trans h)]
    congr 1
    unfold ReserveWindowNode.raised emptyWindow
    dsimp only
    split
    · rfl
    · rfl
  · rw [canonWindow_of_allocated h]

theorem AllocView.resized_of {w' : ReserveWindowNode} (hwin : r.canonWins = v.win)
    (h : newReservationSize ((r.win (.inode v.ino)).raised count) (groupEndBlock v.sbi group)
      (startBlockNo v.sbi group grpGoal) = some w') :
    ∃ w, v.resized group grpGoal count = some w ∧ canonWindow w = canonWindow w' := by
  have hown : v.own = canonWindow (r.win (.inode v.ino)) := congrFun hwin.symm v.ino
  unfold AllocView.resized
  rw [hown]
  by_cases hend : (r.win (.inode v.ino)).rsvEnd = 0
  · have hempty : ∀ w : ReserveWindowNode, w.rsvEnd = 0 → ∀ e s,
        newReservationSize (w.raised count) e s = some (w.raised count) := by
      intro w hw e s
      exact if_pos (rsvIsEmpty_iff.mpr ((raised_bounds w count).2.1.trans hw))
    rw [hempty _ hend] at h
    cases h
    exact ⟨_, hempty _ (canonWindow_rsvEnd.trans hend) _ _, raised_canonWindow _ _⟩
  · rw [canonWindow_of_allocated hend]
    exact ⟨w', h, rfl⟩

theorem AllocView.resized_none (hwin : r.canonWins = v.win)
    (h : newReservationSize ((r.win (.inode v.ino)).raised count) (groupEndBlock v.sbi group)
      (startBlockNo v.sbi group grpGoal) = none) :
    v.resized group grpGoal count = none ∧
      canonWindow ((r.win (.inode v.ino)).raised count) = v.own.raised count := by
  have hown : v.own = canonWindow (r.win (.inode v.ino)) := congrFun hwin.symm v.ino
  have hend : (r.win (.inode v.ino)).rsvEnd ≠ 0 := by
    intro hempty
    rw [newReservationSize, if_pos (rsvIsEmpty_iff.mpr
      ((raised_bounds _ count).2.1.trans hempty))] at h
    cases h
  unfold AllocView.resized
  rw [hown, canonWindow_of_allocated hend]
  exact ⟨h, canonWindow_of_allocated (by rw [(raised_bounds _ count).2.1]; exact hend)⟩

/-- The places for a new window, by the windows of the tree. -/
theorem AllocView.places_of {w w' : ReserveWindowNode} (hwin : r.canonWins = v.win)
    (hw : canonWindow w = canonWindow w') :
    v.places group grpGoal w = WindowPlaces v.sbi group (v.blockBitmap group)
      (Function.update r.inodeWin v.ino w') v.ino (startBlockNo v.sbi group grpGoal) := by
  refine windowPlaces_canon (fun k => ?_) _ _ _ _ _
  by_cases hk : k = v.ino
  · subst hk
    rw [Function.update_self, Function.update_self, hw]
  · rw [Function.update_of_ne hk, Function.update_of_ne hk, ← hwin]
    exact canonWindow_canonWindow

/-- The search for a place ends. -/
theorem allocNewReservation_ends {sbi : SbInfo} {ino : Nat} (bm : Nat → Bool)
    (hbpg : 0 < sbi.sBlocksPerGroup) (h : r.Wf)
    (hsize : 1 ≤ (r.win (.inode ino)).rsvGoalSize) (hgoal : grpGoal < sbi.sBlocksPerGroup) :
    ∃ fuel r' reserved, allocNewReservation ops sbi (.inode ino) group bm fuel r grpGoal =
      .done (r', reserved) := by
  have hbounds : sbi.groupFirstBlockNo group ≤ startBlockNo sbi group grpGoal ∧
      startBlockNo sbi group grpGoal ≤ groupEndBlock sbi group := by
    unfold startBlockNo groupEndBlock
    split
    · omega
    · omega
  simp only [allocNewReservation_eq]
  cases hnew : newReservationSize (r.win (.inode ino)) (groupEndBlock sbi group)
      (startBlockNo sbi group grpGoal) with
  | none => exact ⟨0, r, false, rfl⟩
  | some w =>
    obtain ⟨hstart, hend, hpos⟩ := newReservationSize_some hnew
    have hwf : (r.setWin (.inode ino) w).Wf := h.setWin hstart hend
    obtain ⟨node, hnode, hmem⟩ := searchReserveWindow_mem hwf (startBlockNo sbi group grpGoal)
    have hsame : ((r.setWin (.inode ino) w).win (.inode ino)).rsvGoalSize = w.rsvGoalSize := by
      simp [Rsv.setWin]
    obtain ⟨r', reserved, hrun, -⟩ := reserveRetry_spec ops bm hbpg
      (groupEndBlock sbi group + 1 - startBlockNo sbi group grpGoal) hwf hmem hsame (hpos hsize)
      hbounds.1 hbounds.2 (le_refl _)
    refine ⟨groupEndBlock sbi group + 1 - startBlockNo sbi group grpGoal, r', reserved, ?_⟩
    dsimp only
    rw [hnode]
    exact hrun _ (le_refl _)

theorem canonWins_own (hwin : r.canonWins = v.win) (w : ReserveWindowNode) :
    (r.setWin (.inode v.ino) w).canonWins = Function.update v.win v.ino (canonWindow w) := by
  rw [← hwin]
  refine canonWins_update (fun k hk => setWin_other r _ w k hk) ?_
  simp [Rsv.setWin]

/-- A round that needs a new window ends the attempt. -/
theorem withRsvRun_new {bm' : Nat → Bool} {found : Option (Nat × Nat)} {failed : Bool} {fuel : Nat}
    (hbpg : 0 < v.sbi.sBlocksPerGroup) (hwf : r.Wf) (hwin : r.canonWins = v.win)
    (hsize : 1 ≤ (r.win (.inode v.ino)).rsvGoalSize) (hgoal : grpGoal < v.sbi.sBlocksPerGroup)
    (hnew : (rsvIsEmpty (r.win (.inode v.ino)) || failed ||
      !goalInMyReservation v.sbi (r.win (.inode v.ino)) grpGoal group) = true)
    (h : withRsvRun ops v.sbi (.inode v.ino) (v.blockBitmap group) fuel r
      (.loop ⟨group, grpGoal, count⟩ failed) = .done (r', bm', found)) :
    r'.Wf ∧ NewWindowTry v group grpGoal count (windowEnd v group r'.canonWins found) := by
  obtain ⟨hstart₀, hend₀, hsize₀⟩ := raised_bounds (r.win (.inode v.ino)) count
  obtain ⟨r₀, hr₀⟩ : ∃ r₀, r₀ = r.setWin (.inode v.ino) ((r.win (.inode v.ino)).raised count) :=
    ⟨_, rfl⟩
  have hwf₀ : r₀.Wf := hr₀ ▸ hwf.setWin hstart₀ hend₀
  have hself₀ : r₀.win (.inode v.ino) = (r.win (.inode v.ino)).raised count := by
    simp [hr₀, Rsv.setWin]
  have hsize₁ : 1 ≤ (r₀.win (.inode v.ino)).rsvGoalSize := by
    rw [hself₀]
    omega
  obtain ⟨n, r₁, reserved, halloc⟩ :=
    @allocNewReservation_ends ops r₀ group grpGoal v.sbi v.ino (v.blockBitmap group) hbpg hwf₀ hsize₁ hgoal
  obtain ⟨steps, hsteps⟩ := @withRsvRun_allocNewReservation ops v.sbi (.inode v.ino)
    (v.blockBitmap group) ⟨group, grpGoal, count⟩ r r₁ failed reserved n hnew (by rw [← halloc, hr₀]; rfl)
  have hrun := withRsvRun_continues ops v.sbi (.inode v.ino) (v.blockBitmap group) fuel r
    (.loop ⟨group, grpGoal, count⟩ failed) (show fuel ≤ fuel + 1 + steps by omega) _ h
  rw [hsteps] at hrun
  rcases allocNewReservation_places ops hbpg hwf₀ hsize₁ halloc with
    ⟨hnone, rfl, rfl⟩ | ⟨w', hsome, hwf₁, hother, hplaced⟩
  · cases hrun
    rw [hself₀] at hnone
    obtain ⟨hresized, hraised⟩ := v.resized_none hwin hnone
    refine ⟨hwf₀, ?_⟩
    rw [hr₀, canonWins_own hwin, hraised]
    exact .kept hresized
  rw [hself₀] at hsome
  obtain ⟨w, hresized, hcanon⟩ := v.resized_of hwin hsome
  have hgoalSize : w.rsvGoalSize = w'.rsvGoalSize := by
    rw [← canonWindow_rsvGoalSize, hcanon, canonWindow_rsvGoalSize]
  have hinodeWin : Function.update r₀.inodeWin v.ino w' = Function.update r.inodeWin v.ino w' := by
    funext k
    by_cases hk : k = v.ino
    · rw [hk, Function.update_self, Function.update_self]
    · rw [Function.update_of_ne hk, Function.update_of_ne hk]
      exact hr₀ ▸ setWin_other r _ _ _ (by simpa using hk)
  have hother' : ∀ k, k ≠ .inode v.ino → r₁.win k = r.win k := fun k hk =>
    (hother k hk).trans (hr₀ ▸ setWin_other r _ _ k hk)
  rw [hinodeWin, ← AllocView.places_of hwin hcanon] at hplaced
  rcases hplaced with ⟨rfl, c, hc, hbooked⟩ | ⟨rfl, hempty, hend₁, hgoal₁⟩
  · -- a bit of the window that has been booked is clear
    rw [← bookedWindow_congr hgoalSize] at hbooked
    have hstart := WindowPlaces.start_le hc.1
    obtain ⟨-, hin, hfree⟩ := hc.1
    rw [Function.update_self] at hfree
    have hmeets : MeetsGroup v.sbi (r₁.win (.inode v.ino)) group := by
      obtain ⟨b, -, -, -, hhigh⟩ := hfree
      rw [hbooked]
      exact ⟨hin, by omega⟩
    have hlow : v.sbi.groupFirstBlockNo group ≤ c := by
      unfold startBlockNo at hstart
      split at hstart <;> omega
    have hfresh : FreshWindow v.sbi (v.blockBitmap group) (bookedWindow w c)
        (RsvRequest.within v.sbi (bookedWindow w c) ⟨group, grpGoal, count⟩) := by
      refine ⟨hlow, fun hpos => ?_, hfree⟩
      simp only [RsvRequest.within] at hpos ⊢
      split at hpos
      · rename_i hmine
        rw [if_pos hmine]
        rwa [startBlockNo, if_neg (by omega)] at hstart
      · omega
    obtain ⟨bm'', first, num, htry⟩ := hfresh.finds count
    have hgoal' : (RsvRequest.within v.sbi (bookedWindow w c) ⟨group, grpGoal, count⟩).grpGoal <
        v.sbi.sBlocksPerGroup := by
      simp only [RsvRequest.within]
      split <;> omega
    rcases krTryToAllocate_attempt hgoal' htry with ⟨_, hfirst, hattempt, -⟩ | ⟨hnone, -⟩
    · cases hfirst
      have hround := @withRsvRun_allocate ops v.sbi (v.blockBitmap group) v.ino fuel r₁
        (RsvRequest.within v.sbi (bookedWindow w c) ⟨group, grpGoal, count⟩) hmeets
      rw [if_pos rfl, hbooked, hround, hbooked, show (RsvRequest.within v.sbi (bookedWindow w c)
        ⟨group, grpGoal, count⟩).count = count from rfl, htry] at hrun
      cases hrun
      refine ⟨hwf₁.setWin (by rw [hbooked]) (by rw [hbooked]), ?_⟩
      have hend : ((bookedWindow w c).hit num).rsvEnd ≠ 0 := by
        have hw := hgoalSize ▸ (newReservationSize_some hsome).2.2 (hself₀ ▸ hsize₁)
        have hpos := WindowPlaces.pos (by rwa [Function.update_self]) hc.1
        simp only [ReserveWindowNode.hit, bookedWindow]
        omega
      rw [canonWins_update (w := (bookedWindow w c).hit num)
        (fun k hk => (setWin_other r₁ _ _ k hk).trans (hother' k hk)) ?_, hwin]
      · exact .placed hresized hc hattempt
      · rw [← canonWindow_of_allocated hend]
        simp [Rsv.setWin, ReserveWindowNode.hit]
    · cases hnone
  · cases hrun
    refine ⟨hwf₁, ?_⟩
    have hown : canonWindow (r'.win (.inode v.ino)) = emptyWindow w.rsvGoalSize := by
      rw [canonWindow_of_empty hend₁, hgoal₁, hgoalSize]
    rw [canonWins_update hother' hown, hwin]
    exact .noPlace hresized hempty

theorem Rsv.Wf.next_mem {ino : Nat} {n : Window} (h : r.Wf) (hmem : .inode ino ∈ inorder r.root)
    (hnext : next r.root (.inode ino) = some n) : n ∈ inorder r.root := by
  obtain ⟨before, after, hl⟩ := List.append_of_mem hmem
  have hbefore : Window.inode ino ∉ before := by
    have hnd := hl ▸ h.nodup
    exact fun hm => (List.disjoint_of_nodup_append hnd) hm (by simp)
  rw [next, successors_eq hl hbefore] at hnext
  have hn := List.mem_of_mem_head? hnext
  simp [hl, hn]

/-- The next window of the tree is the first that begins behind the window. -/
theorem Rsv.Wf.next_first {ino : Nat} (h : r.Wf) (hmem : .inode ino ∈ inorder r.root)
    {k : Window} (hk : k ∈ inorder r.root) (hbehind : (r.win (.inode ino)).rsvEnd < (r.win k).rsvStart) :
    ∃ n, next r.root (.inode ino) = some n ∧ n ∈ inorder r.root ∧
      (r.win n).rsvStart ≤ (r.win k).rsvStart := by
  obtain ⟨before, after, hl⟩ := List.append_of_mem hmem
  have hbefore : Window.inode ino ∉ before := by
    have hnd := hl ▸ h.nodup
    exact fun hm => (List.disjoint_of_nodup_append hnd) hm (by simp)
  obtain ⟨-, hpost, hpre⟩ := List.pairwise_append.mp (hl ▸ h.disjoint)
  have hafter : k ∈ after := by
    have hle := h.start_le_end _ hmem
    have hle' := h.start_le_end _ hk
    rw [hl] at hk
    rcases List.mem_append.mp hk with hk | hk
    · have := hpre k hk (.inode ino) (by simp)
      omega
    · rcases List.mem_cons.mp hk with rfl | hk
      · omega
      · exact hk
  cases hrest : after with
  | nil =>
    rw [hrest] at hafter
    cases hafter
  | cons n after' =>
    have hn : next r.root (.inode ino) = some n := by
      rw [next, successors_eq hl hbefore, hrest, List.head?_cons]
    refine ⟨n, hn, by simp [hl, hrest], ?_⟩
    rw [hrest] at hafter hpost
    rcases List.mem_cons.mp hafter with rfl | hk'
    · exact le_refl _
    · have := (List.pairwise_cons.mp (List.pairwise_cons.mp hpost).2).1 k hk'
      have := h.start_le_end n (by simp [hl, hrest])
      omega

/-- `try_to_extend_reservation` takes as much as it can. -/
theorem tryToExtendReservation_greatest {ino : Nat} (h : r.Wf) (hmem : .inode ino ∈ inorder r.root)
    (size : Nat) : ∃ e, tryToExtendReservation r (.inode ino) size true =
        r.setWin (.inode ino) { r.win (.inode ino) with rsvEnd := e } ∧
      IsGreatest (extendedEnds r.inodeWin ino (r.win (.inode ino)).rsvEnd size) e := by
  have hlater : ∀ k, (r.inodeWin k).rsvEnd ≠ 0 →
      (r.win (.inode ino)).rsvEnd < (r.inodeWin k).rsvStart → ∃ n, next r.root (.inode ino) = some n ∧
        (r.win n).rsvStart ≤ (r.inodeWin k).rsvStart := by
    intro k hend hbehind
    obtain ⟨n, hn, -, hle⟩ := h.next_first hmem ((h.mem_iff k).mpr hend) hbehind
    exact ⟨n, hn, hle⟩
  unfold tryToExtendReservation
  rw [Bool.not_true, if_neg Bool.false_ne_true]
  cases hnext : next r.root (.inode ino) with
  | none =>
    refine ⟨_, rfl, ⟨le_refl _, fun k _ hend hbehind => ?_⟩, fun e he => he.1⟩
    obtain ⟨n, hn, -⟩ := hlater k hend hbehind
    rw [hnext] at hn
    cases hn
  | some n =>
    have hafter := h.next_start hmem hnext
    have hle : ∀ k, (r.inodeWin k).rsvEnd ≠ 0 →
        (r.win (.inode ino)).rsvEnd < (r.inodeWin k).rsvStart →
        (r.win n).rsvStart ≤ (r.inodeWin k).rsvStart := by
      intro k hend hbehind
      obtain ⟨n', hn', hle⟩ := hlater k hend hbehind
      rw [hnext] at hn'
      cases hn'
      exact hle
    dsimp only
    split
    · rename_i hfits
      refine ⟨_, rfl, ⟨le_refl _, fun k _ hend hbehind => ?_⟩, fun e he => he.1⟩
      have := hle k hend hbehind
      omega
    · rename_i hfits
      refine ⟨_, rfl, ⟨by omega, fun k _ hend hbehind => ?_⟩, ?_⟩
      · have := hle k hend hbehind
        omega
      · -- the next window is one of an inode
        rintro e ⟨-, he⟩
        have hn := h.next_mem hmem hnext
        cases n with
        | head =>
          have := h.head_window
          omega
        | inode i =>
          have hne : i ≠ ino := by
            rintro rfl
            have := h.start_le_end _ hmem
            omega
          have := he i hne ((h.mem_iff i).mp hn) hafter
          simp only [Rsv.inodeWin] at this
          omega

theorem AllocView.serves_eq (hwin : r.canonWins = v.win) (group : Nat) (grpGoal : Int) :
    (rsvIsEmpty (r.win (.inode v.ino)) || false ||
      !goalInMyReservation v.sbi (r.win (.inode v.ino)) grpGoal group) = !v.serves group grpGoal := by
  have hown : v.own = canonWindow (r.win (.inode v.ino)) := congrFun hwin.symm v.ino
  unfold AllocView.serves
  rw [hown, rsvIsEmpty_canonWindow]
  by_cases hend : (r.win (.inode v.ino)).rsvEnd = 0
  · simp [rsvIsEmpty_iff.mpr hend]
  · rw [canonWindow_of_allocated hend]
    simp

/-- A window that serves the goal is opened. -/
theorem withRsvRun_opened (bm : Nat → Bool) (hbpg : 0 < v.sbi.sBlocksPerGroup) (hwf : r.Wf)
    (hwin : r.canonWins = v.win) (serves : v.serves group grpGoal = true) :
    ∃ steps w, v.Opened group grpGoal count w ∧ w.rsvEnd ≠ 0 ∧ MeetsGroup v.sbi w group ∧
      w.rsvGoalSize = (r.win (.inode v.ino)).rsvGoalSize ∧ (r.setWin (.inode v.ino) w).Wf ∧
      ∀ n, withRsvRun ops v.sbi (.inode v.ino) bm (n + steps) r (.loop ⟨group, grpGoal, count⟩ false) =
        withRsvRun ops v.sbi (.inode v.ino) bm n (r.setWin (.inode v.ino) w)
          (.allocate ⟨group, grpGoal, count⟩) := by
  have hnew := v.serves_eq hwin group grpGoal
  rw [serves] at hnew
  have hparts := hnew
  simp only [Bool.not_true, Bool.or_eq_false_iff, Bool.not_eq_false'] at hparts
  obtain ⟨⟨hempty, -⟩, hmine⟩ := hparts
  have hend : (r.win (.inode v.ino)).rsvEnd ≠ 0 := by
    simpa [rsvIsEmpty, KR_RESERVE_WINDOW_NOT_ALLOCATED] using hempty
  have hown : v.own = r.win (.inode v.ino) :=
    (congrFun hwin.symm v.ino).trans (canonWindow_of_allocated hend)
  have hmeets := goalInMyReservation_meets hbpg hmine
  have hmem := (hwf.mem_iff v.ino).mpr hend
  have hends : ∀ size, extendedEnds v.win v.ino v.own.rsvEnd size =
      extendedEnds r.inodeWin v.ino (r.win (.inode v.ino)).rsvEnd size := by
    intro size
    rw [hown, ← hwin]
    exact extendedEnds_canon (fun k => canonWindow_canonWindow) _ _ _
  have hhead : loopHead v.sbi r (.inode v.ino) ⟨group, grpGoal, count⟩ false =
      if 0 ≤ grpGoal then
        if (r.win (.inode v.ino)).rsvEnd - (grpGoal.toNat + v.sbi.groupFirstBlockNo group) + 1 < count
        then (r, .extend ⟨group, grpGoal, count⟩ (count - ((r.win (.inode v.ino)).rsvEnd -
          (grpGoal.toNat + v.sbi.groupFirstBlockNo group) + 1)))
        else (r, .allocate ⟨group, grpGoal, count⟩)
      else (r, .allocate ⟨group, grpGoal, count⟩) := by
    rw [loopHead, if_neg (by rw [hnew]; exact Bool.false_ne_true)]
  by_cases hextend : 0 ≤ grpGoal ∧ (r.win (.inode v.ino)).rsvEnd -
      (grpGoal.toNat + v.sbi.groupFirstBlockNo group) + 1 < count
  · rw [if_pos hextend.1, if_pos hextend.2] at hhead
    generalize hsize : count - _ = size at hhead
    obtain ⟨e, hrun, he⟩ := tryToExtendReservation_greatest hwf hmem size
    obtain ⟨hwf', -⟩ := tryToExtendReservation_wf hwf hmem size true
    have hle : (r.win (.inode v.ino)).rsvEnd ≤ e :=
      he.2 ⟨Nat.le_add_right _ _, fun k _ _ hbehind => hbehind⟩
    refine ⟨2, { r.win (.inode v.ino) with rsvEnd := e }, ⟨by rw [hown], fun hneg => by omega,
      fun _ => ?_⟩, by dsimp only; omega, ⟨hmeets.1, hmeets.2.trans hle⟩, rfl, hrun ▸ hwf',
      fun n => ?_⟩
    · rw [hends, hown, hsize]
      exact he
    · simp only [withRsvRun, threadStep, hhead, hrun]
  · have hself : r.setWin (.inode v.ino) (r.win (.inode v.ino)) = r := by
      simp [Rsv.setWin]
    have hhead' : loopHead v.sbi r (.inode v.ino) ⟨group, grpGoal, count⟩ false =
        (r, .allocate ⟨group, grpGoal, count⟩) := by
      rw [hhead]
      split
      · rw [if_neg (by omega)]
      · rfl
    refine ⟨1, r.win (.inode v.ino), ⟨by rw [hown], fun _ => by rw [hown], fun hpos => ?_⟩, hend,
      hmeets, rfl, hself.symm ▸ hwf, fun n => ?_⟩
    · have hzero : count - (v.own.rsvEnd - (grpGoal.toNat + v.sbi.groupFirstBlockNo group) + 1) = 0 := by
        rw [hown]
        omega
      rw [hends, hzero]
      exact ⟨⟨le_refl _, fun k _ _ hbehind => hbehind⟩, fun e he => he.1⟩
    · simp only [withRsvRun, threadStep, hhead', hself]

/-- What `kr_try_to_allocate_with_rsv` does with a window is such an attempt. -/
theorem withRsvRun_try {readable : Nat → Bool} (hread : readable group = true) {bm' : Nat → Bool}
    {found : Option (Nat × Nat)} {fuel : Nat} (hbpg : 0 < v.sbi.sBlocksPerGroup) (hwf : r.Wf)
    (hwin : r.canonWins = v.win) (hsize : 1 ≤ (r.win (.inode v.ino)).rsvGoalSize)
    (hgoal : grpGoal < v.sbi.sBlocksPerGroup)
    (h : withRsvRun ops v.sbi (.inode v.ino) (v.blockBitmap group) fuel r
      (.loop ⟨group, grpGoal, count⟩ false) = .done (r', bm', found)) :
    r'.Wf ∧ WindowTry readable count (group, grpGoal) v (windowEnd v group r'.canonWins found) := by
  cases serves : v.serves group grpGoal with
  | false =>
    have hnew := v.serves_eq hwin group grpGoal
    rw [serves] at hnew
    obtain ⟨hwf', hsearch⟩ := withRsvRun_new ops hbpg hwf hwin hsize hgoal hnew h
    exact ⟨hwf', .new hread (Or.inl ⟨serves, rfl⟩) hsearch⟩
  | true =>
    obtain ⟨steps, w, hopened, hend, hmeets, hgoalSize, hwf₁, hsteps⟩ :=
      @withRsvRun_opened ops v r group count grpGoal (v.blockBitmap group) hbpg hwf hwin serves
    have hself : (r.setWin (.inode v.ino) w).win (.inode v.ino) = w := by
      simp [Rsv.setWin]
    have hwin₁ : (r.setWin (.inode v.ino) w).canonWins = (v.setOwn w).win := by
      rw [canonWins_own hwin, canonWindow_of_allocated hend]
      rfl
    have hrun := withRsvRun_continues ops v.sbi (.inode v.ino) (v.blockBitmap group) fuel r
      (.loop ⟨group, grpGoal, count⟩ false) (show fuel ≤ fuel + 1 + steps by omega) _ h
    have hround := @withRsvRun_allocate ops v.sbi (v.blockBitmap group) v.ino fuel
      (r.setWin (.inode v.ino) w) ⟨group, grpGoal, count⟩ (by rw [hself]; exact hmeets)
    rw [hsteps, hround, hself] at hrun
    obtain ⟨⟨bm₁, found₁, num⟩, htry, hrest⟩ := Exec.bind_eq_done.mp hrun
    rcases krTryToAllocate_attempt hgoal htry with
      ⟨first, rfl, hattempt, rfl⟩ | ⟨rfl, -, -, hnone⟩
    · cases hrest
      refine ⟨hwf₁.setWin (by rw [hself]) (by rw [hself]), ?_⟩
      have hwins : ((r.setWin (.inode v.ino) w).setWin (.inode v.ino) (w.hit num)).canonWins =
          Function.update v.win v.ino (w.hit num) := by
        have hhit : canonWindow (w.hit num) = w.hit num := canonWindow_of_allocated hend
        refine (@canonWins_own (v.setOwn w) _ hwin₁ (w.hit num)).trans ?_
        rw [hhit]
        exact Function.update_idem _ _ _
      have htook : WindowTry readable count (group, grpGoal) v _ := .own hread serves hopened hattempt
      rw [windowEnd, show ({ w with rsvAllocHit := w.rsvAllocHit + num } : ReserveWindowNode) =
        w.hit num from rfl, hwins]
      exact htook
    · obtain ⟨hwf', hsearch⟩ := @withRsvRun_new ops (v.setOwn w) (r.setWin (.inode v.ino) w) r' group
        count grpGoal bm' found true fuel hbpg hwf₁ hwin₁ (by
          change 1 ≤ ((r.setWin (.inode v.ino) w).win (.inode v.ino)).rsvGoalSize
          rw [hself, hgoalSize]
          exact hsize) hgoal (by simp) hrest
      exact ⟨hwf', .new hread (Or.inr ⟨serves, w, hopened, rfl, hnone⟩) hsearch⟩

/-- How an attempt of the code ended, as the end of a try. -/
def groupEnd (fs' : Fs) (ino group count num' : Nat) :
    Option Nat → Try MarkedRun (AllocView × Nat)
  | some first => .took ⟨group, first, num'⟩ (fs'.allocView ino, count)
  | none => .failed (fs'.allocView ino, num')

/-- What a search with a window needs of the reservations. -/
def Fs.WindowReady (fs : Fs) (ino : Nat) (useRsv : Bool) : Prop :=
  useRsv = true → fs.rsv.Wf ∧ 1 ≤ (fs.rsv.win (.inode ino)).rsvGoalSize

/-- One call of `kr_try_to_allocate_with_rsv` is such a try. -/
theorem tryGroup_try {env : AllocEnv} {ino fuel num num' : Nat} {fs fs' : Fs} {useRsv : Bool}
    {found : Option Nat} (hread : env.readBitmap group = true) (hbpg : 0 < fs.sbi.sBlocksPerGroup)
    (hready : fs.WindowReady ino useRsv) (hgoal : grpGoal < fs.sbi.sBlocksPerGroup)
    (h : tryGroup ops ino fuel fs useRsv group grpGoal num = .done (fs', found, num')) :
    fs'.WindowReady ino useRsv ∧ GroupTry env.readBitmap useRsv (group, grpGoal)
      (fs.allocView ino, num) (groupEnd fs' ino group num num' found) := by
  cases useRsv with
  | true =>
    simp only [tryGroup, if_true] at h
    obtain ⟨⟨rsv, bm', found₁⟩, hrun, hrest⟩ := Exec.bind_eq_done.mp h
    obtain ⟨hwf, hsize⟩ := hready rfl
    obtain ⟨hwf', htry⟩ := @withRsvRun_try ops (fs.allocView ino) fs.rsv rsv group num grpGoal
      env.readBitmap hread bm' found₁ fuel hbpg hwf rfl hsize hgoal hrun
    have hsize' := withRsvRun_goalSize ops fuel hsize hrun
    have hreq : PhaseRequest fs.sbi.sBlocksPerGroup num (.loop ⟨group, grpGoal, num⟩ false) :=
      ⟨rfl, hgoal⟩
    have hbits := withRsvRun_spec ops fuel hreq hrun
    cases found₁ with
    | some val =>
      obtain ⟨first, num₁⟩ := val
      cases hrest
      refine ⟨fun _ => ⟨hwf', hsize'⟩, _, htry, ?_⟩
      rcases hbits with ⟨hnone, -⟩ | ⟨first', num₂, hfound, hclaim⟩
      · cases hnone
      · cases hfound
        rw [hclaim.bits]
        rfl
    | none =>
      cases hrest
      refine ⟨fun _ => ⟨hwf', hsize'⟩, _, htry, ?_⟩
      rcases hbits with ⟨-, rfl⟩ | ⟨first', num₂, hfound, -⟩
      · rw [Function.update_eq_self]
        rfl
      · cases hfound
  | false =>
    simp only [tryGroup, Bool.false_eq_true, if_false] at h
    obtain ⟨⟨bm', found₁, num₁⟩, htry, hrest⟩ := Exec.bind_eq_done.mp h
    cases hrest
    refine ⟨fun h => absurd h Bool.false_ne_true, ?_⟩
    rcases krTryToAllocate_attempt hgoal htry with
      ⟨first, rfl, hattempt, rfl⟩ | ⟨rfl, rfl, rfl, hnone⟩
    · exact .found hread hattempt
    · rw [Function.update_eq_self]
      exact .full hread hnone

end Sound

end KrFs
