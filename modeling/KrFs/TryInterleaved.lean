import KrFs.Lib.Interference
import KrFs.Reserve

/-!
# Claiming bits while others do

`kr_try_to_allocate` holds no lock. Its searches read the bitmap bit by bit, and
byte by byte in `memscan`, and every bit is claimed with an atomic test-and-set.
Here each of these accesses is a step of its own, between which other threads may
set and clear any bit but those the call has set. The call with no other thread is
the one of the sequential model.
-/

namespace KrFs.Interleaved

open Interference Bitmap

/-- `kr_find_next_zero_bit` from bit `i` on, with `n` bits left. -/
def scanZero : Nat → Nat → Prog Nat Nat
  | 0, i => .ret i
  | n + 1, i => .look (fun bm => bm i) fun set => if set then scanZero n (i + 1) else .ret i

def findNextZeroBit (size off : Nat) : Prog Nat Nat :=
  if off < size then scanZero (size - off) off else .ret size

/-- `memscan` for a zero byte among the next `n` bytes from byte `i`. -/
def memscanZero : Nat → Nat → Prog Nat Nat
  | 0, i => .ret i
  | n + 1, i => .look (fun bm => byteClear bm i) fun zero =>
      if zero then .ret i else memscanZero n (i + 1)

/-- `bitmap_search_next_usable_block`; `none` is its return of -1. -/
def bitmapSearchNextUsableBlock (start maxblocks : Nat) : Prog Nat (Option Nat) :=
  (findNextZeroBit maxblocks start).bind fun next =>
    .ret (if maxblocks ≤ next then none else some next)

/-- `find_next_usable_block`; `none` is its return of -1. -/
def findNextUsableBlock (start maxblocks : Nat) : Prog Nat (Option Nat) :=
  let endGoal := min ((start + 63) / 64 * 64) maxblocks
  let behind := (memscanZero ((maxblocks + 7) / 8 - start / 8) (start / 8)).bind fun r =>
    let next := r * 8
    if next < maxblocks && start ≤ next then .ret (some next)
    else bitmapSearchNextUsableBlock start maxblocks
  if 0 < start then
    (findNextZeroBit endGoal start).bind fun here =>
      if here < endGoal then .ret (some here) else behind
  else behind

/-- The short walk back over bits that read as clear. -/
def backUp (start : Nat) : Nat → Nat → Prog Nat Nat
  | 0, grpGoal => .ret grpGoal
  | n + 1, grpGoal =>
    if start < grpGoal then
      .look (fun bm => bm (grpGoal - 1)) fun set =>
        if set then .ret grpGoal else backUp start n (grpGoal - 1)
    else .ret grpGoal

/-- The jumps to `repeat` with a goal: the first test-and-set that finds its bit
clear. -/
def claimFirst (stop : Nat) : Nat → Nat → Prog Nat (Option Nat)
  | 0, _ => .running
  | fuel + 1, grpGoal => .testAndSet grpGoal fun set =>
      if set then if stop ≤ grpGoal + 1 then .ret none else claimFirst stop fuel (grpGoal + 1)
      else .ret (some grpGoal)

/-- The loop that claims further bits up to the requested count. -/
def claimRun (count stop : Nat) : Nat → Nat → Nat → Prog Nat Nat
  | 0, _, _ => .running
  | fuel + 1, grpGoal, num =>
    if num < count && grpGoal < stop then
      .testAndSet grpGoal fun set =>
        if set then .ret num else claimRun count stop fuel (grpGoal + 1) (num + 1)
    else .ret num

/-- The goal at the first test-and-set: the given one, or what the search finds. -/
def firstGoal (start stop : Nat) (windowed : Bool) : Option Nat → Prog Nat (Option Nat)
  | some grpGoal => .ret (some grpGoal)
  | none => (findNextUsableBlock start stop).bind fun
      | none => .ret none
      | some grpGoal =>
        if windowed then .ret (some grpGoal)
        else (backUp start 7 grpGoal).bind fun grpGoal => .ret (some grpGoal)

/-- `kr_try_to_allocate`: the first allocated bit or `none` for -1, and the value
stored in `*count`. -/
def krTryToAllocate (sbi : SbInfo) (fuel group : Nat) (grpGoal : Int) (count : Nat)
    (myRsv : Option ReserveWindowNode) : Prog Nat (Option Nat × Nat) :=
  let (start, stop, goal) := allocRange sbi group grpGoal myRsv
  if sbi.sBlocksPerGroup < start then .bug
  else (firstGoal start stop myRsv.isSome goal).bind fun
    | none => .ret (none, 0)
    | some goal => (claimFirst stop fuel goal).bind fun
      | none => .ret (none, 0)
      | some first => (claimRun count stop fuel (first + 1) 1).bind fun num =>
          .ret (some first, num)

/-! ## What each loop ensures -/

section Loops

variable {own : List Nat}

/-- The searches set no bit, and stay in their range. -/
theorem scanZero_ensures (n : Nat) : ∀ i,
    (scanZero n i).Ensures (fun j own' => own' = own ∧ i ≤ j ∧ j ≤ i + n) own := by
  induction n with
  | zero => exact fun i => ⟨rfl, le_refl _, le_refl _⟩
  | succ n ih =>
    intro i set
    cases set with
    | true => exact (ih (i + 1)).mono fun j own' h => ⟨h.1, by omega, by omega⟩
    | false => exact ⟨rfl, le_refl _, by omega⟩

theorem findNextZeroBit_ensures (size off : Nat) : (findNextZeroBit size off).Ensures
    (fun j own' => own' = own ∧ j ≤ size ∧ (j < size → off ≤ j)) own := by
  unfold findNextZeroBit
  split
  · exact (scanZero_ensures (size - off) off).mono fun j own' h =>
      ⟨h.1, by omega, fun _ => h.2.1⟩
  · exact ⟨rfl, le_refl _, by omega⟩

theorem memscanZero_ensures (n : Nat) : ∀ i,
    (memscanZero n i).Ensures (fun _ own' => own' = own) own := by
  induction n with
  | zero => exact fun i => rfl
  | succ n ih =>
    intro i zero
    cases zero with
    | true => rfl
    | false => exact ih (i + 1)

/-- A block the search returns lies in its range; that it is free may be out of
date. -/
def InRange (start stop : Nat) (own : List Nat) (found : Option Nat) (own' : List Nat) : Prop :=
  own' = own ∧ ∀ b, found = some b → start ≤ b ∧ b < stop

theorem bitmapSearchNextUsableBlock_ensures (start maxblocks : Nat) :
    (bitmapSearchNextUsableBlock start maxblocks).Ensures (InRange start maxblocks own) own := by
  refine Prog.Ensures.bind ((findNextZeroBit_ensures maxblocks start).mono ?_)
  rintro j own' ⟨rfl, hle, hge⟩
  refine ⟨rfl, fun b hb => ?_⟩
  by_cases hj : maxblocks ≤ j
  · simp [hj] at hb
  · obtain rfl : j = b := by simpa [hj] using hb
    exact ⟨hge (by omega), by omega⟩

theorem findNextUsableBlock_ensures (start maxblocks : Nat) :
    (findNextUsableBlock start maxblocks).Ensures (InRange start maxblocks own) own := by
  have hbehind : ((memscanZero ((maxblocks + 7) / 8 - start / 8) (start / 8)).bind fun r =>
      if r * 8 < maxblocks && start ≤ r * 8 then Prog.ret (some (r * 8))
      else bitmapSearchNextUsableBlock start maxblocks).Ensures
        (InRange start maxblocks own) own := by
    refine Prog.Ensures.bind ((memscanZero_ensures _ _).mono ?_)
    rintro r own' rfl
    split
    · rename_i hr
      simp only [Bool.and_eq_true, decide_eq_true_eq] at hr
      refine ⟨rfl, fun b hb => ?_⟩
      cases hb
      exact ⟨hr.2, hr.1⟩
    · exact bitmapSearchNextUsableBlock_ensures start maxblocks
  unfold findNextUsableBlock
  dsimp only
  split
  · refine Prog.Ensures.bind ((findNextZeroBit_ensures _ start).mono ?_)
    rintro here own' ⟨rfl, hle, hge⟩
    split
    · refine ⟨rfl, fun b hb => ?_⟩
      cases hb
      exact ⟨hge ‹_›, by omega⟩
    · exact hbehind
  · exact hbehind

theorem backUp_ensures (start : Nat) (n : Nat) : ∀ {grpGoal}, start ≤ grpGoal →
    (backUp start n grpGoal).Ensures
      (fun g own' => own' = own ∧ start ≤ g ∧ g ≤ grpGoal) own := by
  induction n with
  | zero => exact fun h => ⟨rfl, h, le_refl _⟩
  | succ n ih =>
    intro grpGoal h
    unfold backUp
    split
    · intro set
      cases set with
      | true => exact ⟨rfl, h, le_refl _⟩
      | false =>
        exact (ih (show start ≤ grpGoal - 1 by omega)).mono fun g own' hg =>
          ⟨hg.1, hg.2.1, by omega⟩
    · exact ⟨rfl, h, le_refl _⟩

theorem firstGoal_ensures {start stop : Nat} (windowed : Bool) {goal : Option Nat}
    (hgoal : ∀ g, goal = some g → start ≤ g ∧ g < stop) :
    (firstGoal start stop windowed goal).Ensures (InRange start stop own) own := by
  cases goal with
  | some g => exact ⟨rfl, hgoal⟩
  | none =>
    refine Prog.Ensures.bind ((findNextUsableBlock_ensures start stop).mono ?_)
    rintro found own' ⟨rfl, hfound⟩
    cases found with
    | none => exact ⟨rfl, hfound⟩
    | some b =>
      obtain ⟨hge, hlt⟩ := hfound b rfl
      cases windowed with
      | true => exact ⟨rfl, hfound⟩
      | false =>
        refine Prog.Ensures.bind ((backUp_ensures start 7 hge).mono ?_)
        rintro g own' ⟨rfl, hg, hgb⟩
        refine ⟨rfl, fun b' hb' => ?_⟩
        cases hb'
        exact ⟨hg, by omega⟩

/-- The walk at `repeat` ends, with one bit set or with none. -/
theorem claimFirst_ensures {stop : Nat} (fuel : Nat) : ∀ {grpGoal}, grpGoal < stop →
    stop - grpGoal ≤ fuel → (claimFirst stop fuel grpGoal).Ensures
      (fun found own' => match found with
        | none => own' = []
        | some first => own' = [first] ∧ grpGoal ≤ first ∧ first < stop) [] := by
  induction fuel with
  | zero => omega
  | succ fuel ih =>
    intro grpGoal hlt hfuel
    refine ⟨?_, fun _ => ⟨rfl, le_refl _, hlt⟩⟩
    -- taken by another thread: goal and start move on together
    by_cases hend : stop ≤ grpGoal + 1
    · simp only [if_true, if_pos hend]
      rfl
    · simp only [if_true, if_neg hend]
      refine (ih (by omega) (by omega)).mono fun found own' h => ?_
      cases found with
      | none => exact h
      | some first => exact ⟨h.1, by omega, h.2.2⟩

/-- The loop over the further bits ends with a run of bits of its own. -/
theorem claimRun_ensures {count stop first : Nat} (fuel : Nat) : ∀ {num : Nat}, 1 ≤ num →
    num ≤ count → first + num ≤ stop → stop - (first + num) < fuel →
    (claimRun count stop fuel (first + num) num).Ensures
      (fun n own' => 1 ≤ n ∧ n ≤ count ∧ first + n ≤ stop ∧ own' = List.range' first n)
      (List.range' first num) := by
  induction fuel with
  | zero => omega
  | succ fuel ih =>
    intro num hpos hcount hstop hfuel
    unfold claimRun
    split
    · rename_i hmore
      simp only [Bool.and_eq_true, decide_eq_true_eq] at hmore
      refine ⟨⟨hpos, hcount, hstop, rfl⟩, fun _ => ?_⟩
      have hrange : List.range' first num ++ [first + num] = List.range' first (num + 1) := by
        rw [List.range'_concat, Nat.one_mul]
      rw [hrange]
      exact @ih (num + 1) (by omega) (by omega) (by omega) (by omega)
    · exact ⟨hpos, hcount, hstop, rfl⟩

end Loops

/-! ## The call -/

section Call

variable {sbi : SbInfo} {group : Nat} {grpGoal : Int} {myRsv : Option ReserveWindowNode}

/-- What the range of the search has to do with the group and the window. -/
structure RangeOk (sbi : SbInfo) (group : Nat) (myRsv : Option ReserveWindowNode)
    (range : Nat × Nat × Option Nat) : Prop where
  start_lt : range.1 < sbi.sBlocksPerGroup
  stop_le : range.2.1 ≤ sbi.sBlocksPerGroup
  goal_in : ∀ g, range.2.2 = some g → range.1 ≤ g ∧ g < range.2.1
  in_window : ∀ w, myRsv = some w → ∀ b, range.1 ≤ b → b < range.2.1 →
    w.rsvStart ≤ sbi.groupFirstBlockNo group + b ∧ sbi.groupFirstBlockNo group + b ≤ w.rsvEnd

theorem allocRange_ok (hbpg : 0 < sbi.sBlocksPerGroup) (hgoal : grpGoal < sbi.sBlocksPerGroup)
    (hmeets : ∀ w, myRsv = some w → MeetsGroup sbi w group) :
    RangeOk sbi group myRsv (allocRange sbi group grpGoal myRsv) := by
  cases myRsv with
  | none =>
    refine ⟨?_, le_refl _, fun g hg => ?_, fun w hw => by cases hw⟩
    · simp only [allocRange]
      omega
    · simp only [allocRange] at hg ⊢
      split at hg
      · cases hg
        exact ⟨le_refl _, by omega⟩
      · cases hg
  | some w =>
    obtain ⟨hlow, hhigh⟩ := hmeets w rfl
    unfold groupEndBlock at hlow
    by_cases hin : (((w.rsvStart - sbi.groupFirstBlockNo group : Nat) : Int) ≤ grpGoal &&
        grpGoal < (min (w.rsvEnd - sbi.groupFirstBlockNo group + 1) sbi.sBlocksPerGroup : Nat)) =
          true
    · have hrange : allocRange sbi group grpGoal (some w) = (grpGoal.toNat,
          min (w.rsvEnd - sbi.groupFirstBlockNo group + 1) sbi.sBlocksPerGroup,
          some grpGoal.toNat) := if_pos hin
      simp only [Bool.and_eq_true, decide_eq_true_eq] at hin
      rw [hrange]
      refine ⟨by simp only; omega, min_le_right _ _, fun g hg => ?_, fun v hv b h1 h2 => ?_⟩
      · cases hg
        exact ⟨le_refl _, by simp only; omega⟩
      · cases hv
        simp only at h1 h2
        omega
    · have hrange : allocRange sbi group grpGoal (some w) =
          (w.rsvStart - sbi.groupFirstBlockNo group,
          min (w.rsvEnd - sbi.groupFirstBlockNo group + 1) sbi.sBlocksPerGroup, none) :=
        if_neg hin
      rw [hrange]
      refine ⟨by simp only; omega, min_le_right _ _, fun g hg => (by cases hg), fun v hv b h1 h2 => ?_⟩
      cases hv
      simp only at h1 h2
      omega

/-- What the caller gets: nothing set, or a run of bits of its own in the group and
in the window. -/
def Claims (sbi : SbInfo) (group count : Nat) (myRsv : Option ReserveWindowNode)
    (result : Option Nat × Nat) (own : List Nat) : Prop :=
  match result with
  | (none, n) => n = 0 ∧ own = []
  | (some first, n) => 1 ≤ n ∧ n ≤ count ∧ own = List.range' first n ∧
      first + n ≤ sbi.sBlocksPerGroup ∧
      ∀ w, myRsv = some w → w.rsvStart ≤ sbi.groupFirstBlockNo group + first ∧
        sbi.groupFirstBlockNo group + first + n ≤ w.rsvEnd + 1

theorem krTryToAllocate_ensures {fuel count : Nat} (hbpg : 0 < sbi.sBlocksPerGroup)
    (hgoal : grpGoal < sbi.sBlocksPerGroup) (hcount : 1 ≤ count)
    (hmeets : ∀ w, myRsv = some w → MeetsGroup sbi w group) (hfuel : sbi.sBlocksPerGroup ≤ fuel) :
    (krTryToAllocate sbi fuel group grpGoal count myRsv).Ensures (Claims sbi group count myRsv)
      [] := by
  obtain ⟨hstart, hstop, hin, hwindow⟩ := allocRange_ok hbpg hgoal hmeets
  unfold krTryToAllocate
  generalize allocRange sbi group grpGoal myRsv = range at hstart hstop hin hwindow ⊢
  obtain ⟨start, stop, goal⟩ := range
  simp only at hstart hstop hin hwindow ⊢
  rw [if_neg (by omega)]
  refine Prog.Ensures.bind ((firstGoal_ensures myRsv.isSome hin).mono ?_)
  rintro found own ⟨rfl, hfound⟩
  cases found with
  | none => exact ⟨rfl, rfl⟩
  | some goal =>
    obtain ⟨hge, hlt⟩ := hfound goal rfl
    refine Prog.Ensures.bind ((claimFirst_ensures fuel hlt (by omega)).mono ?_)
    intro found own h
    cases found with
    | none => exact ⟨rfl, h⟩
    | some first =>
      obtain ⟨rfl, hfirst, hfirst'⟩ := h
      refine Prog.Ensures.bind ((claimRun_ensures fuel (le_refl 1) hcount (by omega)
        (by omega)).mono ?_)
      rintro n own ⟨hpos, hle, hend, rfl⟩
      refine ⟨hpos, hle, rfl, by omega, fun w hw => ?_⟩
      have hleft := hwindow w hw first (by omega) (by omega)
      have hright := hwindow w hw (first + n - 1) (by omega) (by omega)
      omega

/-- Under any interference `kr_try_to_allocate` ends. It returns a run of bits each
of which it has itself turned from 0 to 1, inside the group and the window, and no
other bit; or it returns -1 and has set none. -/
theorem krTryToAllocate_interleaved {fuel count : Nat} (hbpg : 0 < sbi.sBlocksPerGroup)
    (hgoal : grpGoal < sbi.sBlocksPerGroup) (hcount : 1 ≤ count)
    (hmeets : ∀ w, myRsv = some w → MeetsGroup sbi w group) (hfuel : sbi.sBlocksPerGroup ≤ fuel)
    {bits : Nat → Bool} {n : Nat} {c : Config Nat (Option Nat × Nat)}
    (run : Run ⟨bits, [], krTryToAllocate sbi fuel group grpGoal count myRsv⟩ n c) :
    n ≤ (krTryToAllocate sbi fuel group grpGoal count myRsv).depth ∧
      ((∃ c', Access c c') ∨
        ∃ result, c.prog = .ret result ∧ Claims sbi group count myRsv result c.own) :=
  (krTryToAllocate_ensures hbpg hgoal hcount hmeets hfuel).sound run

/-- Another thread takes bit 6 before the call claims it; the call claims the next
two bits. -/
theorem krTryToAllocate_interleaved_taken : ∃ c, Run ⟨reserveFs.blockBitmap 0, [],
      krTryToAllocate reserveFs.sbi 16 0 6 2 none⟩ 3 c ∧ c.prog = .ret (some 7, 2) ∧
    Claims reserveFs.sbi 0 2 none (some 7, 2) c.own := by
  let taken : Nat → Bool := fun i => decide (i < 7)
  have asked : Run ⟨reserveFs.blockBitmap 0, [], krTryToAllocate reserveFs.sbi 16 0 6 2 none⟩ 0
      ⟨taken, [], krTryToAllocate reserveFs.sbi 16 0 6 2 none⟩ :=
    Run.start.others taken (fun i hi => absurd hi List.not_mem_nil)
  have missed := asked.access (.taken taken [] 6 _ rfl)
  have first := missed.access (.set taken [] 7 _ rfl)
  have second := first.access (.set _ [7] 8 _ rfl)
  refine ⟨_, second, rfl, ?_⟩
  obtain ⟨-, ⟨c', hmore⟩ | ⟨result, hret, hclaims⟩⟩ := krTryToAllocate_interleaved
    (show 0 < reserveFs.sbi.sBlocksPerGroup by decide) (show (6 : Int) < _ by decide)
    (show 1 ≤ 2 by decide) (fun w hw => by cases hw) (show _ ≤ 16 by decide) second
  · cases hmore
  · cases hret
    exact hclaims

end Call

/-! ## The call with no other thread -/

section Alone

variable (bm : Nat → Bool)

theorem scanZero_alone (n : Nat) : ∀ i, (scanZero n i).alone bm = some (firstClear bm n i, bm) := by
  induction n with
  | zero => exact fun i => rfl
  | succ n ih =>
    intro i
    simp only [scanZero, Prog.alone, firstClear]
    split
    · exact ih (i + 1)
    · rfl

theorem findNextZeroBit_alone (size off : Nat) :
    (findNextZeroBit size off).alone bm = some (nextZero bm size off, bm) := by
  unfold findNextZeroBit nextZero
  split
  · exact scanZero_alone bm _ _
  · rfl

theorem memscanZero_alone (n : Nat) : ∀ i,
    (memscanZero n i).alone bm = some (KrFs.memscanZero bm n i, bm) := by
  induction n with
  | zero => exact fun i => rfl
  | succ n ih =>
    intro i
    simp only [memscanZero, Prog.alone, KrFs.memscanZero]
    split
    · rfl
    · exact ih (i + 1)

theorem bitmapSearchNextUsableBlock_alone (start maxblocks : Nat) :
    (bitmapSearchNextUsableBlock start maxblocks).alone bm =
      some (KrFs.bitmapSearchNextUsableBlock start bm maxblocks, bm) := by
  rw [bitmapSearchNextUsableBlock, Prog.alone_bind, findNextZeroBit_alone]
  rfl

theorem findNextUsableBlock_alone (start maxblocks : Nat) :
    (findNextUsableBlock start maxblocks).alone bm =
      some (KrFs.findNextUsableBlock start bm maxblocks, bm) := by
  have hbehind : ((memscanZero ((maxblocks + 7) / 8 - start / 8) (start / 8)).bind fun r =>
      if r * 8 < maxblocks && start ≤ r * 8 then Prog.ret (some (r * 8))
      else bitmapSearchNextUsableBlock start maxblocks).alone bm =
        some (let next := KrFs.memscanZero bm ((maxblocks + 7) / 8 - start / 8) (start / 8) * 8
          if next < maxblocks && start ≤ next then some next
          else KrFs.bitmapSearchNextUsableBlock start bm maxblocks, bm) := by
    rw [Prog.alone_bind, memscanZero_alone, Option.bind_some]
    dsimp only
    split
    · rfl
    · exact bitmapSearchNextUsableBlock_alone bm start maxblocks
  unfold findNextUsableBlock KrFs.findNextUsableBlock
  dsimp only [Int.toNat_natCast]
  by_cases hstart : 0 < start
  · have hpos : (0 : Int) < start := by omega
    rw [if_pos hstart, Prog.alone_bind, findNextZeroBit_alone, Option.bind_some]
    by_cases hnear : nextZero bm (min ((start + 63) / 64 * 64) maxblocks) start <
        min ((start + 63) / 64 * 64) maxblocks
    · simp only [hnear, hpos, decide_true, Bool.and_true, if_true, Prog.alone]
    · simp only [hnear, decide_false, Bool.and_false, Bool.false_eq_true, if_false]
      exact hbehind
  · have hzero : ¬ (0 : Int) < start := by omega
    rw [if_neg hstart]
    simp only [hzero, decide_false, Bool.false_and, Bool.false_eq_true, if_false]
    exact hbehind

theorem backUp_alone (start : Nat) (n : Nat) : ∀ grpGoal,
    (backUp start n grpGoal).alone bm = some (KrFs.backUp bm start n grpGoal, bm) := by
  induction n with
  | zero => exact fun grpGoal => rfl
  | succ n ih =>
    intro grpGoal
    by_cases hlt : start < grpGoal
    · by_cases hset : bm (grpGoal - 1) = true
      · simp [backUp, KrFs.backUp, hlt, hset, Prog.alone]
      · simp [backUp, KrFs.backUp, hlt, hset, Prog.alone, ih]
    · simp [backUp, KrFs.backUp, hlt, Prog.alone]

/-- Setting one bit more. -/
theorem update_setBits (first num : Nat) :
    Function.update (setBits bm first num) (first + num) true = setBits bm first (num + 1) := by
  funext i
  by_cases hi : i = first + num
  · subst hi
    simp [setBits]
  · rw [Function.update_of_ne hi]
    have hiff : (first ≤ i ∧ i < first + num) ↔ (first ≤ i ∧ i < first + (num + 1)) := by omega
    simp only [setBits, ← Bool.decide_and, hiff]

theorem claimFirst_alone {stop : Nat} (fuel : Nat) : ∀ {grpGoal}, grpGoal < stop →
    ∀ k, stop - grpGoal ≤ fuel → stop - grpGoal ≤ k →
    (claimFirst stop fuel grpGoal).alone bm =
      some (KrFs.claimFirst bm stop k grpGoal, match KrFs.claimFirst bm stop k grpGoal with
        | none => bm
        | some first => setBits bm first 1) := by
  induction fuel with
  | zero => omega
  | succ fuel ih =>
    intro grpGoal hlt k hfuel hk
    obtain ⟨k, rfl⟩ : ∃ m, k = m + 1 := ⟨k - 1, by omega⟩
    by_cases hset : bm grpGoal = true
    · by_cases hend : stop ≤ grpGoal + 1
      · simp [claimFirst, KrFs.claimFirst, Prog.alone, hset, hend]
      · simp only [claimFirst, KrFs.claimFirst, Prog.alone, hset, if_true, if_neg hend]
        exact ih (by omega) k (by omega) (by omega)
    · have hone : Function.update bm grpGoal true = setBits bm grpGoal 1 := by
        have h := update_setBits bm grpGoal 0
        rwa [show setBits bm grpGoal 0 = bm by funext i; simp [setBits]] at h
      simp [claimFirst, KrFs.claimFirst, Prog.alone, hset, hone]

theorem claimRun_alone {count stop first : Nat} (fuel : Nat) : ∀ {num : Nat} (k : Nat),
    first + num ≤ stop → stop - (first + num) < fuel → stop - (first + num) ≤ k →
    (claimRun count stop fuel (first + num) num).alone (setBits bm first num) =
      some (KrFs.claimRun bm count stop k (first + num) num,
        setBits bm first (KrFs.claimRun bm count stop k (first + num) num)) := by
  induction fuel with
  | zero => omega
  | succ fuel ih =>
    intro num k hstop hfuel hk
    have hbit : setBits bm first num (first + num) = bm (first + num) := by simp [setBits]
    by_cases hmore : num < count ∧ first + num < stop
    · obtain ⟨k, rfl⟩ : ∃ m, k = m + 1 := ⟨k - 1, by omega⟩
      by_cases hset : bm (first + num) = true
      · simp [claimRun, KrFs.claimRun, Prog.alone, hmore, hbit, hset]
      · simp only [claimRun, KrFs.claimRun, Prog.alone, hmore, hbit, hset, update_setBits,
          decide_true, Bool.and_true, Bool.not_false, if_true, Bool.false_eq_true, if_false]
        exact @ih (num + 1) k (by omega) (by omega) (by omega)
    · have hend : KrFs.claimRun bm count stop k (first + num) num = num := by
        cases k with
        | zero => rfl
        | succ k =>
          simp only [KrFs.claimRun]
          rw [if_neg]
          simp only [Bool.and_eq_true, decide_eq_true_eq, not_and] at hmore ⊢
          exact fun h => absurd h.2 (hmore h.1)
      have hguard : ¬ (num < count && first + num < stop) = true := by
        simpa only [Bool.and_eq_true, decide_eq_true_eq] using hmore
      rw [hend, claimRun, if_neg hguard]
      rfl

/-- The goal at the first test-and-set of the sequential model. -/
def goalFound (start stop : Nat) (myRsv : Option ReserveWindowNode) : Option Nat → Option Nat
  | some goal => some goal
  | none => (KrFs.findNextUsableBlock start bm stop).map fun goal =>
      if myRsv.isNone then KrFs.backUp bm start 7 goal else goal

theorem firstGoal_alone (start stop : Nat) (myRsv : Option ReserveWindowNode) (goal : Option Nat) :
    (firstGoal start stop myRsv.isSome goal).alone bm =
      some (goalFound bm start stop myRsv goal, bm) := by
  cases goal with
  | some g => rfl
  | none =>
    rw [firstGoal, Prog.alone_bind, findNextUsableBlock_alone, Option.bind_some, goalFound]
    cases KrFs.findNextUsableBlock start bm stop with
    | none => rfl
    | some b =>
      cases myRsv with
      | some w => rfl
      | none =>
        have hback := backUp_alone bm start 7 b
        simp only [Option.isSome_none, Bool.false_eq_true, if_false, Prog.alone_bind, hback,
          Option.bind_some, Prog.alone, Option.isNone_none, if_true, Option.map_some]

/-- With no other thread the call does what the sequential model does. -/
theorem krTryToAllocate_alone {sbi : SbInfo} {group fuel count : Nat} {grpGoal : Int}
    {myRsv : Option ReserveWindowNode} (hbpg : 0 < sbi.sBlocksPerGroup)
    (hgoal : grpGoal < sbi.sBlocksPerGroup)
    (hmeets : ∀ w, myRsv = some w → MeetsGroup sbi w group) (hfuel : sbi.sBlocksPerGroup ≤ fuel)
    {bm' : Nat → Bool} {result : Option Nat × Nat}
    (h : KrFs.krTryToAllocate sbi group bm grpGoal count myRsv = .done (bm', result)) :
    (krTryToAllocate sbi fuel group grpGoal count myRsv).alone bm = some (result, bm') := by
  obtain ⟨hstart, hstop, hin, -⟩ := allocRange_ok hbpg hgoal hmeets
  unfold KrFs.krTryToAllocate at h
  unfold krTryToAllocate
  generalize allocRange sbi group grpGoal myRsv = range at h hstart hstop hin ⊢
  obtain ⟨start, stop, goal⟩ := range
  simp only at h hstart hstop hin ⊢
  rw [if_neg (by omega)] at h ⊢
  have hfirst := firstGoal_alone bm start stop myRsv goal
  obtain ⟨own, -, hrange⟩ := (firstGoal_ensures myRsv.isSome hin).of_alone hfirst
  rw [Prog.alone_bind, hfirst, Option.bind_some]
  dsimp only at hrange ⊢
  change (match (goalFound bm start stop myRsv goal).bind fun goal =>
      KrFs.claimFirst bm stop (stop - goal + 1) goal with
    | none => Exec.done (bm, none, 0)
    | some first => .done (setBits bm first
        (KrFs.claimRun bm count stop (stop - first) (first + 1) 1), some first,
        KrFs.claimRun bm count stop (stop - first) (first + 1) 1)) = _ at h
  generalize goalFound bm start stop myRsv goal = found at h hrange ⊢
  cases found with
  | none =>
    cases h
    rfl
  | some goal =>
    obtain ⟨hge, hlt⟩ := hrange goal rfl
    have hclaim := claimFirst_alone bm fuel hlt (stop - goal + 1) (by omega) (by omega)
    simp only [Option.bind_some] at h
    rw [Prog.alone_bind, hclaim, Option.bind_some]
    cases hgot : KrFs.claimFirst bm stop (stop - goal + 1) goal with
    | none =>
      simp only [hgot] at h
      cases h
      rfl
    | some first =>
      simp only [hgot] at h
      cases h
      obtain ⟨own', hown⟩ := (claimFirst_ensures fuel hlt (by omega)).of_alone hclaim
      simp only [hgot] at hown
      have hrun := @claimRun_alone bm count stop first fuel 1 (stop - first) (by omega) (by omega)
        (by omega)
      rw [Prog.alone_bind, hrun]
      rfl

end Alone

end KrFs.Interleaved
