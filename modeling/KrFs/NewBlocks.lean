import KrFs.BlockOwner

/-!
# Allocating blocks

`kr_new_blocks` from the bit search of one group up to the accounting. Whatever
window, goal and count it starts with, it hands out one run of clear bits of one
group or leaves everything but the reservations as it was. On a state in which
the counts agree this moves the run into the possession of the inode.
-/

namespace KrFs

open SearchTree Bitmap

/-! ## `kr_try_to_allocate` -/

theorem claimFirst_some {bm : Nat → Bool} {stop p : Nat} (n : Nat) : ∀ {goal : Nat},
    claimFirst bm stop n goal = some p →
    bm p = false ∧ goal ≤ p ∧ (goal < stop → p < stop) := by
  induction n with
  | zero =>
    intro goal h
    simp [claimFirst] at h
  | succ n ih =>
    intro goal h
    unfold claimFirst at h
    by_cases hset : bm goal = true
    · by_cases hend : stop ≤ goal + 1
      · simp [hset, hend] at h
      · simp only [hset, hend, if_true, if_false] at h
        obtain ⟨hclear, hge, hlt⟩ := ih h
        exact ⟨hclear, by omega, fun _ => hlt (by omega)⟩
    · rw [if_neg hset, Option.some.injEq] at h
      subst h
      exact ⟨by simpa using hset, le_refl _, fun hlt => hlt⟩

theorem claimRun_spec (bm : Nat → Bool) (count stop n : Nat) : ∀ goal num : Nat,
    num ≤ claimRun bm count stop n goal num ∧
      claimRun bm count stop n goal num ≤ max num count ∧
      (goal ≤ stop → goal + (claimRun bm count stop n goal num - num) ≤ stop) ∧
      ∀ i, goal ≤ i → i < goal + (claimRun bm count stop n goal num - num) → bm i = false := by
  induction n with
  | zero =>
    intro goal num
    simp only [claimRun, Nat.sub_self]
    exact ⟨le_refl _, le_max_left _ _, by omega, by omega⟩
  | succ n ih =>
    intro goal num
    unfold claimRun
    by_cases hgo : (num < count && goal < stop && !bm goal) = true
    · simp only [hgo, if_true]
      simp only [Bool.and_eq_true, decide_eq_true_eq, Bool.not_eq_true'] at hgo
      obtain ⟨hge, hle, hstop, hclear⟩ := ih (goal + 1) (num + 1)
      refine ⟨by omega, by omega, by omega, ?_⟩
      intro i h1 h2
      by_cases hi : i = goal
      · rw [hi]
        exact hgo.2
      · exact hclear i (by omega) (by omega)
    · rw [if_neg hgo, Nat.sub_self]
      exact ⟨le_refl _, le_max_left _ _, by omega, by omega⟩

theorem findNextUsableBlock_lt {start : Int} {bm : Nat → Bool} {maxblocks p : Nat}
    (h : findNextUsableBlock start bm maxblocks = some p) : p < maxblocks := by
  unfold findNextUsableBlock at h
  dsimp only at h
  split at h
  · rename_i hnear
    simp only [Bool.and_eq_true, decide_eq_true_eq] at hnear
    cases h
    omega
  · split at h
    · rename_i hnext
      simp only [Bool.and_eq_true, decide_eq_true_eq] at hnext
      cases h
      omega
    · exact (bitmapSearchNextUsableBlock_some h).2.1

theorem backUp_le (bm : Nat → Bool) (start n : Nat) : ∀ goal, backUp bm start n goal ≤ goal := by
  induction n with
  | zero =>
    intro goal
    exact le_refl _
  | succ n ih =>
    intro goal
    unfold backUp
    split
    · exact (ih _).trans (Nat.sub_le _ _)
    · exact le_refl _

/-- What a call that found blocks in a group has done to the bitmap. -/
structure ClaimedRun (bpg : Nat) (bm bm' : Nat → Bool) (first num count : Nat) : Prop where
  bits : bm' = setBits bm first num
  pos : 1 ≤ num
  le : num ≤ max 1 count
  inside : first + num ≤ bpg
  clear : ∀ i, first ≤ i → i < first + num → bm i = false

theorem allocRange_spec (sbi : SbInfo) (group : Nat) {grpGoal : Int}
    (hgoal : grpGoal < sbi.sBlocksPerGroup) (myRsv : Option ReserveWindowNode) :
    (allocRange sbi group grpGoal myRsv).2.1 ≤ sbi.sBlocksPerGroup ∧
      ∀ goal, (allocRange sbi group grpGoal myRsv).2.2 = some goal →
        goal < (allocRange sbi group grpGoal myRsv).2.1 := by
  cases myRsv with
  | none =>
    simp only [allocRange]
    refine ⟨le_refl _, fun goal h => ?_⟩
    split at h
    · cases h
      omega
    · cases h
  | some w =>
    simp only [allocRange]
    split
    · rename_i hin
      simp only [Bool.and_eq_true, decide_eq_true_eq] at hin
      refine ⟨min_le_right _ _, fun goal h => ?_⟩
      cases h
      dsimp only
      omega
    · exact ⟨min_le_right _ _, fun goal h => by cases h⟩

theorem krTryToAllocate_spec {sbi : SbInfo} {group : Nat} {bm bm' : Nat → Bool} {grpGoal : Int}
    {count num : Nat} {myRsv : Option ReserveWindowNode} {found : Option Nat}
    (hgoal : grpGoal < sbi.sBlocksPerGroup)
    (h : krTryToAllocate sbi group bm grpGoal count myRsv = .done (bm', found, num)) :
    (found = none ∧ bm' = bm ∧ num = 0) ∨
      ∃ first, found = some first ∧ ClaimedRun sbi.sBlocksPerGroup bm bm' first num count := by
  obtain ⟨hstop, hlt⟩ := allocRange_spec sbi group hgoal myRsv
  unfold krTryToAllocate at h
  dsimp only at h
  generalize allocRange sbi group grpGoal myRsv = range at h hstop hlt
  obtain ⟨start, stop, goal⟩ := range
  dsimp only at h hstop hlt
  split at h
  · cases h
  split at h
  · cases h
    exact Or.inl ⟨rfl, rfl, rfl⟩
  · rename_i first hclaim
    simp only [Exec.done.injEq, Prod.mk.injEq] at h
    obtain ⟨rfl, rfl, hnum⟩ := h
    obtain ⟨g, hg, hfirst⟩ := Option.bind_eq_some_iff.mp hclaim
    -- whichever way the goal was found, it lies before the end of the range
    have hgstop : g < stop := by
      cases goal with
      | some goal =>
        cases hg
        exact hlt _ rfl
      | none =>
        obtain ⟨p, hp, rfl⟩ := Option.map_eq_some_iff.mp hg
        have hpl := findNextUsableBlock_lt hp
        split
        · exact lt_of_le_of_lt (backUp_le _ _ _ _) hpl
        · exact hpl
    obtain ⟨hclear, -, hfs⟩ := claimFirst_some _ hfirst
    obtain ⟨hge, hle, hend, hrest⟩ := claimRun_spec bm count stop (stop - first) (first + 1) 1
    have hfs := hfs hgstop
    rw [hnum] at hge hle hend hrest
    refine Or.inr ⟨first, rfl, by rw [hnum], hge, by omega, by omega, ?_⟩
    intro i h1 h2
    by_cases hi : i = first
    · rw [hi]
      exact hclear
    · exact hrest i (by omega) (by omega)

/-- The request an inode is working on keeps its count and a goal inside the
group. -/
def PhaseRequest (bpg count : Nat) : RsvPhase → Prop
  | .idle => True
  | .loop req _ => req.count = count ∧ req.grpGoal < bpg
  | .reserve req _ _ => req.count = count ∧ req.grpGoal < bpg
  | .inspect req => req.count = count ∧ req.grpGoal < bpg
  | .giveUp => True
  | .extend req _ => req.count = count ∧ req.grpGoal < bpg
  | .allocate req => req.count = count ∧ req.grpGoal < bpg
  | .bug => True

theorem threadStep_request (ops : Rebalance Window) (sbi : SbInfo) (r : Rsv) (me : Window)
    (answer : RsvAnswer) {bpg count : Nat} (phase : RsvPhase) (h : PhaseRequest bpg count phase) :
    PhaseRequest bpg count (threadStep ops sbi r me answer phase).2 := by
  cases phase with
  | idle => trivial
  | loop req failed =>
    simp only [threadStep, loopHead]
    split
    · split
      · trivial
      · exact h
    · split
      · split
        · exact h
        · exact h
      · exact h
  | reserve req startBlock again =>
    simp only [threadStep]
    split
    · exact h
    · trivial
    · trivial
  | inspect req =>
    simp only [threadStep, inspectWindow]
    split
    · trivial
    · split
      · split
        · exact ⟨h.1, by dsimp only; omega⟩
        · exact h
      · exact h
  | giveUp => trivial
  | extend req size => exact h
  | allocate req =>
    simp only [threadStep, allocateInWindow]
    split
    · trivial
    · split
      · trivial
      · exact h
  | bug => trivial

/-- With a window the bitmap changes only by the run that is handed out. -/
theorem withRsvRun_spec (ops : Rebalance Window) {sbi : SbInfo} {me : Window} {bm bm' : Nat → Bool}
    {r' : Rsv} {found : Option (Nat × Nat)} {count : Nat} (fuel : Nat) :
    ∀ {r : Rsv} {phase : RsvPhase}, PhaseRequest sbi.sBlocksPerGroup count phase →
    withRsvRun ops sbi me bm fuel r phase = .done (r', bm', found) →
    (found = none ∧ bm' = bm) ∨ ∃ first num, found = some (first, num) ∧
      ClaimedRun sbi.sBlocksPerGroup bm bm' first num count := by
  induction fuel with
  | zero =>
    intro r phase _ h
    simp [withRsvRun] at h
  | succ fuel ih =>
    intro r phase hreq h
    have step : ∀ {phase' : RsvPhase}, withRsvRun ops sbi me bm (fuel + 1) r phase' =
        withRsvRun ops sbi me bm fuel (threadStep ops sbi r me ⟨bm, true, none⟩ phase').1
          (threadStep ops sbi r me ⟨bm, true, none⟩ phase').2 →
        PhaseRequest sbi.sBlocksPerGroup count phase' →
        withRsvRun ops sbi me bm (fuel + 1) r phase' = .done (r', bm', found) →
        (found = none ∧ bm' = bm) ∨ ∃ first num, found = some (first, num) ∧
          ClaimedRun sbi.sBlocksPerGroup bm bm' first num count := by
      intro phase' heq hreq' h'
      rw [heq] at h'
      exact ih (threadStep_request ops sbi r me _ phase' hreq') h'
    cases phase with
    | idle =>
      simp only [withRsvRun, Exec.done.injEq, Prod.mk.injEq] at h
      exact Or.inl ⟨h.2.2.symm, h.2.1.symm⟩
    | bug => simp [withRsvRun] at h
    | loop req failed => exact step rfl hreq h
    | reserve req startBlock again => exact step rfl hreq h
    | inspect req => exact step rfl hreq h
    | giveUp => exact step rfl hreq h
    | extend req size => exact step rfl hreq h
    | allocate req =>
      simp only [withRsvRun] at h
      split at h
      · cases h
      · cases htry : krTryToAllocate sbi req.group bm req.grpGoal req.count (some (r.win me)) with
        | bug => simp [htry, Exec.bind] at h
        | running => simp [htry, Exec.bind] at h
        | done res =>
          obtain ⟨bm1, found1, num⟩ := res
          simp only [htry, Exec.bind] at h
          rcases krTryToAllocate_spec hreq.2 htry with ⟨rfl, rfl, rfl⟩ | ⟨first, rfl, hrun⟩
          · have hloop : PhaseRequest sbi.sBlocksPerGroup count (.loop req true) := hreq
            exact ih hloop h
          · simp only [Exec.done.injEq, Prod.mk.injEq] at h
            obtain ⟨-, rfl, rfl⟩ := h
            rw [hreq.1] at hrun
            exact Or.inr ⟨first, num, rfl, hrun⟩

/-! ## `kr_new_blocks` -/

section New

variable (ops : Rebalance Window) (env : AllocEnv) (ino fuel : Nat) {fs fs' : Fs}

/-- A failed search changes reservations only. -/
def SameButRsv (fs fs' : Fs) : Prop := fs' = { fs with rsv := fs'.rsv }

/-- A successful search has set a run of clear bits of one group. -/
structure Claimed (fs fs' : Fs) (group first num count : Nat) : Prop where
  state : fs' = { fs with
    rsv := fs'.rsv
    blockBitmap := Function.update fs.blockBitmap group (fs'.blockBitmap group) }
  group_lt : group < fs.sbi.sGroupsCount
  run : ClaimedRun fs.sbi.sBlocksPerGroup (fs.blockBitmap group) (fs'.blockBitmap group)
    first num count

theorem SameButRsv.claimed {fs1 : Fs} {group first num count : Nat} (h1 : SameButRsv fs fs1)
    (h2 : Claimed fs1 fs' group first num count) : Claimed fs fs' group first num count := by
  obtain ⟨hstate, hlt, hrun⟩ := h2
  rw [h1] at hstate hlt hrun
  exact ⟨hstate, hlt, hrun⟩

theorem SameButRsv.trans {fs1 : Fs} (h1 : SameButRsv fs fs1) (h2 : SameButRsv fs1 fs') :
    SameButRsv fs fs' := by
  unfold SameButRsv at *
  rw [h2, h1]

theorem Claimed.mono {group first num count count' : Nat}
    (h : Claimed fs fs' group first num count) (hle : count ≤ count') :
    Claimed fs fs' group first num count' :=
  ⟨h.state, h.group_lt, h.run.bits, h.run.pos, by have := h.run.le; omega, h.run.inside,
    h.run.clear⟩

theorem tryGroup_spec {useRsv : Bool} {group : Nat} {grpGoal : Int} {num num' : Nat}
    {found : Option Nat} (hgroup : group < fs.sbi.sGroupsCount)
    (hgoal : grpGoal < fs.sbi.sBlocksPerGroup)
    (h : tryGroup ops ino fuel fs useRsv group grpGoal num = .done (fs', found, num')) :
    (found = none ∧ SameButRsv fs fs' ∧ num' ≤ num) ∨
      ∃ first, found = some first ∧ Claimed fs fs' group first num' num := by
  unfold tryGroup at h
  dsimp only at h
  cases useRsv with
  | true =>
    rw [if_pos rfl] at h
    cases hrun : withRsvRun ops fs.sbi (.inode ino) (fs.blockBitmap group) fuel fs.rsv
        (.loop ⟨group, grpGoal, num⟩ false) with
    | bug => simp [hrun, Exec.bind] at h
    | running => simp [hrun, Exec.bind] at h
    | done res =>
      obtain ⟨rsv, bm', found'⟩ := res
      simp only [hrun, Exec.bind] at h
      have hreq : PhaseRequest fs.sbi.sBlocksPerGroup num (.loop ⟨group, grpGoal, num⟩ false) :=
        ⟨rfl, hgoal⟩
      rcases withRsvRun_spec ops fuel hreq hrun with
        ⟨rfl, rfl⟩ | ⟨first, num1, rfl, hclaim⟩
      · simp only [Exec.done.injEq, Prod.mk.injEq, Function.update_eq_self] at h
        obtain ⟨rfl, rfl, rfl⟩ := h
        exact Or.inl ⟨rfl, rfl, le_refl _⟩
      · simp only [Exec.done.injEq, Prod.mk.injEq] at h
        obtain ⟨rfl, rfl, rfl⟩ := h
        refine Or.inr ⟨first, rfl, ?_, hgroup, ?_⟩
        · simp
        · simpa using hclaim
  | false =>
    rw [if_neg (by simp)] at h
    cases htry : krTryToAllocate fs.sbi group (fs.blockBitmap group) grpGoal num none with
    | bug => simp [htry, Exec.bind] at h
    | running => simp [htry, Exec.bind] at h
    | done res =>
      obtain ⟨bm', found', num1⟩ := res
      simp only [htry, Exec.bind, Exec.done.injEq, Prod.mk.injEq] at h
      obtain ⟨rfl, rfl, rfl⟩ := h
      rcases krTryToAllocate_spec hgoal htry with ⟨rfl, rfl, rfl⟩ | ⟨first, rfl, hclaim⟩
      · exact Or.inl ⟨rfl, by simp [SameButRsv], Nat.zero_le _⟩
      · refine Or.inr ⟨first, rfl, ?_, hgroup, ?_⟩
        · simp
        · simpa using hclaim

/-- What a search over the groups leaves, for a request of `count` blocks. -/
def SearchOk (fs fs' : Fs) (count : Nat) : GroupSearch → Prop
  | .found group first num => Claimed fs fs' group first num count
  | .missed num => SameButRsv fs fs' ∧ num ≤ count
  | .ioError => SameButRsv fs fs'

theorem SearchOk.of_same {fs1 : Fs} {count count' : Nat} {result : GroupSearch}
    (h1 : SameButRsv fs fs1) (hle : count' ≤ count) (h2 : SearchOk fs1 fs' count' result) :
    SearchOk fs fs' count result := by
  cases result with
  | found group first num => exact (h1.claimed h2).mono hle
  | missed num => exact ⟨h1.trans h2.1, h2.2.trans hle⟩
  | ioError => exact h1.trans h2

/-- A group that is tried and, when nothing is found there, a search that goes on. -/
theorem tryGroup_then {useRsv : Bool} {group num : Nat} {grpGoal : Int} {result : GroupSearch}
    (next : Fs → Nat → Exec (Fs × GroupSearch)) (hgroup : group < fs.sbi.sGroupsCount)
    (hgoal : grpGoal < fs.sbi.sBlocksPerGroup)
    (hnext : ∀ {fs1 num1}, next fs1 num1 = .done (fs', result) → SearchOk fs1 fs' num1 result)
    (h : (tryGroup ops ino fuel fs useRsv group grpGoal num).bind (fun (fs, found, num) =>
      match found with
      | some first => .done (fs, .found group first num)
      | none => next fs num) = .done (fs', result)) : SearchOk fs fs' num result := by
  cases htry : tryGroup ops ino fuel fs useRsv group grpGoal num with
  | bug => simp [htry, Exec.bind] at h
  | running => simp [htry, Exec.bind] at h
  | done res =>
    obtain ⟨fs1, found, num1⟩ := res
    simp only [htry, Exec.bind] at h
    rcases tryGroup_spec ops ino fuel hgroup hgoal htry with
      ⟨rfl, hsame, hnum⟩ | ⟨first, rfl, hclaim⟩
    · exact SearchOk.of_same hsame hnum (hnext h)
    · simp only [Exec.done.injEq, Prod.mk.injEq] at h
      obtain ⟨rfl, rfl⟩ := h
      exact hclaim

theorem searchGroups_spec {useRsv : Bool} {windowsz : Nat} {result : GroupSearch} (n : Nat) :
    ∀ {fs : Fs} {groupNo num : Nat},
    searchGroups ops env ino fuel useRsv windowsz n fs groupNo num = .done (fs', result) →
    SearchOk fs fs' num result := by
  induction n with
  | zero =>
    intro fs groupNo num h
    simp only [searchGroups, Exec.done.injEq, Prod.mk.injEq] at h
    obtain ⟨rfl, rfl⟩ := h
    exact ⟨rfl, le_refl _⟩
  | succ n ih =>
    intro fs groupNo num h
    simp only [searchGroups] at h
    generalize (if fs.sbi.sGroupsCount ≤ groupNo + 1 then 0 else groupNo + 1) = group at h
    split at h
    · cases h
      exact rfl
    · rename_i gdp hdesc
      split at h
      · exact ih h
      split at h
      · exact ih h
      split at h
      · cases h
        exact rfl
      · have hgoal : (-1 : Int) < fs.sbi.sBlocksPerGroup := by omega
        exact tryGroup_then ops ino fuel
          (fun fs num => searchGroups ops env ino fuel useRsv windowsz n fs group num)
          (Fs.groupDesc_some hdesc).1 hgoal ih h

theorem searchFrom_spec {goal groupNo : Nat} {useRsv : Bool} {windowsz num : Nat}
    {result : GroupSearch} (hbpg : 0 < fs.sbi.sBlocksPerGroup)
    (h : searchFrom ops env ino fuel fs goal groupNo useRsv windowsz num = .done (fs', result)) :
    SearchOk fs fs' num result := by
  unfold searchFrom at h
  split at h
  · cases h
    exact rfl
  · rename_i gdp hdesc
    split at h
    · exact searchGroups_spec ops env ino fuel _ h
    split at h
    · cases h
      exact rfl
    · have hgoal : (((goal - fs.sbi.sEs.sFirstDataBlock.toNat) % fs.sbi.sBlocksPerGroup : Nat) :
          Int) < fs.sbi.sBlocksPerGroup := by
        exact_mod_cast Nat.mod_lt _ hbpg
      exact tryGroup_then ops ino fuel
        (fun fs num => searchGroups ops env ino fuel useRsv windowsz fs.sbi.sGroupsCount fs
          groupNo num)
        (Fs.groupDesc_some hdesc).1 hgoal (fun h => searchGroups_spec ops env ino fuel _ h) h

variable {reserved : Nat → Prop} {owned : Nat → Multiset Nat} {extra : Nat → Int}

/-- The found run is free of reserved blocks. -/
theorem Fs.Owned.unreserved (h : fs.Owned reserved owned extra) {group first num : Nat}
    (hgroup : group < fs.sbi.sGroupsCount) (hinside : first + num ≤ fs.sbi.sBlocksPerGroup)
    (hclear : ∀ i, first ≤ i → i < first + num → fs.blockBitmap group i = false) {b : Nat}
    (hlow : fs.sbi.groupFirstBlockNo group + first ≤ b)
    (hhigh : b < fs.sbi.groupFirstBlockNo group + first + num) : ¬ reserved b := by
  have hbit := hclear (b - fs.sbi.groupFirstBlockNo group) (by omega) (by omega)
  have hiff := h.bit_iff group hgroup (b - fs.sbi.groupFirstBlockNo group) (by omega)
  rw [hbit, Nat.add_sub_cancel' (by omega)] at hiff
  intro hres
  exact absurd (hiff.mpr (Or.inl hres)) (by simp)

/-- The metadata of every group and the bits past the end of the image are marked
in use. -/
structure Fs.SystemSet (fs : Fs) : Prop where
  bpg_pos : 0 < fs.sbi.sBlocksPerGroup
  system : ∀ g < fs.sbi.sGroupsCount, ∀ i < fs.sbi.sBlocksPerGroup,
    SystemBlock fs.sbi (fs.desc g) (fs.sbi.groupFirstBlockNo g + i) → fs.blockBitmap g i = true
  padding : ∀ g < fs.sbi.sGroupsCount, ∀ i < fs.sbi.sBlocksPerGroup,
    fs.sbi.sEs.sBlocksCount.toNat ≤ fs.sbi.groupFirstBlockNo g + i → fs.blockBitmap g i = true

theorem Fs.Owned.systemSet (h : fs.Owned reserved owned extra) : fs.SystemSet where
  bpg_pos := h.geometry.bpg_pos
  system g hg i hi hs := (h.bit_iff g hg i hi).mpr (Or.inl (h.system g hg _ hs))
  padding g hg i hi hp := (h.bit_iff g hg i hi).mpr (Or.inl (h.padding _ hp))

/-- A run of clear bits passes both checks `kr_new_blocks` makes of it. -/
theorem Fs.SystemSet.run_ok (h : fs.SystemSet) {group first num : Nat}
    (hgroup : group < fs.sbi.sGroupsCount) (hnum : 1 ≤ num)
    (hinside : first + num ≤ fs.sbi.sBlocksPerGroup)
    (hclear : ∀ i, first ≤ i → i < first + num → fs.blockBitmap group i = false) :
    inSystemZone fs.sbi (fs.desc group) (fs.sbi.groupFirstBlockNo group + first) num = false ∧
      fs.sbi.groupFirstBlockNo group + first + num ≤ fs.sbi.sEs.sBlocksCount.toNat := by
  constructor
  · refine inSystemZone_eq_false hnum fun b h1 h2 hs => ?_
    have hset := h.system group hgroup (b - fs.sbi.groupFirstBlockNo group) (by omega)
      (by rwa [Nat.add_sub_cancel' (by omega)])
    rw [hclear _ (by omega) (by omega)] at hset
    cases hset
  · by_contra hlt
    have hset := h.padding group hgroup (first + num - 1) (by omega) (by omega)
    rw [hclear _ (by omega) (by omega)] at hset
    cases hset

/-- The outcome of the loop at `retry_alloc`. -/
def RetryOk (fs fs' : Fs) (count : Nat) : Except (Errno × Bool) (Nat × Nat × Nat) → Prop
  | .error (_, performed) => performed = false ∧ SameButRsv fs fs'
  | .ok (group, retBlock, num) => ∃ first, retBlock = fs.sbi.groupFirstBlockNo group + first ∧
      Claimed fs fs' group first num count

theorem retryAlloc_spec (h : fs.SystemSet) {goal goalGroup count : Nat}
    {result : Except (Errno × Bool) (Nat × Nat × Nat)} (rounds : Nat) :
    ∀ {fs1 : Fs} {charge : Int} {groupNo : Nat} {useRsv : Bool} {windowsz num : Nat},
    SameButRsv (fs.chargeBlocks ino charge) fs1 → num ≤ count →
    retryAlloc ops env ino fuel goal goalGroup rounds fs1 groupNo useRsv windowsz num =
      .done (fs', result) →
    RetryOk (fs.chargeBlocks ino charge) fs' count result := by
  induction rounds with
  | zero =>
    intro fs1 charge groupNo useRsv windowsz num _ _ hrun
    simp [retryAlloc] at hrun
  | succ rounds ih =>
    intro fs1 charge groupNo useRsv windowsz num hsame hnum hrun
    unfold retryAlloc at hrun
    dsimp only at hrun
    cases hsearch : searchFrom ops env ino fuel fs1 goal groupNo
        (keepRsv ino fs1 groupNo useRsv windowsz) windowsz num with
    | bug => simp [hsearch, Exec.bind] at hrun
    | running => simp [hsearch, Exec.bind] at hrun
    | done res =>
      obtain ⟨fs2, found⟩ := res
      simp only [hsearch, Exec.bind] at hrun
      have hbpg : 0 < fs1.sbi.sBlocksPerGroup := by
        rw [hsame]
        exact h.bpg_pos
      have hok := SearchOk.of_same hsame hnum (searchFrom_spec ops env ino fuel hbpg hsearch)
      cases found with
      | ioError =>
        simp only [Exec.done.injEq, Prod.mk.injEq] at hrun
        obtain ⟨rfl, rfl⟩ := hrun
        exact ⟨rfl, hok⟩
      | missed num' =>
        dsimp only at hrun
        split at hrun
        · exact ih hok.1 hok.2 hrun
        · simp only [Exec.done.injEq, Prod.mk.injEq] at hrun
          obtain ⟨rfl, rfl⟩ := hrun
          exact ⟨rfl, hok.1⟩
      | found group first num' =>
        dsimp only at hrun
        have hclaim : Claimed (fs.chargeBlocks ino charge) fs2 group first num' count := hok
        have hpos := hclaim.run.pos
        have hsbi : fs2.sbi = fs.sbi := by rw [hclaim.state]; rfl
        have hdesc : fs2.desc = fs.desc := by rw [hclaim.state]; rfl
        obtain ⟨hzone, hcount⟩ := h.run_ok hclaim.group_lt hpos hclaim.run.inside hclaim.run.clear
        rw [Nat.add_comm, ← hsbi, ← hdesc] at hzone
        rw [Nat.add_comm, ← hsbi] at hcount
        rw [hzone] at hrun
        rw [if_neg (by simp), if_neg (by omega)] at hrun
        simp only [Exec.done.injEq, Prod.mk.injEq] at hrun
        obtain ⟨rfl, rfl⟩ := hrun
        exact ⟨first, by rw [hsbi, Nat.add_comm]; rfl, hclaim⟩

/-- What `kr_new_blocks` has done when it returns. -/
def NewBlocksOk (fs fs' : Fs) (reserved : Nat → Prop) (owned : Nat → Multiset Nat)
    (extra : Nat → Int) (ino count : Nat) : Except Errno (Nat × Nat) → Prop
  | .error _ => fs'.Owned reserved owned extra ∧ fs'.blockBitmap = fs.blockBitmap
  | .ok (block, num) => 1 ≤ num ∧ num ≤ count ∧
      (∀ b ∈ blockRun block num, ¬ reserved b ∧ ∀ i, b ∉ owned i) ∧
      fs'.Owned reserved (Function.update owned ino (owned ino + blockRun block num)) extra

/-- A failed call that gives its quota back. -/
theorem newBlocks_refund (h : fs.Owned reserved owned extra) {fs1 : Fs} {count : Nat} {e : Errno}
    (hsame : SameButRsv (fs.chargeBlocks ino count) fs1) :
    fs.BlockFrame (fs1.chargeBlocks ino (-count)) ∧
      NewBlocksOk fs (fs1.chargeBlocks ino (-count)) reserved owned extra ino count (.error e) := by
  have hinode : ∀ i, (fs1.chargeBlocks ino (-count)).inode i = fs.inode i := by
    intro i
    have h1 : fs1.inode i = (fs.chargeBlocks ino count).inode i := by rw [hsame]
    have hspb : fs1.sectorsPerBlock = fs.sectorsPerBlock := by rw [hsame]; rfl
    rw [chargeBlocks_inode, h1, chargeBlocks_inode, Inode.addSectors_addSectors, hspb]
    split
    · rw [Int.neg_mul, Int.add_right_neg, Inode.addSectors_zero]
    · exact Inode.addSectors_zero _
  refine ⟨?_, h.of_same ?_ ?_ ?_ ?_ fun i => by rw [hinode], ?_⟩
  · refine ⟨?_, ?_, ?_, ?_, ?_, ?_, fun i => ⟨_, hinode i⟩,
      fun g => ⟨(fs.desc g).bgFreeBlocksCount, ?_⟩⟩
    all_goals rw [hsame]; rfl
  all_goals rw [hsame]; rfl

/-- The accounting after a run has been claimed. -/
def newBlocksDone (fs : Fs) (ino group num count : Nat) : Fs :=
  let fs := { fs with
    desc := Function.update fs.desc group (groupAdjustBlocks (fs.desc group) (-num))
    sFreeblocksCounter := fs.sFreeblocksCounter - num }
  if num < count then fs.chargeBlocks ino (-(count - num : Nat)) else fs

theorem newBlocksDone_eq (fs : Fs) (ino group num count : Nat) :
    newBlocksDone fs ino group num count = { fs with
      desc := Function.update fs.desc group (groupAdjustBlocks (fs.desc group) (-num))
      sFreeblocksCounter := fs.sFreeblocksCounter - num
      inode := (newBlocksDone fs ino group num count).inode } := by
  unfold newBlocksDone
  dsimp only
  split <;> rfl

theorem newBlocks_claimed (h : fs.Owned reserved owned extra) {fs1 : Fs}
    {group first num count : Nat} (hcount : 1 ≤ count)
    (hc : Claimed (fs.chargeBlocks ino count) fs1 group first num count) :
    fs.BlockFrame (newBlocksDone fs1 ino group num count) ∧
      NewBlocksOk fs (newBlocksDone fs1 ino group num count) reserved owned extra ino count
        (.ok (fs.sbi.groupFirstBlockNo group + first, num)) := by
  obtain ⟨hstate, hgroup, hrun⟩ := hc
  have hclear : ∀ i, first ≤ i → i < first + num → fs.blockBitmap group i = false := hrun.clear
  have hinside : first + num ≤ fs.sbi.sBlocksPerGroup := hrun.inside
  have hle : num ≤ count := by have := hrun.le; omega
  have hspb : fs1.sectorsPerBlock = fs.sectorsPerBlock := by rw [hstate]; rfl
  have hcharge : ∀ i, (newBlocksDone fs1 ino group num count).inode i =
      (fs.inode i).addSectors (if i = ino then (num : Int) * fs.sectorsPerBlock else 0) := by
    intro i
    have hinode : fs1.inode i = (fs.inode i).addSectors
        (if i = ino then (count : Int) * fs.sectorsPerBlock else 0) := by
      rw [hstate, ← chargeBlocks_inode]
    unfold newBlocksDone
    dsimp only
    split
    · rw [chargeBlocks_inode]
      have hspb' : ∀ d c, ({ fs1 with desc := d, sFreeblocksCounter := c } : Fs).sectorsPerBlock =
          fs.sectorsPerBlock := fun _ _ => hspb
      rw [hspb', hinode, Inode.addSectors_addSectors]
      split
      · push_cast [Nat.cast_sub hle]
        congr 1
        ring
      · rw [Int.add_zero]
    · have hnum : num = count := by omega
      rw [hinode, hnum]
  have hbm : ∀ i, fs1.blockBitmap group i = setBits (fs.blockBitmap group) first num i := by
    intro i
    rw [hrun.bits]
    rfl
  have hcleared : clearCount (fs1.blockBitmap group) fs.sbi.sBlocksPerGroup + num =
      clearCount (fs.blockBitmap group) fs.sbi.sBlocksPerGroup := by
    refine clearCount_run hinside hclear ?_ ?_
    · intro i h1 h2
      simp [hbm, setBits, h1, h2]
    · intro i hi
      rw [hbm, setBits, ← Bool.decide_and, decide_eq_false hi, Bool.or_false]
  have hdescs : ∀ g, (newBlocksDone fs1 ino group num count).desc g =
      if g = group then groupAdjustBlocks (fs.desc group) (-num) else fs.desc g := by
    intro g
    rw [newBlocksDone_eq, hstate]
    by_cases hg : g = group
    · subst hg
      simp [Fs.chargeBlocks]
    · simp [Fs.chargeBlocks, hg]
  have hframe : fs.BlockFrame (newBlocksDone fs1 ino group num count) := by
    refine ⟨?_, ?_, ?_, ?_, ?_, ?_, fun i => ⟨_, hcharge i⟩, fun g => ?_⟩
    · rw [newBlocksDone_eq, hstate]; rfl
    · rw [newBlocksDone_eq, hstate]; rfl
    · rw [newBlocksDone_eq, hstate]; rfl
    · rw [newBlocksDone_eq, hstate]; rfl
    · rw [newBlocksDone_eq, hstate]; rfl
    · rw [newBlocksDone_eq, hstate]; rfl
    · rw [hdescs]
      by_cases hg : g = group
      · subst hg
        rw [if_pos rfl]
        unfold groupAdjustBlocks
        split
        · exact ⟨(fs.desc g).bgFreeBlocksCount, rfl⟩
        · exact ⟨_, rfl⟩
      · exact ⟨(fs.desc g).bgFreeBlocksCount, by rw [if_neg hg]⟩
  refine ⟨hframe, hrun.pos, hle, ?_, ?_⟩
  · intro b hb
    obtain ⟨h1, h2⟩ := mem_blockRun.mp hb
    refine ⟨h.unreserved hgroup hinside hclear h1 (by omega), fun i hi => ?_⟩
    have hbit := h.bit_of_mem (g := group) (i := b - fs.sbi.groupFirstBlockNo group)
      (by omega) hgroup (by rwa [Nat.add_sub_cancel' (by omega)])
    rw [hclear _ (by omega) (by omega)] at hbit
    cases hbit
  · refine h.claim hframe hgroup hinside hclear ?_ ?_ ?_ ?_
    · intro g i
      have hb : (newBlocksDone fs1 ino group num count).blockBitmap =
          Function.update fs.blockBitmap group (fs1.blockBitmap group) := by
        rw [newBlocksDone_eq]
        conv_lhs => rw [hstate]
        rfl
      rw [hb]
      by_cases hg : g = group
      · subst hg
        rw [Function.update_self, hbm]
        by_cases hi : first ≤ i ∧ i < first + num
        · simp [setBits, InRun, hi]
        · rw [setBits, ← Bool.decide_and, decide_eq_false hi, Bool.or_false, if_neg fun hr => hi hr.2]
      · simp [InRun, hg]
    · intro g hg
      rw [hdescs]
      by_cases hgg : g = group
      · subst hgg
        have hcount' := h.freeCount g hg
        have hlt := clearCount_le (fs.blockBitmap g) fs.sbi.sBlocksPerGroup
        have hbpg := h.geometry.bpg_lt
        have hadj := groupAdjustBlocks_toNat (fs.desc g) (-num) (by omega) (by omega)
        rw [if_pos rfl, if_pos rfl]
        omega
      · rw [if_neg hgg, if_neg hgg]
        rfl
    · rw [newBlocksDone_eq, hstate]
      rfl
    · intro i
      rw [hcharge, Inode.addSectors_iBlocks]

/-- Whatever the window, the goal and the search meet, `kr_new_blocks` either
fails without a trace in the accounts or hands out one run of free blocks. -/
theorem krNewBlocks_owned (h : fs.Owned reserved owned extra) {goal count : Nat}
    (hcount : 1 ≤ count) {result : Except Errno (Nat × Nat)}
    (hrun : krNewBlocks ops env ino fuel fs goal count = .done (fs', result)) :
    fs.BlockFrame fs' ∧ NewBlocksOk fs fs' reserved owned extra ino count result := by
  unfold krNewBlocks at hrun
  dsimp only at hrun
  split at hrun
  · cases hrun
    exact ⟨Fs.BlockFrame.refl fs, h, rfl⟩
  · split at hrun
    · cases hrun
      exact newBlocks_refund ino h rfl
    · generalize hretry : retryAlloc ops env ino fuel _ _ fuel _ _ _ _ count = run at hrun
      cases run with
      | bug => cases hrun
      | running => cases hrun
      | done res =>
        obtain ⟨fs1, outcome⟩ := res
        have hstart : SameButRsv (fs.chargeBlocks ino count) (fs.chargeBlocks ino count) := rfl
        have hok := retryAlloc_spec ops env ino fuel h.systemSet fuel hstart (le_refl count) hretry
        cases outcome with
        | error err =>
          obtain ⟨e, performed⟩ := err
          obtain ⟨rfl, hsame⟩ := hok
          simp only [Exec.bind, Exec.done.injEq, Prod.mk.injEq] at hrun
          obtain ⟨rfl, rfl⟩ := hrun
          exact newBlocks_refund ino h hsame
        | ok val =>
          obtain ⟨group, retBlock, num⟩ := val
          obtain ⟨first, rfl, hclaim⟩ := hok
          simp only [Exec.bind, Exec.done.injEq, Prod.mk.injEq] at hrun
          obtain ⟨rfl, rfl⟩ := hrun
          exact newBlocks_claimed ino h hcount hclaim

theorem Fs.chargeBlocks_add (fs : Fs) (ino : Nat) (m n : Int) :
    (fs.chargeBlocks ino m).chargeBlocks ino n = fs.chargeBlocks ino (m + n) := by
  have hspb : (fs.chargeBlocks ino m).sectorsPerBlock = fs.sectorsPerBlock := rfl
  unfold Fs.chargeBlocks at hspb ⊢
  simp only [hspb, Function.update_self, Function.update_idem, Inode.addSectors_addSectors,
    Int.add_mul]

theorem Fs.chargeBlocks_zero (fs : Fs) (ino : Nat) : fs.chargeBlocks ino 0 = fs := by
  simp [Fs.chargeBlocks, Inode.addSectors_zero]

/-- The state after a run of a group has gone to an inode, up to reservations. -/
def Fs.takeRun (fs : Fs) (rsv : Rsv) (ino group first num : Nat) : Fs :=
  { fs.chargeBlocks ino num with
    rsv := rsv
    blockBitmap := Function.update fs.blockBitmap group (setBits (fs.blockBitmap group) first num)
    desc := Function.update fs.desc group (groupAdjustBlocks (fs.desc group) (-num))
    sFreeblocksCounter := fs.sFreeblocksCounter - num }

/-- Everything `kr_new_blocks` does, by its result. -/
def NewBlocksEffect (fs fs' : Fs) (ino count : Nat) : Except Errno (Nat × Nat) → Prop
  | .error _ => SameButRsv fs fs'
  | .ok (block, num) => ∃ group first, block = fs.sbi.groupFirstBlockNo group + first ∧
      group < fs.sbi.sGroupsCount ∧ 1 ≤ num ∧ num ≤ count ∧
      first + num ≤ fs.sbi.sBlocksPerGroup ∧
      (∀ i, first ≤ i → i < first + num → fs.blockBitmap group i = false) ∧
      fs' = fs.takeRun fs'.rsv ino group first num

/-- A failed call refunds what it charged. -/
theorem SameButRsv.refund {fs1 : Fs} {count : Int} (h : SameButRsv (fs.chargeBlocks ino count) fs1) :
    SameButRsv fs (fs1.chargeBlocks ino (-count)) := by
  have hback : fs1.chargeBlocks ino (-count) =
      { (fs.chargeBlocks ino count).chargeBlocks ino (-count) with rsv := fs1.rsv } := by
    rw [h]
    rfl
  rw [hback, Fs.chargeBlocks_add, Int.add_right_neg, Fs.chargeBlocks_zero]
  rfl

/-- A claimed run with its accounting is the run taken by the inode. -/
theorem Claimed.newBlocksDone_eq {fs1 : Fs} {group first num count : Nat} (hcount : 1 ≤ count)
    (h : Claimed (fs.chargeBlocks ino count) fs1 group first num count) :
    newBlocksDone fs1 ino group num count = fs.takeRun fs1.rsv ino group first num := by
  have hle : num ≤ count := by
    have := h.run.le
    omega
  have hstate : fs1 = { fs.chargeBlocks ino count with
      rsv := fs1.rsv
      blockBitmap := Function.update fs.blockBitmap group
        (setBits (fs.blockBitmap group) first num) } := by
    conv_lhs => rw [h.state, h.run.bits]
    rfl
  have hcharge : (if num < count then
      (fs.chargeBlocks ino count).chargeBlocks ino (-(count - num : Nat))
      else fs.chargeBlocks ino count) = fs.chargeBlocks ino num := by
    split
    · rw [Fs.chargeBlocks_add]
      congr 1
      omega
    · rw [show num = count by omega]
  have hdone : newBlocksDone fs1 ino group num count = { (if num < count then
      (fs.chargeBlocks ino count).chargeBlocks ino (-(count - num : Nat))
      else fs.chargeBlocks ino count) with
      rsv := fs1.rsv
      blockBitmap := Function.update fs.blockBitmap group
        (setBits (fs.blockBitmap group) first num)
      desc := Function.update fs.desc group (groupAdjustBlocks (fs.desc group) (-num))
      sFreeblocksCounter := fs.sFreeblocksCounter - num } := by
    generalize fs1.rsv = rsv at hstate ⊢
    subst hstate
    unfold newBlocksDone
    dsimp only
    split
    · rfl
    · rfl
  rw [hdone, hcharge]
  rfl

/-- On a state with its metadata marked in use `kr_new_blocks` either changes
reservations only or gives one run of clear bits to the inode. -/
theorem krNewBlocks_effect (h : fs.SystemSet) {goal count : Nat} (hcount : 1 ≤ count)
    {result : Except Errno (Nat × Nat)}
    (hrun : krNewBlocks ops env ino fuel fs goal count = .done (fs', result)) :
    NewBlocksEffect fs fs' ino count result := by
  unfold krNewBlocks at hrun
  dsimp only at hrun
  split at hrun
  · cases hrun
    exact rfl
  · split at hrun
    · cases hrun
      exact SameButRsv.refund ino rfl
    · generalize hretry : retryAlloc ops env ino fuel _ _ fuel _ _ _ _ count = run at hrun
      cases run with
      | bug => cases hrun
      | running => cases hrun
      | done res =>
        obtain ⟨fs1, outcome⟩ := res
        have hstart : SameButRsv (fs.chargeBlocks ino count) (fs.chargeBlocks ino count) := rfl
        have hok := retryAlloc_spec ops env ino fuel h fuel hstart (le_refl count) hretry
        cases outcome with
        | error err =>
          obtain ⟨e, performed⟩ := err
          obtain ⟨rfl, hsame⟩ := hok
          simp only [Exec.bind, Exec.done.injEq, Prod.mk.injEq] at hrun
          obtain ⟨rfl, rfl⟩ := hrun
          exact hsame.refund ino
        | ok val =>
          obtain ⟨group, retBlock, num⟩ := val
          obtain ⟨first, rfl, hclaim⟩ := hok
          simp only [Exec.bind, Exec.done.injEq, Prod.mk.injEq] at hrun
          obtain ⟨hfs', rfl⟩ := hrun
          have hdone := hclaim.newBlocksDone_eq ino hcount
          have heq : fs' = fs.takeRun fs1.rsv ino group first num := hfs'.symm.trans hdone
          have hle := hclaim.run.le
          refine ⟨group, first, rfl, hclaim.group_lt, hclaim.run.pos, by omega, hclaim.run.inside,
            hclaim.run.clear, ?_⟩
          rw [heq]
          rfl

/-- Blocks are handed out only after the free count has been checked. -/
theorem krNewBlocks_hasFreeBlocks {goal count block num : Nat}
    (hrun : krNewBlocks ops env ino fuel fs goal count = .done (fs', .ok (block, num))) :
    krHasFreeBlocks fs.sbi env = true := by
  unfold krNewBlocks at hrun
  dsimp only at hrun
  split at hrun
  · cases hrun
  · split at hrun
    · cases hrun
    · rename_i hhas
      have hsbi : (fs.chargeBlocks ino count).sbi = fs.sbi := rfl
      rw [hsbi] at hhas
      simpa using hhas

end New

end KrFs
