import KrFs.GroupTry

/-!
# The run that is marked first

`kr_new_blocks` tries the goal group at the goal and then the other groups, with its window
or without it, and marks a run before it checks where that lies. Which run it marks first,
if any, is told by the bitmaps, the descriptors, the goal and the windows it begins with.
-/

namespace KrFs

open SearchTree Bitmap

namespace AllocView

variable (v : AllocView)

def freeCount (group : Nat) : Nat := (v.desc group).bgFreeBlocksCount.toNat

def windowSize : Nat := if v.hasInfo then v.own.rsvGoalSize % 2 ^ 16 else 0

/-- The groups a search tries, each with the goal it has there: the group of the goal when it
counts free blocks, then all groups that count more than `least`. -/
def visits (goal least : Nat) : List (Nat × Int) :=
  (if v.freeCount (v.sbi.goalGroup goal) = 0 then []
    else [(v.sbi.goalGroup goal, (v.sbi.goalBit goal : Int))]) ++
  ((v.sbi.laterGroups (v.sbi.goalGroup goal) v.sbi.sGroupsCount).filter
    fun group => least < v.freeCount group).map fun group => (group, -1)

/-- What a search with or without the window leaves out. -/
def least (useRsv : Bool) : Nat := if useRsv then v.windowSize / 2 else 0

/-- The first search uses a window. -/
def UsesWindow (goal : Nat) : Prop :=
  0 < v.windowSize ∧ ¬ (v.freeCount (v.sbi.goalGroup goal) < v.windowSize ∧
    0 < v.freeCount (v.sbi.goalGroup goal) ∧ v.own.rsvEnd = 0)

/-- A search from the goal on, with a window or without. -/
def Search (readable : Nat → Bool) (goal : Nat) (useRsv : Bool) (count : Nat)
    (e : Try MarkedRun (AllocView × Nat)) : Prop :=
  Tries (GroupTry readable useRsv) (v.visits goal (v.least useRsv)) (v, count) e

/-- A search with the window is made, and finds nothing. -/
def WindowMisses (readable : Nat → Bool) (goal count : Nat) : Prop :=
  v.sbi.goalGroup goal < v.sbi.sGroupsCount ∧ v.UsesWindow goal ∧
    ∃ s, v.Search readable goal true count (.failed s)

/-- The run that a call marks first, and what the search depends on afterwards. -/
inductive FirstRun (readable : Nat → Bool) (goal count : Nat) : MarkedRun → AllocView → Prop
  | window {run : MarkedRun} {v' : AllocView} {n : Nat}
      (inside : v.sbi.goalGroup goal < v.sbi.sGroupsCount) (uses : v.UsesWindow goal)
      (search : v.Search readable goal true count (.took run (v', n))) :
      FirstRun readable goal count run v'
  | again {run : MarkedRun} {v₁ v' : AllocView} {n₁ n : Nat}
      (inside : v.sbi.goalGroup goal < v.sbi.sGroupsCount) (uses : v.UsesWindow goal)
      (missed : v.Search readable goal true count (.failed (v₁, n₁)))
      (search : v₁.Search readable goal false n₁ (.took run (v', n))) :
      FirstRun readable goal count run v'
  | plain {run : MarkedRun} {v' : AllocView} {n : Nat}
      (inside : v.sbi.goalGroup goal < v.sbi.sGroupsCount) (uses : ¬ v.UsesWindow goal)
      (search : v.Search readable goal false count (.took run (v', n))) :
      FirstRun readable goal count run v'

end AllocView

section Unique

variable {v v₁ v₂ : AllocView} {readable : Nat → Bool} {goal count : Nat}

theorem AllocView.Search.unique {useRsv : Bool} {e e' : Try MarkedRun (AllocView × Nat)}
    (h : v.Search readable goal useRsv count e) (h' : v.Search readable goal useRsv count e') :
    e = e' := by
  have hone : ∀ i s e e', GroupTry readable useRsv i s e → GroupTry readable useRsv i s e' → e = e' :=
    fun _ _ _ _ here here' => here.unique here'
  exact Tries.unique hone h h'

theorem AllocView.FirstRun.unique {run run' : MarkedRun}
    (h : v.FirstRun readable goal count run v₁) (h' : v.FirstRun readable goal count run' v₂) :
    run = run' ∧ v₁ = v₂ := by
  cases h with
  | window _ uses search =>
    cases h' with
    | window _ _ search' =>
      cases search.unique search'
      exact ⟨rfl, rfl⟩
    | again _ _ missed' => cases search.unique missed'
    | plain _ uses' => exact absurd uses uses'
  | again _ uses missed search =>
    cases h' with
    | window _ _ search' => cases missed.unique search'
    | again _ _ missed' search' =>
      cases missed.unique missed'
      cases search.unique search'
      exact ⟨rfl, rfl⟩
    | plain _ uses' => exact absurd uses uses'
  | plain _ uses search =>
    cases h' with
    | window _ uses' => exact absurd uses' uses
    | again _ uses' => exact absurd uses' uses
    | plain _ _ search' =>
      cases search.unique search'
      exact ⟨rfl, rfl⟩

end Unique

/-! ## The run it takes -/

section Takes

variable {readable : Nat → Bool} {goal : Nat}

theorem AllocView.SameButWin.refl (v : AllocView) : v.SameButWin v := rfl

theorem AllocView.SameButWin.trans {v v₁ v₂ : AllocView} (h : v.SameButWin v₁)
    (h' : v₁.SameButWin v₂) : v.SameButWin v₂ := by
  rw [h] at h'
  exact h'

/-- The tries that come before the end change the window only. -/
theorem tries_takes {useRsv : Bool} {l : List (Nat × Int)} {s s' : AllocView × Nat} {run : MarkedRun}
    (hgoal : ∀ i ∈ l, i.2 < s.1.sbi.sBlocksPerGroup)
    (h : Tries (GroupTry readable useRsv) l s (.took run s')) :
    (∃ i ∈ l, run.group = i.1) ∧ ∃ count, s.1.Takes readable count run := by
  generalize he : Try.took run s' = e at h
  induction h with
  | nil s => cases he
  | took here =>
    cases he
    obtain ⟨hgroup, htakes⟩ := here.takes (hgoal _ (by simp))
    exact ⟨⟨_, by simp, hgroup⟩, _, htakes⟩
  | stopped here => cases he
  | failed here rest ih =>
    have hsame := here.same
    obtain ⟨⟨i, hi, hgroup⟩, count, htakes⟩ := ih (by rw [hsame]; exact fun i hi => hgoal i (by simp [hi])) he
    exact ⟨⟨i, by simp [hi], hgroup⟩, count, hsame.takes htakes⟩

theorem tries_same {useRsv : Bool} {l : List (Nat × Int)} {s s' : AllocView × Nat}
    (h : Tries (GroupTry readable useRsv) l s (.failed s')) : s.1.SameButWin s'.1 := by
  generalize he : Try.failed s' = e at h
  induction h with
  | nil s =>
    cases he
    rfl
  | took here => cases he
  | stopped here => cases he
  | failed here rest ih => exact here.same.trans (ih he)

/-- The groups that are tried lie in the image, and the goals in the groups. -/
theorem AllocView.visits_bounds {v : AllocView} (hbpg : 0 < v.sbi.sBlocksPerGroup)
    (inside : v.sbi.goalGroup goal < v.sbi.sGroupsCount) {least : Nat} {i : Nat × Int}
    (hi : i ∈ v.visits goal least) :
    i.1 < v.sbi.sGroupsCount ∧ v.freeCount i.1 ≠ 0 ∧ i.2 < v.sbi.sBlocksPerGroup := by
  rcases List.mem_append.mp hi with hgoal | hlater
  · split at hgoal
    · cases hgoal
    · rename_i hfree
      obtain rfl := List.mem_singleton.mp hgoal
      have hbit : v.sbi.goalBit goal < v.sbi.sBlocksPerGroup := Nat.mod_lt _ hbpg
      exact ⟨inside, hfree, by dsimp only; omega⟩
  · obtain ⟨group, hgroup, rfl⟩ := List.mem_map.mp hlater
    obtain ⟨hmem, hmore⟩ := List.mem_filter.mp hgroup
    obtain ⟨k, -, rfl⟩ := List.mem_map.mp hmem
    rw [decide_eq_true_eq] at hmore
    exact ⟨Nat.mod_lt _ (by omega), by dsimp only; omega, by dsimp only; omega⟩

/-- The run that is marked first is one of clear bits of a group of the image. -/
theorem AllocView.FirstRun.takes {v v' : AllocView} {count : Nat} {run : MarkedRun}
    (hbpg : 0 < v.sbi.sBlocksPerGroup) (h : v.FirstRun readable goal count run v') :
    run.group < v.sbi.sGroupsCount ∧ v.freeCount run.group ≠ 0 ∧
      ∃ count, v.Takes readable count run := by
  have hsearch : ∀ {v₁ : AllocView} {useRsv : Bool} {n : Nat} {s : AllocView × Nat},
      v.SameButWin v₁ → v.sbi.goalGroup goal < v.sbi.sGroupsCount →
      v₁.Search readable goal useRsv n (.took run s) →
      run.group < v.sbi.sGroupsCount ∧ v.freeCount run.group ≠ 0 ∧
        ∃ count, v.Takes readable count run := by
    intro v₁ useRsv n s hsame inside htries
    have hsbi : v₁.sbi = v.sbi := by rw [hsame]
    have hbounds : ∀ i ∈ v₁.visits goal (v₁.least useRsv), i.1 < v₁.sbi.sGroupsCount ∧
        v₁.freeCount i.1 ≠ 0 ∧ i.2 < v₁.sbi.sBlocksPerGroup :=
      fun i hi => AllocView.visits_bounds (hsbi ▸ hbpg) (hsbi ▸ inside) hi
    obtain ⟨⟨i, hi, hgroup⟩, c, htakes⟩ := tries_takes (fun i hi => (hbounds i hi).2.2) htries
    obtain ⟨hlt, hfree, -⟩ := hbounds i hi
    rw [← hgroup] at hlt hfree
    refine ⟨hsbi ▸ hlt, ?_, c, hsame.takes htakes⟩
    rw [hsame] at hfree
    exact hfree
  cases h with
  | window inside _ search => exact hsearch (.refl v) inside search
  | again inside _ missed search => exact hsearch (tries_same missed) inside search
  | plain inside _ search => exact hsearch (.refl v) inside search

end Takes

/-! ## The code makes these searches -/

section Sound

variable {ops : Rebalance Window} {env : AllocEnv} {ino fuel : Nat} {fs fs' : Fs}

/-- How a search of the code ended. -/
def searchEnd (fs' : Fs) (ino : Nat) : GroupSearch → Try MarkedRun (AllocView × Nat) → Prop
  | .found group first num, e => ∃ n, e = .took ⟨group, first, num⟩ (fs'.allocView ino, n)
  | .missed num, e => e = .failed (fs'.allocView ino, num)
  | .ioError, e => e = .stopped

/-- A group that is tried, and the search that goes on. -/
theorem tryGroup_thenTries {useRsv : Bool} {group num : Nat} {grpGoal : Int} {result : GroupSearch}
    {l : List (Nat × Int)} (next : Fs → Nat → Exec (Fs × GroupSearch))
    (hread : env.readBitmap group = true) (hbpg : 0 < fs.sbi.sBlocksPerGroup)
    (hready : fs.WindowReady ino useRsv) (hgoal : grpGoal < fs.sbi.sBlocksPerGroup)
    (hnext : ∀ {fs₁ num₁}, SameButRsv fs fs₁ → fs₁.WindowReady ino useRsv →
      next fs₁ num₁ = .done (fs', result) →
      ∃ e, searchEnd fs' ino result e ∧
        Tries (GroupTry env.readBitmap useRsv) l (fs₁.allocView ino, num₁) e)
    (hgroup : group < fs.sbi.sGroupsCount)
    (h : (tryGroup ops ino fuel fs useRsv group grpGoal num).bind (fun (fs, found, num) =>
      match found with
      | some first => .done (fs, .found group first num)
      | none => next fs num) = .done (fs', result)) :
    ∃ e, searchEnd fs' ino result e ∧
      Tries (GroupTry env.readBitmap useRsv) ((group, grpGoal) :: l) (fs.allocView ino, num) e := by
  obtain ⟨⟨fs₁, found, num₁⟩, htry, hrest⟩ := Exec.bind_eq_done.mp h
  obtain ⟨hready₁, hone⟩ := tryGroup_try ops hread hbpg hready hgoal htry
  cases found with
  | some first =>
    cases hrest
    exact ⟨_, ⟨num, rfl⟩, .took hone⟩
  | none =>
    rcases tryGroup_spec ops ino fuel hgroup hgoal htry with ⟨-, hsame, -⟩ | ⟨first, hf, -⟩
    · obtain ⟨e, hend, htries⟩ := hnext hsame hready₁ hrest
      exact ⟨e, hend, .failed hone htries⟩
    · cases hf

theorem searchGroups_tries {useRsv : Bool} {windowsz : Nat} {result : GroupSearch} (n : Nat) :
    ∀ {fs : Fs} {groupNo num : Nat}, groupNo < fs.sbi.sGroupsCount → 0 < fs.sbi.sBlocksPerGroup →
    fs.WindowReady ino useRsv →
    searchGroups ops env ino fuel useRsv windowsz n fs groupNo num = .done (fs', result) →
    ∃ e, searchEnd fs' ino result e ∧ Tries (GroupTry env.readBitmap useRsv)
      (((fs.sbi.laterGroups groupNo n).filter fun group =>
        (if useRsv then windowsz / 2 else 0) < (fs.desc group).bgFreeBlocksCount.toNat).map
          fun group => (group, -1)) (fs.allocView ino, num) e := by
  induction n with
  | zero =>
    intro fs groupNo num _ _ _ h
    cases h
    exact ⟨_, rfl, .nil _⟩
  | succ n ih =>
    intro fs groupNo num hno hbpg hready h
    obtain ⟨next, hnext, hmod, hlt⟩ := roundGroup hno
    have hgdp : fs.groupDesc next = some (fs.desc next) := by
      simp [Fs.groupDesc, hlt]
    simp only [searchGroups, ← hnext, hgdp] at h
    rw [SbInfo.laterGroups_succ, ← hmod]
    split at h
    · rename_i hzero
      rw [List.filter_cons_of_neg (by simp [hzero])]
      exact ih hlt hbpg hready h
    rename_i hfree
    split at h
    · rename_i hsmall
      simp only [Bool.and_eq_true, decide_eq_true_eq] at hsmall
      rw [List.filter_cons_of_neg (by simp [hsmall.1, hsmall.2])]
      exact ih hlt hbpg hready h
    rename_i hlarge
    have hmore : (if useRsv then windowsz / 2 else 0) < (fs.desc next).bgFreeBlocksCount.toNat := by
      simp only [Bool.and_eq_true, decide_eq_true_eq, not_and, not_le] at hlarge
      split
      · rename_i hrsv
        exact hlarge hrsv
      · omega
    rw [List.filter_cons_of_pos (by simpa using hmore), List.map_cons]
    split at h
    · rename_i hio
      cases h
      exact ⟨_, rfl, .stopped (GroupTry.unread (by simpa using hio) _ _ _)⟩
    rename_i hio
    refine tryGroup_thenTries
      (fun fs num => searchGroups ops env ino fuel useRsv windowsz n fs next num)
      (by simpa using hio) hbpg hready (by omega) (fun {fs₁ num₁} hsame hready₁ hrun => ?_) hlt h
    have hsbi : fs₁.sbi = fs.sbi := by rw [hsame]
    have hdesc : fs₁.desc = fs.desc := by rw [hsame]
    have hrest := ih (hsbi ▸ hlt) (hsbi ▸ hbpg) hready₁ hrun
    rwa [hsbi, hdesc] at hrest

theorem Fs.windowSize_allocView (fs : Fs) (ino : Nat) :
    (fs.allocView ino).windowSize = fs.windowSize ino := by
  have hsize : (fs.allocView ino).own.rsvGoalSize = (fs.rsv.win (.inode ino)).rsvGoalSize :=
    canonWindow_rsvGoalSize
  unfold AllocView.windowSize Fs.windowSize
  rw [hsize]
  cases hinfo : (fs.inode ino).iBlockAllocInfo with
  | none => simp [Fs.allocView, hinfo]
  | some info => simp [Fs.allocView, hinfo]

/-- From `retry_alloc` on the groups are tried as the goal and the counts of the descriptors
say. -/
theorem searchFrom_tries {goal windowsz num : Nat} {useRsv : Bool} {result : GroupSearch}
    (hno : fs.sbi.goalGroup goal < fs.sbi.sGroupsCount) (hbpg : 0 < fs.sbi.sBlocksPerGroup)
    (hready : fs.WindowReady ino useRsv) (hsize : useRsv = true → windowsz = fs.windowSize ino)
    (h : searchFrom ops env ino fuel fs (fs.sbi.goalBlock goal) (fs.sbi.goalGroup goal) useRsv
      windowsz num = .done (fs', result)) :
    ∃ e, searchEnd fs' ino result e ∧
      (fs.allocView ino).Search env.readBitmap goal useRsv num e := by
  have hleast : (fs.allocView ino).least useRsv = if useRsv then windowsz / 2 else 0 := by
    unfold AllocView.least
    rw [Fs.windowSize_allocView]
    split
    · rename_i hrsv
      rw [hsize hrsv]
    · rfl
  have hgdp : fs.groupDesc (fs.sbi.goalGroup goal) = some (fs.desc (fs.sbi.goalGroup goal)) := by
    simp [Fs.groupDesc, hno]
  have hfree : (fs.allocView ino).freeCount (fs.sbi.goalGroup goal) =
    (fs.desc (fs.sbi.goalGroup goal)).bgFreeBlocksCount.toNat := rfl
  unfold AllocView.Search AllocView.visits
  rw [hleast]
  rw [show (fs.allocView ino).sbi = fs.sbi from rfl, hfree]
  unfold searchFrom at h
  split at h
  · rename_i hnone
    rw [hgdp] at hnone
    cases hnone
  rename_i gdp hdesc
  obtain rfl : fs.desc (fs.sbi.goalGroup goal) = gdp := Option.some.inj (hgdp.symm.trans hdesc)
  split at h
  · rename_i hzero
    rw [if_pos hzero, List.nil_append]
    exact searchGroups_tries _ hno hbpg hready h
  rename_i hcounts
  rw [if_neg hcounts, List.cons_append, List.nil_append]
  split at h
  · rename_i hio
    cases h
    exact ⟨_, rfl, .stopped (GroupTry.unread (by simpa using hio) _ _ _)⟩
  rename_i hio
  have hgoal : ((fs.sbi.goalBit goal : Nat) : Int) < fs.sbi.sBlocksPerGroup := by
    exact_mod_cast Nat.mod_lt _ hbpg
  refine tryGroup_thenTries
    (fun fs₁ num => searchGroups ops env ino fuel useRsv windowsz fs₁.sbi.sGroupsCount fs₁
      (fs.sbi.goalGroup goal) num)
    (by simpa using hio) hbpg hready hgoal (fun {fs₁ num₁} hsame hready₁ hrun => ?_) hno h
  have hsbi : fs₁.sbi = fs.sbi := by rw [hsame]
  have hdesc : fs₁.desc = fs.desc := by rw [hsame]
  have hrest := searchGroups_tries _ (hsbi ▸ hno) (hsbi ▸ hbpg) hready₁ hrun
  rwa [hsbi, hdesc] at hrest

end Sound

end KrFs
