import KrFs.NewBlocksFail

/-!
# References to bitmaps

`kr_free_blocks` and `kr_new_blocks` with the reference counts of the buffers they read, as
a net number: one up for each `read_block_bitmap` that succeeds, one down for each `brelse`.
Both keep the bitmap in one variable. `kr_free_blocks` releases it before it reads the next
one; `kr_new_blocks` comes back to `retry_alloc` and reads over it. Without the number these
are the functions of the allocator.
-/

namespace KrFs

open SearchTree

namespace Exec

variable {α β γ : Type}

def map (f : α → β) (x : Exec α) : Exec β := x.bind fun a => .done (f a)

@[simp] theorem map_done (f : α → β) (a : α) : (done a).map f = done (f a) := rfl

theorem map_bind (x : Exec α) (f : α → Exec β) (g : β → γ) :
    (x.bind f).map g = x.bind fun a => (f a).map g := by
  cases x with
  | done a => rfl
  | bug => rfl
  | running => rfl

theorem done_of_map {x : Exec α} (f : α → β) {a : α} (h : x = .done a) : x.map f = .done (f a) := by
  rw [h, map_done]

theorem bind_assoc (x : Exec α) (f : α → Exec β) (g : β → Exec γ) :
    (x.bind f).bind g = x.bind fun a => (f a).bind g := by
  cases x with
  | done a => rfl
  | bug => rfl
  | running => rfl

/-- A call that ends without the number ends with it. -/
theorem of_fst {x : Exec (α × β)} {a : α} (h : x.map Prod.fst = .done a) :
    ∃ b, x = .done (a, b) := by
  obtain ⟨⟨a', b⟩, rfl, hfst⟩ := Exec.bind_eq_done.mp h
  cases hfst
  exact ⟨b, rfl⟩

end Exec

/-- The variable `bitmap_bh`, with the references the call has taken and not released. -/
structure BitmapBh where
  refs : Int
  set : Bool

namespace BitmapBh

def null : BitmapBh := ⟨0, false⟩

/-- `brelse` does nothing with `NULL`. -/
def brelse (bh : BitmapBh) : BitmapBh := if bh.set then { bh with refs := bh.refs - 1 } else bh

/-- `bitmap_bh = read_block_bitmap(..)`. -/
def readBlockBitmap (bh : BitmapBh) (ok : Bool) : BitmapBh :=
  ⟨if ok then bh.refs + 1 else bh.refs, ok⟩

/-- The references that the variable does not hold. -/
def lost (bh : BitmapBh) : Int := if bh.set then bh.refs - 1 else bh.refs

@[simp] theorem lost_null : null.lost = 0 := rfl

@[simp] theorem refs_brelse (bh : BitmapBh) : bh.brelse.refs = bh.lost := by
  unfold brelse lost
  split
  · rfl
  · rfl

@[simp] theorem lost_readBlockBitmap (bh : BitmapBh) (ok : Bool) :
    (bh.readBlockBitmap ok).lost = bh.refs := by
  cases ok with
  | true => simp [readBlockBitmap, lost]
  | false => simp [readBlockBitmap, lost]

theorem lost_le_refs (bh : BitmapBh) : bh.lost ≤ bh.refs := by
  unfold lost
  split
  · omega
  · exact le_refl _

theorem lost_of_set {bh : BitmapBh} (h : bh.set = true) : bh.lost = bh.refs - 1 := if_pos h

end BitmapBh

/-! ## The references of `kr_free_blocks` -/

/-- The loop `do_more` with `bitmap_bh`. -/
def freeBlocksLoopBh (readBitmap : Nat → Bool) :
    Nat → Fs → Nat → Nat → Nat → BitmapBh → (Fs × Nat) × BitmapBh
  | 0, fs, _, _, freed, bh => ((fs, freed), bh)
  | fuel + 1, fs, block, count, freed, bh =>
    let bpg := fs.sbi.sBlocksPerGroup
    let group := (block - fs.sbi.sEs.sFirstDataBlock.toNat) / bpg
    let bit := (block - fs.sbi.sEs.sFirstDataBlock.toNat) % bpg
    let overflow := if bpg < bit + count then bit + count - bpg else 0
    let count := count - overflow
    let bh := bh.brelse.readBlockBitmap (readBitmap group)
    if !readBitmap group then ((fs, freed), bh)
    else match fs.groupDesc group with
      | none => ((fs, freed), bh)
      | some desc =>
        if inSystemZone fs.sbi desc block count then ((fs, freed), bh)
        else
          let (fs, groupFreed) := freeInGroup fs group bit count
          if overflow ≠ 0 then
            freeBlocksLoopBh readBitmap fuel fs (block + count) overflow (freed + groupFreed) bh
          else ((fs, freed + groupFreed), bh)

/-- `kr_free_blocks` with the references it keeps. -/
def krFreeBlocksRefs (readBitmap : Nat → Bool) (fs : Fs) (ino block count : Nat) : Fs × Int :=
  if block < fs.sbi.sEs.sFirstDataBlock.toNat || (block + count) % 2 ^ 64 < block ||
      fs.sbi.sEs.sBlocksCount.toNat < block + count then (fs, BitmapBh.null.brelse.refs)
  else
    let ((fs, freed), bh) := freeBlocksLoopBh readBitmap (count + 1) fs block count 0 .null
    (if freed ≠ 0 then fs.settleFreed ino freed else fs, bh.brelse.refs)

section FreeBlocks

variable (readBitmap : Nat → Bool)

theorem freeBlocksLoopBh_fst (fuel : Nat) : ∀ (fs : Fs) (block count freed : Nat) (bh : BitmapBh),
    (freeBlocksLoopBh readBitmap fuel fs block count freed bh).1 =
      freeBlocksLoop readBitmap fuel fs block count freed := by
  induction fuel with
  | zero => exact fun _ _ _ _ _ => rfl
  | succ fuel ih =>
    intro fs block count freed bh
    unfold freeBlocksLoopBh freeBlocksLoop
    dsimp only
    generalize fs.groupDesc _ = gdp
    generalize (if fs.sbi.sBlocksPerGroup < _ then _ else 0) = overflow
    split
    · rfl
    cases gdp with
    | none => rfl
    | some desc =>
      dsimp only
      split
      · rfl
      · split
        · exact ih _ _ _ _ _
        · rfl

theorem krFreeBlocksRefs_fst (fs : Fs) (ino block count : Nat) :
    (krFreeBlocksRefs readBitmap fs ino block count).1 =
      krFreeBlocks readBitmap fs ino block count := by
  unfold krFreeBlocksRefs krFreeBlocks
  split
  · rfl
  · rw [← freeBlocksLoopBh_fst readBitmap (count + 1) fs block count 0 .null]

theorem freeBlocksLoopBh_lost (fuel : Nat) : ∀ (fs : Fs) (block count freed : Nat) (bh : BitmapBh),
    (freeBlocksLoopBh readBitmap fuel fs block count freed bh).2.lost = bh.lost := by
  induction fuel with
  | zero => exact fun _ _ _ _ _ => rfl
  | succ fuel ih =>
    intro fs block count freed bh
    have hread : ∀ ok, (bh.brelse.readBlockBitmap ok).lost = bh.lost := by simp
    unfold freeBlocksLoopBh
    dsimp only
    generalize (if fs.sbi.sBlocksPerGroup < _ then _ else 0) = overflow
    split
    · exact hread _
    · split
      · exact hread _
      · split
        · exact hread _
        · split
          · exact (ih _ _ _ _ _).trans (hread _)
          · exact hread _

/-- `kr_free_blocks` releases what it reads. -/
theorem krFreeBlocksRefs_snd (fs : Fs) (ino block count : Nat) :
    (krFreeBlocksRefs readBitmap fs ino block count).2 = 0 := by
  unfold krFreeBlocksRefs
  split
  · rfl
  · exact (BitmapBh.refs_brelse _).trans (freeBlocksLoopBh_lost readBitmap _ _ _ _ _ _)

end FreeBlocks

/-! ## The references of `kr_new_blocks` -/

section NewBlocks

variable (ops : Rebalance Window) (env : AllocEnv) (ino fuel : Nat)

/-- The `for` loop over the other groups with `bitmap_bh`. -/
def searchGroupsBh (useRsv : Bool) (windowsz : Nat) :
    Nat → Fs → Nat → Nat → BitmapBh → Exec ((Fs × GroupSearch) × BitmapBh)
  | 0, fs, _, num, bh => .done ((fs, .missed num), bh)
  | n + 1, fs, groupNo, num, bh =>
    let groupNo := if fs.sbi.sGroupsCount ≤ groupNo + 1 then 0 else groupNo + 1
    match fs.groupDesc groupNo with
    | none => .done ((fs, .ioError), bh)
    | some gdp =>
      let freeBlocks := gdp.bgFreeBlocksCount.toNat
      if freeBlocks = 0 then searchGroupsBh useRsv windowsz n fs groupNo num bh
      else if useRsv && freeBlocks ≤ windowsz / 2 then
        searchGroupsBh useRsv windowsz n fs groupNo num bh
      else
        let bh := bh.brelse.readBlockBitmap (env.readBitmap groupNo)
        if !env.readBitmap groupNo then .done ((fs, .ioError), bh)
        else
          (tryGroup ops ino fuel fs useRsv groupNo (-1) num).bind fun (fs, found, num) =>
            match found with
            | some first => .done ((fs, .found groupNo first num), bh)
            | none => searchGroupsBh useRsv windowsz n fs groupNo num bh

/-- From `retry_alloc` on: the bitmap of the goal group is read over `bitmap_bh`. -/
def searchFromBh (fs : Fs) (goal groupNo : Nat) (useRsv : Bool) (windowsz num : Nat)
    (bh : BitmapBh) : Exec ((Fs × GroupSearch) × BitmapBh) :=
  match fs.groupDesc groupNo with
  | none => .done ((fs, .ioError), bh)
  | some gdp =>
    if gdp.bgFreeBlocksCount.toNat = 0 then
      searchGroupsBh ops env ino fuel useRsv windowsz fs.sbi.sGroupsCount fs groupNo num bh
    else
      let bh := bh.readBlockBitmap (env.readBitmap groupNo)
      if !env.readBitmap groupNo then .done ((fs, .ioError), bh)
      else
        let grpTargetBlk :=
          (goal - fs.sbi.sEs.sFirstDataBlock.toNat) % fs.sbi.sBlocksPerGroup
        (tryGroup ops ino fuel fs useRsv groupNo grpTargetBlk num).bind fun (fs, found, num) =>
          match found with
          | some first => .done ((fs, .found groupNo first num), bh)
          | none =>
            searchGroupsBh ops env ino fuel useRsv windowsz fs.sbi.sGroupsCount fs groupNo num bh

/-- The loop at `retry_alloc` with `bitmap_bh`. -/
def retryAllocBh (goal goalGroup : Nat) :
    Nat → Fs → Nat → Bool → Nat → Nat → BitmapBh →
    Exec ((Fs × Except (Errno × Bool) (Nat × Nat × Nat)) × BitmapBh)
  | 0, _, _, _, _, _, _ => .running
  | rounds + 1, fs, groupNo, useRsv, windowsz, num, bh =>
    let useRsv := keepRsv ino fs groupNo useRsv windowsz
    (searchFromBh ops env ino fuel fs goal groupNo useRsv windowsz num bh).bind
      fun ((fs, result), bh) =>
        match result with
        | .ioError => .done ((fs, .error (.eio, false)), bh)
        | .missed num =>
          if useRsv then retryAllocBh goal goalGroup rounds fs goalGroup false 0 num bh
          else .done ((fs, .error (.enospc, false)), bh)
        | .found group first num =>
          let retBlock := first + fs.sbi.groupFirstBlockNo group
          if inSystemZone fs.sbi (fs.desc group) retBlock num then
            retryAllocBh goal goalGroup rounds fs group useRsv windowsz num bh
          else if fs.sbi.sEs.sBlocksCount.toNat ≤ retBlock + num - 1 then
            .done ((fs, .error (.enospc, true)), bh)
          else .done ((fs, .ok (group, retBlock, num)), bh)

/-- `kr_new_blocks` with the references it keeps. All its ends behind the quota check release
`bitmap_bh`. -/
def krNewBlocksRefs (fs : Fs) (goal count : Nat) : Exec ((Fs × Except Errno (Nat × Nat)) × Int) :=
  match env.quota with
  | some e => .done ((fs, .error e), 0)
  | none =>
    let fs := fs.chargeBlocks ino count
    let windowsz := fs.windowSize ino
    if !krHasFreeBlocks fs.sbi env then
      .done ((fs.chargeBlocks ino (-count), .error .enospc), BitmapBh.null.brelse.refs)
    else
      let groupNo := fs.sbi.goalGroup goal
      let goal := fs.sbi.goalBlock goal
      (retryAllocBh ops env ino fuel goal groupNo fuel fs groupNo (0 < windowsz) windowsz count
        .null).bind fun ((fs, result), bh) =>
          match result with
          | .error (e, performed) =>
            .done ((if performed then fs else fs.chargeBlocks ino (-count), .error e), bh.brelse.refs)
          | .ok (group, retBlock, num) =>
            let fs := { fs with
              desc := Function.update fs.desc group (groupAdjustBlocks (fs.desc group) (-num))
              sFreeblocksCounter := fs.sFreeblocksCounter - num }
            let fs := if num < count then fs.chargeBlocks ino (-(count - num : Nat)) else fs
            .done ((fs, .ok (retBlock, num)), bh.brelse.refs)

theorem searchGroupsBh_fst (useRsv : Bool) (windowsz n : Nat) :
    ∀ (fs : Fs) (groupNo num : Nat) (bh : BitmapBh),
    (searchGroupsBh ops env ino fuel useRsv windowsz n fs groupNo num bh).map Prod.fst =
      searchGroups ops env ino fuel useRsv windowsz n fs groupNo num := by
  induction n with
  | zero => exact fun _ _ _ _ => rfl
  | succ n ih =>
    intro fs groupNo num bh
    unfold searchGroupsBh searchGroups
    dsimp only
    generalize (if fs.sbi.sGroupsCount ≤ groupNo + 1 then 0 else groupNo + 1) = group
    generalize fs.groupDesc group = gdp
    cases gdp with
    | none => rfl
    | some gdp =>
      dsimp only
      split
      · exact ih _ _ _ _
      split
      · exact ih _ _ _ _
      split
      · rfl
      · rw [Exec.map_bind]
        congr 1
        funext end₁
        obtain ⟨fs₁, found, num₁⟩ := end₁
        cases found with
        | some first => rfl
        | none => exact ih _ _ _ _

theorem searchFromBh_fst (fs : Fs) (goal groupNo : Nat) (useRsv : Bool) (windowsz num : Nat)
    (bh : BitmapBh) :
    (searchFromBh ops env ino fuel fs goal groupNo useRsv windowsz num bh).map Prod.fst =
      searchFrom ops env ino fuel fs goal groupNo useRsv windowsz num := by
  unfold searchFromBh searchFrom
  generalize fs.groupDesc _ = gdp
  cases gdp with
  | none => rfl
  | some gdp =>
    dsimp only
    split
    · exact searchGroupsBh_fst ops env ino fuel useRsv windowsz _ _ _ _ _
    split
    · rfl
    · rw [Exec.map_bind]
      congr 1
      funext end₁
      obtain ⟨fs₁, found, num₁⟩ := end₁
      cases found with
      | some first => rfl
      | none => exact searchGroupsBh_fst ops env ino fuel useRsv windowsz _ _ _ _ _

theorem retryAllocBh_fst (goal goalGroup rounds : Nat) :
    ∀ (fs : Fs) (groupNo : Nat) (useRsv : Bool) (windowsz num : Nat) (bh : BitmapBh),
    (retryAllocBh ops env ino fuel goal goalGroup rounds fs groupNo useRsv windowsz num bh).map
        Prod.fst =
      retryAlloc ops env ino fuel goal goalGroup rounds fs groupNo useRsv windowsz num := by
  induction rounds with
  | zero => exact fun _ _ _ _ _ _ => rfl
  | succ rounds ih =>
    intro fs groupNo useRsv windowsz num bh
    unfold retryAllocBh retryAlloc
    dsimp only
    rw [← searchFromBh_fst ops env ino fuel fs goal groupNo _ windowsz num bh, Exec.map_bind,
      Exec.map, Exec.bind_assoc]
    congr 1
    funext end₁
    obtain ⟨⟨fs₁, found⟩, bh₁⟩ := end₁
    cases found with
    | ioError => rfl
    | missed num₁ =>
      simp only [Exec.bind, apply_ite (Exec.map Prod.fst), ih, Exec.map_done]
    | found group first num₁ =>
      simp only [Exec.bind, apply_ite (Exec.map Prod.fst), ih, Exec.map_done]

theorem krNewBlocksRefs_fst (fs : Fs) (goal count : Nat) :
    (krNewBlocksRefs ops env ino fuel fs goal count).map Prod.fst =
      krNewBlocks ops env ino fuel fs goal count := by
  unfold krNewBlocksRefs krNewBlocks
  generalize env.quota = quota
  cases quota with
  | some e => rfl
  | none =>
  dsimp only
  split
  · rfl
  rw [← retryAllocBh_fst ops env ino fuel _ _ fuel _ _ _ _ count .null, Exec.map_bind, Exec.map,
    Exec.bind_assoc]
  congr 1
  funext end₁
  obtain ⟨⟨fs₁, outcome⟩, bh⟩ := end₁
  cases outcome with
  | error err => rfl
  | ok found => rfl

end NewBlocks

/-- The descriptor of a group counts free blocks. -/
def Fs.CountsFree (fs : Fs) (group : Nat) : Prop :=
  group < fs.sbi.sGroupsCount ∧ (fs.desc group).bgFreeBlocksCount.toNat ≠ 0

/-- A call searches, and comes back to `retry_alloc` with a bitmap that is read over: the run it
marks first lies in the metadata, or the search with a window misses although the goal group
counts free blocks. -/
def AllocView.Overwrites (v : AllocView) (env : AllocEnv) (goal count : Nat) : Prop :=
  env.MaySearch v.sbi ∧
    ((∃ run v', v.FirstRun env.readBitmap goal count run v' ∧ run.InZone v.sbi v.desc) ∨
      v.WindowMisses env.readBitmap goal count ∧ v.freeCount (v.sbi.goalGroup goal) ≠ 0)

/-- The code of the loop reads a bitmap over the one that is held. -/
def RetryOverwrites (ops : Rebalance Window) (env : AllocEnv) (ino fuel goal goalGroup : Nat) (fs : Fs)
    (groupNo : Nat) (useRsv : Bool) (windowsz num : Nat) : Prop :=
  (∃ fs' run, MarksFirst ops env ino fuel goal goalGroup fs groupNo useRsv windowsz num fs' run ∧
    run.InZone fs.sbi fs.desc) ∨
  ∃ fs' num',
    searchFrom ops env ino fuel fs goal groupNo (keepRsv ino fs groupNo useRsv windowsz) windowsz
      num = .done (fs', .missed num') ∧
      keepRsv ino fs groupNo useRsv windowsz = true ∧ fs.CountsFree goalGroup

section Spec

variable {ops : Rebalance Window} {env : AllocEnv} {ino fuel : Nat} {fs fs' : Fs}

/-- How a search over groups leaves `bitmap_bh`: nothing is lost on the way, and blocks are
found only in a bitmap that is held. -/
def SearchBhOk (held : Prop) (lost : Int) (bh : BitmapBh) : GroupSearch → Prop
  | .found .. => bh.lost = lost ∧ bh.set = true
  | .missed _ => bh.lost = lost ∧ (held → bh.set = true)
  | .ioError => bh.lost = lost

theorem SearchBhOk.lost_eq {held : Prop} {lost : Int} {bh : BitmapBh} {result : GroupSearch}
    (h : SearchBhOk held lost bh result) : bh.lost = lost := by
  cases result with
  | found group first num => exact h.1
  | missed num => exact h.1
  | ioError => exact h

theorem SearchBhOk.weaken {held held' : Prop} {lost : Int} {bh : BitmapBh} {result : GroupSearch}
    (himp : held' → held) (h : SearchBhOk held lost bh result) : SearchBhOk held' lost bh result := by
  cases result with
  | found group first num => exact h
  | missed num => exact ⟨h.1, fun hheld => h.2 (himp hheld)⟩
  | ioError => exact h

variable {bh bh' : BitmapBh} {groupNo windowsz num : Nat} {useRsv : Bool} {result : GroupSearch}

/-- A group that is tried with its bitmap held, and the search that goes on. -/
theorem tryGroup_thenBh {group : Nat} {grpGoal : Int}
    (next : Fs → Nat → Exec ((Fs × GroupSearch) × BitmapBh)) (hset : bh.set = true)
    (hnext : ∀ {fs₁ num₁}, next fs₁ num₁ = .done ((fs', result), bh') →
      SearchBhOk (bh.set = true) bh.lost bh' result)
    (h : (tryGroup ops ino fuel fs useRsv group grpGoal num).bind (fun (fs, found, num) =>
      match found with
      | some first => .done ((fs, .found group first num), bh)
      | none => next fs num) = .done ((fs', result), bh')) :
    SearchBhOk True bh.lost bh' result := by
  obtain ⟨⟨fs₁, found, num₁⟩, -, hrest⟩ := Exec.bind_eq_done.mp h
  cases found with
  | none => exact (hnext hrest).weaken fun _ => hset
  | some first =>
    cases hrest
    exact ⟨rfl, hset⟩

theorem searchGroupsBh_spec (n : Nat) : ∀ {fs : Fs} {groupNo num : Nat} {bh : BitmapBh},
    searchGroupsBh ops env ino fuel useRsv windowsz n fs groupNo num bh =
      .done ((fs', result), bh') → SearchBhOk (bh.set = true) bh.lost bh' result := by
  induction n with
  | zero =>
    intro fs groupNo num bh h
    cases h
    exact ⟨rfl, fun hset => hset⟩
  | succ n ih =>
    intro fs groupNo num bh h
    unfold searchGroupsBh at h
    dsimp only at h
    generalize (if fs.sbi.sGroupsCount ≤ groupNo + 1 then 0 else groupNo + 1) = group at h
    split at h
    · cases h
      exact rfl
    split at h
    · exact ih h
    split at h
    · exact ih h
    have hread : ∀ ok, (bh.brelse.readBlockBitmap ok).lost = bh.lost := by simp
    split at h
    · cases h
      exact hread _
    · rename_i hio
      have hok : env.readBitmap group = true := by simpa using hio
      rw [hok] at h
      have hstep := tryGroup_thenBh (fun fs num => searchGroupsBh ops env ino fuel useRsv windowsz n fs
        group num (bh.brelse.readBlockBitmap true)) rfl ih h
      rw [hread] at hstep
      exact hstep.weaken fun _ => trivial

variable {goal : Nat}

/-- From `retry_alloc` on, a bitmap that is held is lost when the goal group has free
blocks. -/
theorem searchFromBh_read (hfree : fs.CountsFree groupNo)
    (h : searchFromBh ops env ino fuel fs goal groupNo useRsv windowsz num bh =
      .done ((fs', result), bh')) : SearchBhOk True bh.refs bh' result := by
  have hdesc : fs.groupDesc groupNo = some (fs.desc groupNo) := if_neg (by have := hfree.1; omega)
  unfold searchFromBh at h
  simp only [hdesc, hfree.2, if_false] at h
  split at h
  · cases h
    exact BitmapBh.lost_readBlockBitmap _ _
  · rename_i hio
    have hok : env.readBitmap groupNo = true := by simpa using hio
    rw [hok] at h
    have hstep := tryGroup_thenBh (fun fs num => searchGroupsBh ops env ino fuel useRsv windowsz
      fs.sbi.sGroupsCount fs groupNo num (bh.readBlockBitmap true)) rfl
      (fun hrun => searchGroupsBh_spec _ hrun) h
    rwa [BitmapBh.lost_readBlockBitmap] at hstep

/-- Otherwise it is kept. -/
theorem searchFromBh_skip (hfree : ¬ fs.CountsFree groupNo)
    (h : searchFromBh ops env ino fuel fs goal groupNo useRsv windowsz num bh =
      .done ((fs', result), bh')) : SearchBhOk (bh.set = true) bh.lost bh' result := by
  unfold searchFromBh Fs.groupDesc at h
  by_cases hout : fs.sbi.sGroupsCount ≤ groupNo
  · simp only [hout, if_true] at h
    cases h
    exact rfl
  · have hnone : (fs.desc groupNo).bgFreeBlocksCount.toNat = 0 := by
      by_contra hne
      exact hfree ⟨by omega, hne⟩
    simp only [hout, if_false, hnone, if_true] at h
    exact searchGroupsBh_spec _ h

/-- Whatever the search does, no reference that was lost comes back. -/
theorem searchFromBh_mono
    (h : searchFromBh ops env ino fuel fs goal groupNo useRsv windowsz num bh =
      .done ((fs', result), bh')) : bh.lost ≤ bh'.lost := by
  by_cases hfree : fs.CountsFree groupNo
  · rw [(searchFromBh_read hfree h).lost_eq]
    exact bh.lost_le_refs
  · rw [(searchFromBh_skip hfree h).lost_eq]

theorem tryGroup_desc {group num' : Nat} {grpGoal : Int} {found : Option Nat}
    (h : tryGroup ops ino fuel fs useRsv group grpGoal num = .done (fs', found, num')) :
    fs'.sbi = fs.sbi ∧ fs'.desc = fs.desc := by
  unfold tryGroup at h
  dsimp only at h
  cases useRsv with
  | true =>
    rw [if_pos rfl] at h
    obtain ⟨⟨rsv, bm, found'⟩, -, hend⟩ := Exec.bind_eq_done.mp h
    cases found' with
    | none =>
      cases hend
      exact ⟨rfl, rfl⟩
    | some run =>
      cases hend
      exact ⟨rfl, rfl⟩
  | false =>
    rw [if_neg Bool.false_ne_true] at h
    obtain ⟨res, -, hend⟩ := Exec.bind_eq_done.mp h
    cases hend
    exact ⟨rfl, rfl⟩

theorem Fs.countsFree_of {group : Nat} {gdp : GroupDesc} (hdesc : fs.groupDesc group = some gdp)
    (hfree : ¬ gdp.bgFreeBlocksCount.toNat = 0) : fs.CountsFree group := by
  obtain ⟨hlt, rfl⟩ := Fs.groupDesc_some hdesc
  exact ⟨hlt, hfree⟩

theorem Fs.countsFree_congr {group : Nat} (hsbi : fs'.sbi = fs.sbi) (hdesc : fs'.desc = fs.desc) :
    fs'.CountsFree group ↔ fs.CountsFree group := by
  unfold Fs.CountsFree
  rw [hsbi, hdesc]

/-- What a search leaves of the descriptors, and where it finds blocks. -/
def SearchDesc (fs fs' : Fs) (result : GroupSearch) : Prop :=
  (fs'.sbi = fs.sbi ∧ fs'.desc = fs.desc) ∧
    ∀ group first n, result = .found group first n → fs.CountsFree group

theorem tryGroup_thenDesc {group : Nat} {grpGoal : Int}
    (next : Fs → Nat → Exec (Fs × GroupSearch)) (hfree : fs.CountsFree group)
    (hnext : ∀ {fs₁ num₁}, next fs₁ num₁ = .done (fs', result) → SearchDesc fs₁ fs' result)
    (h : (tryGroup ops ino fuel fs useRsv group grpGoal num).bind (fun (fs, found, num) =>
      match found with
      | some first => .done (fs, .found group first num)
      | none => next fs num) = .done (fs', result)) : SearchDesc fs fs' result := by
  obtain ⟨⟨fs₁, found, num₁⟩, htry, hrest⟩ := Exec.bind_eq_done.mp h
  obtain ⟨hsbi, hdesc⟩ := tryGroup_desc htry
  cases found with
  | none =>
    obtain ⟨⟨hsbi', hdesc'⟩, hfound⟩ := hnext hrest
    refine ⟨⟨hsbi'.trans hsbi, hdesc'.trans hdesc⟩, fun g first n hres => ?_⟩
    exact (Fs.countsFree_congr hsbi hdesc).mp (hfound g first n hres)
  | some first =>
    cases hrest
    refine ⟨⟨hsbi, hdesc⟩, fun g first' n hres => ?_⟩
    cases hres
    exact hfree

theorem searchGroups_desc (n : Nat) : ∀ {fs : Fs} {groupNo num : Nat},
    searchGroups ops env ino fuel useRsv windowsz n fs groupNo num = .done (fs', result) →
    SearchDesc fs fs' result := by
  induction n with
  | zero =>
    intro fs groupNo num h
    cases h
    exact ⟨⟨rfl, rfl⟩, by simp⟩
  | succ n ih =>
    intro fs groupNo num h
    unfold searchGroups at h
    dsimp only at h
    generalize (if fs.sbi.sGroupsCount ≤ groupNo + 1 then 0 else groupNo + 1) = group at h
    split at h
    · cases h
      exact ⟨⟨rfl, rfl⟩, by simp⟩
    · rename_i gdp hdesc
      split at h
      · exact ih h
      rename_i hfree
      split at h
      · exact ih h
      split at h
      · cases h
        exact ⟨⟨rfl, rfl⟩, by simp⟩
      · exact tryGroup_thenDesc
          (fun fs num => searchGroups ops env ino fuel useRsv windowsz n fs group num)
          (Fs.countsFree_of hdesc hfree) ih h

theorem searchFrom_desc
    (h : searchFrom ops env ino fuel fs goal groupNo useRsv windowsz num = .done (fs', result)) :
    SearchDesc fs fs' result := by
  unfold searchFrom at h
  split at h
  · cases h
    exact ⟨⟨rfl, rfl⟩, by simp⟩
  · rename_i gdp hdesc
    split at h
    · exact searchGroups_desc _ h
    rename_i hfree
    split at h
    · cases h
      exact ⟨⟨rfl, rfl⟩, by simp⟩
    · exact tryGroup_thenDesc
        (fun fs num => searchGroups ops env ino fuel useRsv windowsz fs.sbi.sGroupsCount fs
          groupNo num) (Fs.countsFree_of hdesc hfree) (fun h => searchGroups_desc _ h) h

variable {goalGroup : Nat} {outcome : Except (Errno × Bool) (Nat × Nat × Nat)}

/-- The first visit of `retry_alloc`, and what it has lost at the end of the call. -/
theorem retryAllocBh_mono (rounds : Nat) :
    ∀ {fs : Fs} {groupNo : Nat} {useRsv : Bool} {windowsz num : Nat} {bh : BitmapBh},
    retryAllocBh ops env ino fuel goal goalGroup rounds fs groupNo useRsv windowsz num bh =
      .done ((fs', outcome), bh') →
    ∃ found bh₁, searchFromBh ops env ino fuel fs goal groupNo
      (keepRsv ino fs groupNo useRsv windowsz) windowsz num bh = .done (found, bh₁) ∧
        bh₁.lost ≤ bh'.lost := by
  induction rounds with
  | zero =>
    intro fs groupNo useRsv windowsz num bh h
    cases h
  | succ rounds ih =>
    intro fs groupNo useRsv windowsz num bh h
    unfold retryAllocBh at h
    obtain ⟨⟨⟨fs₁, found⟩, bh₁⟩, hsearch, hrest⟩ := Exec.bind_eq_done.mp h
    refine ⟨_, bh₁, hsearch, ?_⟩
    -- a visit that follows keeps what was lost
    have hnext : ∀ {groupNo useRsv windowsz num},
        retryAllocBh ops env ino fuel goal goalGroup rounds fs₁ groupNo useRsv windowsz num bh₁ =
          .done ((fs', outcome), bh') → bh₁.lost ≤ bh'.lost := by
      intro groupNo useRsv windowsz num hrun
      obtain ⟨found, bh₂, hsearch₂, hle⟩ := ih hrun
      exact (searchFromBh_mono hsearch₂).trans hle
    dsimp only at hrest
    cases found with
    | ioError =>
      cases hrest
      exact le_refl _
    | missed num₁ =>
      dsimp only at hrest
      split at hrest
      · exact hnext hrest
      · cases hrest
        exact le_refl _
    | found group first num₁ =>
      dsimp only at hrest
      split at hrest
      · exact hnext hrest
      · split at hrest
        · cases hrest
          exact le_refl _
        · cases hrest
          exact le_refl _

/-- A bitmap that is held at `retry_alloc` is lost when the group has free blocks. -/
theorem retryAllocBh_held {rounds : Nat} (hset : bh.set = true) (hfree : fs.CountsFree groupNo)
    (h : retryAllocBh ops env ino fuel goal goalGroup rounds fs groupNo useRsv windowsz num bh =
      .done ((fs', outcome), bh')) : bh.lost < bh'.lost := by
  obtain ⟨⟨fs₁, found⟩, bh₁, hsearch, hle⟩ := retryAllocBh_mono rounds h
  rw [(searchFromBh_read hfree hsearch).lost_eq] at hle
  have hlost := BitmapBh.lost_of_set hset
  omega

section Cases

variable {fs₁ : Fs} {num₁ : Nat}

theorem retryOverwrites_of_ioError
    (hsearch : searchFrom ops env ino fuel fs goal groupNo (keepRsv ino fs groupNo useRsv windowsz)
      windowsz num = .done (fs₁, .ioError)) :
    ¬ RetryOverwrites ops env ino fuel goal goalGroup fs groupNo useRsv windowsz num := by
  rintro (⟨fs₂, run, hmarks, -⟩ | ⟨fs₂, num₂, hmissed, -, -⟩)
  · exact hmarks.not_ioError hsearch
  · rw [hsearch] at hmissed
    cases hmissed

theorem retryOverwrites_of_missed
    (hsearch : searchFrom ops env ino fuel fs goal groupNo (keepRsv ino fs groupNo useRsv windowsz)
      windowsz num = .done (fs₁, .missed num₁)) :
    RetryOverwrites ops env ino fuel goal goalGroup fs groupNo useRsv windowsz num ↔
      keepRsv ino fs groupNo useRsv windowsz = true ∧ (fs.CountsFree goalGroup ∨
        RetryOverwrites ops env ino fuel goal goalGroup fs₁ goalGroup false 0 num₁) := by
  obtain ⟨⟨hsbi, hdesc⟩, -⟩ := searchFrom_desc hsearch
  constructor
  · rintro (⟨fs₂, run, hmarks, hzone⟩ | ⟨fs₂, num₂, hmissed, hrsv, hfree⟩)
    · obtain ⟨hrsv, hrest⟩ := hmarks.of_missed hsearch
      exact ⟨hrsv, Or.inr (Or.inl ⟨fs₂, run, hrest, by rwa [hsbi, hdesc]⟩)⟩
    · exact ⟨hrsv, Or.inl hfree⟩
  · rintro ⟨hrsv, hfree | ⟨fs₂, run, hmarks, hzone⟩ | ⟨fs₂, num₂, -, hkeep, -⟩⟩
    · exact Or.inr ⟨fs₁, num₁, hsearch, hrsv, hfree⟩
    · rw [hsbi, hdesc] at hzone
      exact Or.inl ⟨fs₂, run, .again hsearch hrsv hmarks, hzone⟩
    · -- the second search is made without the window
      simp [keepRsv] at hkeep

theorem retryOverwrites_of_found {group first n : Nat}
    (hsearch : searchFrom ops env ino fuel fs goal groupNo (keepRsv ino fs groupNo useRsv windowsz)
      windowsz num = .done (fs₁, .found group first n)) :
    RetryOverwrites ops env ino fuel goal goalGroup fs groupNo useRsv windowsz num ↔
      (MarkedRun.mk group first n).InZone fs.sbi fs.desc := by
  constructor
  · rintro (⟨fs₂, run, hmarks, hzone⟩ | ⟨fs₂, num₂, hmissed, -, -⟩)
    · cases hmarks with
      | found hfound =>
        rw [hsearch] at hfound
        cases hfound
        exact hzone
      | again hagain =>
        rw [hsearch] at hagain
        cases hagain
    · rw [hsearch] at hmissed
      cases hmissed
  · intro hzone
    exact Or.inl ⟨fs₁, _, .found hsearch, hzone⟩

end Cases

/-- The references that a call loses, from the first visit of `retry_alloc` on. -/
theorem retryAllocBh_iff (rounds : Nat) :
    ∀ {fs : Fs} {useRsv : Bool} {windowsz num : Nat} {bh : BitmapBh},
    (bh.set = true → ¬ fs.CountsFree goalGroup) →
    retryAllocBh ops env ino fuel goal goalGroup rounds fs goalGroup useRsv windowsz num bh =
      .done ((fs', outcome), bh') →
    (bh'.lost = bh.lost ↔
      ¬ RetryOverwrites ops env ino fuel goal goalGroup fs goalGroup useRsv windowsz num) ∧
    bh.lost ≤ bh'.lost := by
  induction rounds with
  | zero =>
    intro fs useRsv windowsz num bh _ h
    cases h
  | succ rounds ih =>
    intro fs useRsv windowsz num bh hbh h
    have hmono : bh.lost ≤ bh'.lost := by
      obtain ⟨found, bh₁, hsearch, hle⟩ := retryAllocBh_mono (rounds + 1) h
      exact (searchFromBh_mono hsearch).trans hle
    refine ⟨?_, hmono⟩
    unfold retryAllocBh at h
    obtain ⟨⟨⟨fs₁, found⟩, bh₁⟩, hsearchBh, hrest⟩ := Exec.bind_eq_done.mp h
    have hsearch : searchFrom ops env ino fuel fs goal goalGroup
        (keepRsv ino fs goalGroup useRsv windowsz) windowsz num = .done (fs₁, found) := by
      rw [← searchFromBh_fst ops env ino fuel fs goal goalGroup _ windowsz num bh]
      exact Exec.done_of_map Prod.fst hsearchBh
    obtain ⟨⟨hsbi, hdesc⟩, hfound⟩ := searchFrom_desc hsearch
    have hok : SearchBhOk (fs.CountsFree goalGroup) bh.lost bh₁ found := by
      by_cases hfree : fs.CountsFree goalGroup
      · have hread := searchFromBh_read hfree hsearchBh
        have hrefs : bh.refs = bh.lost := by
          have hunset : ¬ bh.set = true := fun hset => hbh hset hfree
          simp [BitmapBh.lost, hunset]
        rw [hrefs] at hread
        exact hread.weaken fun _ => trivial
      · exact (searchFromBh_skip hfree hsearchBh).weaken fun hyes => absurd hyes hfree
    dsimp only at hrest
    cases found with
    | ioError =>
      cases hrest
      exact iff_of_true hok (retryOverwrites_of_ioError hsearch)
    | missed num₁ =>
      dsimp only at hrest
      rw [retryOverwrites_of_missed hsearch]
      split at hrest
      · rename_i hrsv
        have hcounts : fs₁.CountsFree goalGroup ↔ fs.CountsFree goalGroup :=
          Fs.countsFree_congr hsbi hdesc
        by_cases hfree : fs.CountsFree goalGroup
        · have hlt := retryAllocBh_held (hok.2 hfree) (hcounts.mpr hfree) hrest
          rw [hok.1] at hlt
          exact iff_of_false hlt.ne' (not_not.mpr ⟨hrsv, Or.inl hfree⟩)
        · have hnext := ih (fun _ hyes => hfree (hcounts.mp hyes)) hrest
          rw [hok.1] at hnext
          simpa only [hrsv, hfree, true_and, false_or] using hnext.1
      · rename_i hrsv
        cases hrest
        exact iff_of_true hok.1 fun hyes => hrsv hyes.1
    | found group first num₁ =>
      dsimp only at hrest
      rw [retryOverwrites_of_found hsearch]
      rw [hsbi, hdesc] at hrest
      split at hrest
      · rename_i hzone
        have hcounts := (Fs.countsFree_congr hsbi hdesc).mpr (hfound group first num₁ rfl)
        have hlt := retryAllocBh_held hok.2 hcounts hrest
        rw [hok.1] at hlt
        exact iff_of_false hlt.ne' (not_not.mpr hzone)
      · rename_i hzone
        have hend : bh' = bh₁ := by
          split at hrest
          · cases hrest
            rfl
          · cases hrest
            rfl
        rw [hend]
        exact iff_of_true hok.1 hzone

/-- Whether the code reads a bitmap over another is told beforehand. -/
theorem retryOverwrites_iff {rounds count : Nat} {res : Fs × Except (Errno × Bool) (Nat × Nat × Nat)}
    (hbpg : 0 < fs.sbi.sBlocksPerGroup) (hwf : fs.rsv.Wf)
    (hdone : retryAlloc ops env ino fuel (fs.sbi.goalBlock goal) (fs.sbi.goalGroup goal) rounds fs
      (fs.sbi.goalGroup goal) (0 < fs.windowSize ino) (fs.windowSize ino) count = .done res) :
    RetryOverwrites ops env ino fuel (fs.sbi.goalBlock goal) (fs.sbi.goalGroup goal) fs
        (fs.sbi.goalGroup goal) (0 < fs.windowSize ino) (fs.windowSize ino) count ↔
      (∃ run v', (fs.allocView ino).FirstRun env.readBitmap goal count run v' ∧
        run.InZone fs.sbi fs.desc) ∨
      (fs.allocView ino).WindowMisses env.readBitmap goal count ∧
        (fs.allocView ino).freeCount (fs.sbi.goalGroup goal) ≠ 0 := by
  have hkeep := keepRsv_iff fs ino goal
  refine or_congr ⟨?_, ?_⟩ ⟨?_, ?_⟩
  · rintro ⟨fs₁, run, hmarks, hzone⟩
    exact ⟨run, _, hmarks.firstRun hbpg hwf, hzone⟩
  · rintro ⟨run, v', hfirst, hzone⟩
    obtain ⟨fs₁, -, hmarks⟩ := hfirst.marksFirst hbpg hwf hdone
    exact ⟨fs₁, run, hmarks, hzone⟩
  · rintro ⟨fs₁, num₁, hmissed, hrsv, hinside, hfree⟩
    have huses := hkeep.mp hrsv
    rw [hrsv] at hmissed
    obtain ⟨e, rfl, htries⟩ :=
      searchFrom_tries hinside hbpg (.of_uses hwf huses _) (fun _ => rfl) hmissed
    exact ⟨⟨hinside, huses, _, htries⟩, hfree⟩
  · rintro ⟨⟨hinside, huses, s, hmisses⟩, hfree⟩
    have hrsv := hkeep.mpr huses
    obtain ⟨fs₁, found, hsearch, -⟩ := retryAlloc_search hdone
    have hsearch' := hsearch
    rw [hrsv] at hsearch'
    obtain ⟨e, hend, htries⟩ :=
      searchFrom_tries hinside hbpg (.of_uses hwf huses _) (fun _ => rfl) hsearch'
    obtain rfl := htries.unique hmisses
    cases found with
    | found group first num₁ => cases hend.choose_spec
    | ioError => cases hend
    | missed num₁ => exact ⟨fs₁, num₁, hsearch, hrsv, hinside, hfree⟩

/-- `kr_new_blocks` releases what it reads, just when it reads no bitmap over another; it
never releases more. -/
theorem krNewBlocksRefs_iff {count : Nat} {result : Except Errno (Nat × Nat)} {refs : Int}
    (hbpg : 0 < fs.sbi.sBlocksPerGroup) (hwf : fs.rsv.Wf)
    (hrun : krNewBlocksRefs ops env ino fuel fs goal count = .done ((fs', result), refs)) :
    (refs = 0 ↔ ¬ (fs.allocView ino).Overwrites env goal count) ∧ 0 ≤ refs := by
  unfold krNewBlocksRefs at hrun
  split at hrun
  · rename_i err hquota
    cases hrun
    refine ⟨iff_of_true rfl fun h => ?_, le_refl _⟩
    rw [h.1.1] at hquota
    cases hquota
  rename_i hquota
  dsimp only at hrun
  split at hrun
  · rename_i hhas
    cases hrun
    refine ⟨iff_of_true rfl fun h => ?_, le_refl _⟩
    have hmay : krHasFreeBlocks (fs.chargeBlocks ino count).sbi env = true := h.1.2
    rw [hmay] at hhas
    cases hhas
  rename_i hhas
  obtain ⟨⟨⟨fs₁, outcome⟩, bh⟩, hretryBh, hend⟩ := Exec.bind_eq_done.mp hrun
  have hrefs : refs = bh.lost := by
    rw [← BitmapBh.refs_brelse]
    cases outcome with
    | error err =>
      cases hend
      rfl
    | ok found =>
      cases hend
      rfl
  have hretry := Exec.done_of_map Prod.fst hretryBh
  rw [retryAllocBh_fst] at hretry
  obtain ⟨hiff, hnn⟩ := retryAllocBh_iff fuel (fun hset => absurd hset Bool.false_ne_true) hretryBh
  rw [BitmapBh.lost_null] at hiff hnn
  have hmay : env.MaySearch fs.sbi := by
    refine ⟨hquota, ?_⟩
    have hno : ¬ (!krHasFreeBlocks fs.sbi env) = true := hhas
    simpa using hno
  have hover := retryOverwrites_iff (show 0 < (fs.chargeBlocks ino count).sbi.sBlocksPerGroup from hbpg)
    (show (fs.chargeBlocks ino count).rsv.Wf from hwf) hretry
  rw [fs.allocView_chargeBlocks ino count] at hover
  rw [hrefs, hiff, hover]
  exact ⟨not_congr (and_iff_right hmay).symm, hnn⟩

end Spec

end KrFs
