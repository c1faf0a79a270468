import KrFs.BitmapRefs
import KrFs.GetBlocksRace
import KrFs.InodeChanges

/-!
# References to the buffers of a chain

`kr_get_blocks` and the functions it calls with the references they take to buffers, as a net
number: one up for each `sb_bread` and `sb_getblk`, one down for each `brelse` and `bforget`,
and what the calls of the allocator keep. The chain is released through the pointer that
`kr_get_branch` returned. It is `NULL` for a complete chain, and then a chain that has to be
read again is never released. Without the number these are the functions of the block map.
-/

namespace KrFs

open SearchTree

/-- The loop of `kr_get_branch`: `sb_bread`, and `brelse` when the chain has changed. -/
def getBranchLoopRefs (mem : Nat → Mem) (bread : Nat → Bool) :
    Nat → List Indirect → Nat → List Nat → Int → Branch × Int
  | _, chain, _, [], refs => (⟨chain, true, none⟩, refs)
  | i, chain, key, off :: offsets, refs =>
    if !bread i then (⟨chain, false, some .eio⟩, refs)
    else
      let refs := refs + 1
      if !verifyChain (mem (i + 1)) chain then (⟨chain, false, some .eagain⟩, refs - 1)
      else
        let p := addChain (mem (i + 1)) (.block key) off
        if p.key = 0 then (⟨chain ++ [p], false, none⟩, refs)
        else getBranchLoopRefs mem bread (i + 1) (chain ++ [p]) p.key offsets refs

def krGetBranchRefs (mem : Nat → Mem) (bread : Nat → Bool) : List Nat → Branch × Int
  | [] => (⟨[], true, none⟩, 0)
  | off :: offsets =>
    let p := addChain (mem 0) .inode off
    if p.key = 0 then (⟨[p], false, none⟩, 0)
    else getBranchLoopRefs mem bread 0 [p] p.key offsets 0

/-- The loop `while (partial > chain)` with its `brelse`. `partial` is the index of an entry;
`NULL` is below every entry. -/
def releaseChain : Option Nat → Int
  | none => 0
  | some i => -(i : Int)

/-- What `kr_get_branch` returns. -/
def Branch.returned (br : Branch) : Option Nat :=
  if br.complete then none else some (br.chain.length - 1)

section GetBlocks

variable (ops : Rebalance Window) (env : GetBlocksEnv) (ino fuel : Nat)

def allocBlocksLoopRefs (goal indirectBlks : Nat) : Nat → Nat → Fs → Nat → List Nat → Int →
    Exec ((Fs × Except (Errno × List Nat) (List Nat × Nat × Nat)) × Int)
  | 0, _, _, _, _, _ => .running
  | rounds + 1, k, fs, target, new, refs =>
    (krNewBlocksRefs ops (env.alloc k) ino fuel fs goal target).bind fun ((fs, result), got) =>
      let refs := refs + got
      match result with
      | .error e => .done ((fs, .error (e, new)), refs)
      | .ok (current, count) =>
        let taken := min (indirectBlks - new.length) count
        let new := new ++ List.range' current taken
        if 0 < count - taken then .done ((fs, .ok (new, current + taken, count - taken)), refs)
        else allocBlocksLoopRefs goal indirectBlks rounds (k + 1) fs (target - count) new refs

def freeEachRefs (fs : Fs) (refs : Int) : List Nat → Fs × Int
  | [] => (fs, refs)
  | b :: blocks =>
    let (fs, got) := krFreeBlocksRefs env.readBitmap fs ino b 1
    freeEachRefs fs (refs + got) blocks

def krAllocBlocksRefs (fs : Fs) (goal indirectBlks blks : Nat) :
    Exec ((Fs × Except Errno (List Nat × Nat × Nat)) × Int) :=
  (allocBlocksLoopRefs ops env ino fuel goal indirectBlks (indirectBlks + 1) 0 fs
    (blks + indirectBlks) [] 0).bind fun ((fs, result), refs) =>
      match result with
      | .error (e, new) =>
        let (fs, refs) := freeEachRefs env ino fs refs new
        .done ((fs, .error e), refs)
      | .ok found => .done ((fs, .ok found), refs)

/-- The loop of `kr_alloc_branch`, a reference for each `sb_getblk`. Also `n` at its end. -/
def fillBranchRefs (data num : Nat) :
    Nat → Fs → List Nat → List Nat → Int → (Fs × Bool) × Nat × Int
  | n, fs, [], _, refs => ((fs, true), n, refs)
  | n, fs, _ :: _, [], refs => ((fs, true), n, refs)
  | n, fs, b :: rest, off :: offsets, refs =>
    if !env.getblk n then ((fs, false), n, refs)
    else
      let row := branchRow off (rest.headD data) data num rest.isEmpty
      fillBranchRefs data num (n + 1) { fs with ptr := Function.update fs.ptr b row } rest offsets
        (refs + 1)

/-- At `failed` the buffers `1` to `n - 1` are forgotten and the blocks freed. -/
def krAllocBranchRefs (fs : Fs) (goal indirectBlks blks : Nat) (offsets : List Nat) :
    Exec ((Fs × Except Errno (List Nat × Nat × Nat)) × Int) :=
  (krAllocBlocksRefs ops env ino fuel fs goal indirectBlks blks).bind fun ((fs, result), refs) =>
    match result with
    | .error e => .done ((fs, .error e), refs)
    | .ok (new, data, num) =>
      let ((fs, filled), n, refs) := fillBranchRefs env data num 1 fs new offsets refs
      if filled then .done ((fs, .ok (new, data, num)), refs)
      else
        let (fs, refs) := freeEachRefs env ino fs (refs - (n - 1 : Nat)) new
        let (fs, got) := krFreeBlocksRefs env.readBitmap fs ino data num
        .done ((fs, .error .enomem), refs + got)

/-- The locked part from the allocation on, with the `brelse` loop at `cleanup`. -/
def allocLockedRefs (reservation : Bool) (fs : Fs) (iblock maxblocks : Nat) (offsets : List Nat)
    (blocksToBoundary : Int) (chain : List Indirect) (refs : Int) : Exec ((Fs × Mapped) × Int) :=
  let fs := initBlockAllocInfo env ino reservation fs
  let ind := lastEntry chain
  let goal := krFindGoal fs ino env.pid iblock ind
  let indirectBlks := offsets.length - chain.length
  let count := krBlksToAllocate (fs.mem ino) ind indirectBlks maxblocks blocksToBoundary
  (krAllocBranchRefs ops env ino fuel fs goal indirectBlks count
    (offsets.drop chain.length)).bind fun ((fs, result), got) =>
      let refs := refs + got
      match result with
      | .error e =>
        .done ((fs, ⟨.error e, 0, false, false⟩), refs + releaseChain (some (chain.length - 1)))
      | .ok (new, data, num) =>
        .done ((krSpliceBranch env ino fs iblock ind new data num,
          ⟨.ok num, data, true, blocksToBoundary < num⟩),
          refs + releaseChain (some (offsets.length - 1)))

/-- The chain of the locked part. A chain that the first look-up completed is dropped with
`partial` still `NULL`. -/
def relookRefs (m : Mem) (offsets : List Nat) (first : Branch) (err : Option Errno) (refs : Int) :
    Branch × Int :=
  if err = some .eagain || !verifyChain m first.chain then
    let refs := refs + releaseChain first.returned
    let (branch, got) := krGetBranchRefs (fun _ => m) env.breadAgain offsets
    (branch, refs + got)
  else (first, refs)

def krGetBlocksRefs (reservation : Bool) (fs : Fs) (iblock maxblocks : Nat) (create : Bool) :
    Exec ((Fs × Mapped) × Int) :=
  if maxblocks = 0 then .bug
  else
    let (offsets, blocksToBoundary) := fs.path iblock
    if offsets = [] then .done ((fs, ⟨.error .eio, 0, false, false⟩), 0)
    else
      let (first, refs) := krGetBranchRefs env.look env.bread offsets
      let more := if first.complete then
        mapMore env first.chain maxblocks blocksToBoundary maxblocks offsets.length 1 else none
      match more with
      | some count =>
        .done ((fs, mappedAt first.chain count blocksToBoundary),
          refs + releaseChain (some (offsets.length - 1)))
      | none =>
        let err := if first.complete then some .eagain else first.err
        if !create || err = some .eio then
          .done ((fs, ⟨match err with
            | some e => .error e
            | none => .ok 0, 0, false, false⟩), refs + releaseChain first.returned)
        else
          let (branch, refs) := relookRefs env (fs.mem ino) offsets first err refs
          if branch.complete then
            .done ((fs, mappedAt branch.chain 1 blocksToBoundary),
              refs + releaseChain (some (offsets.length - 1)))
          else allocLockedRefs ops env ino fuel reservation fs iblock maxblocks offsets
            blocksToBoundary branch.chain refs

/-! ## Without the number -/

theorem getBranchLoopRefs_fst (mem : Nat → Mem) (bread : Nat → Bool) (offsets : List Nat) :
    ∀ (i : Nat) (chain : List Indirect) (key : Nat) (refs : Int),
    (getBranchLoopRefs mem bread i chain key offsets refs).1 =
      getBranchLoop mem bread i chain key offsets := by
  induction offsets with
  | nil => exact fun _ _ _ _ => rfl
  | cons off offsets ih =>
    intro i chain key refs
    unfold getBranchLoopRefs getBranchLoop
    dsimp only
    split
    · rfl
    split
    · rfl
    split
    · rfl
    · exact ih _ _ _ _

theorem krGetBranchRefs_fst (mem : Nat → Mem) (bread : Nat → Bool) (offsets : List Nat) :
    (krGetBranchRefs mem bread offsets).1 = krGetBranch mem bread offsets := by
  cases offsets with
  | nil => rfl
  | cons off offsets =>
    unfold krGetBranchRefs krGetBranch
    dsimp only
    split
    · rfl
    · exact getBranchLoopRefs_fst _ _ _ _ _ _ _

theorem allocBlocksLoopRefs_fst (goal indirectBlks rounds : Nat) :
    ∀ (k : Nat) (fs : Fs) (target : Nat) (new : List Nat) (refs : Int),
    (allocBlocksLoopRefs ops env ino fuel goal indirectBlks rounds k fs target new refs).map
        Prod.fst = allocBlocksLoop ops env ino fuel goal indirectBlks rounds k fs target new := by
  induction rounds with
  | zero => exact fun _ _ _ _ _ => rfl
  | succ rounds ih =>
    intro k fs target new refs
    unfold allocBlocksLoopRefs allocBlocksLoop
    rw [← krNewBlocksRefs_fst, Exec.map_bind, Exec.map, Exec.bind_assoc]
    congr 1
    funext end₁
    obtain ⟨⟨fs₁, result⟩, got⟩ := end₁
    cases result with
    | error e => rfl
    | ok found => simp only [Exec.bind, apply_ite (Exec.map Prod.fst), ih, Exec.map_done]

theorem freeEachRefs_eq (blocks : List Nat) : ∀ (fs : Fs) (refs : Int),
    freeEachRefs env ino fs refs blocks = (freeEach env ino fs blocks, refs) := by
  induction blocks with
  | nil => exact fun _ _ => rfl
  | cons b blocks ih =>
    intro fs refs
    rw [freeEachRefs]
    dsimp only
    rw [krFreeBlocksRefs_fst, krFreeBlocksRefs_snd, ih, add_zero]
    rfl

theorem krAllocBlocksRefs_fst (fs : Fs) (goal indirectBlks blks : Nat) :
    (krAllocBlocksRefs ops env ino fuel fs goal indirectBlks blks).map Prod.fst =
      krAllocBlocks ops env ino fuel fs goal indirectBlks blks := by
  unfold krAllocBlocksRefs krAllocBlocks
  rw [← allocBlocksLoopRefs_fst ops env ino fuel goal indirectBlks _ 0 fs _ [] 0, Exec.map_bind,
    Exec.map, Exec.bind_assoc]
  congr 1
  funext end₁
  obtain ⟨⟨fs₁, result⟩, refs⟩ := end₁
  cases result with
  | error err =>
    dsimp only
    rw [freeEachRefs_eq]
    rfl
  | ok found => rfl

theorem fillBranchRefs_fst (data num : Nat) (new : List Nat) :
    ∀ (n : Nat) (fs : Fs) (offsets : List Nat) (refs : Int),
    (fillBranchRefs env data num n fs new offsets refs).1 =
      fillBranch env data num n fs new offsets := by
  induction new with
  | nil => exact fun _ _ _ _ => rfl
  | cons b rest ih =>
    intro n fs offsets refs
    cases offsets with
    | nil => rfl
    | cons off offsets =>
      unfold fillBranchRefs fillBranch
      split
      · rfl
      · exact ih _ _ _ _

theorem krAllocBranchRefs_fst (fs : Fs) (goal indirectBlks blks : Nat) (offsets : List Nat) :
    (krAllocBranchRefs ops env ino fuel fs goal indirectBlks blks offsets).map Prod.fst =
      krAllocBranch ops env ino fuel fs goal indirectBlks blks offsets := by
  unfold krAllocBranchRefs krAllocBranch
  rw [← krAllocBlocksRefs_fst, Exec.map_bind, Exec.map, Exec.bind_assoc]
  congr 1
  funext end₁
  obtain ⟨⟨fs₁, result⟩, refs⟩ := end₁
  cases result with
  | error e => rfl
  | ok found =>
    obtain ⟨new, data, num⟩ := found
    dsimp only [Exec.bind]
    rw [← fillBranchRefs_fst env data num new 1 fs₁ offsets refs]
    simp only [freeEachRefs_eq, krFreeBlocksRefs_fst, apply_ite (Exec.map Prod.fst), Exec.map_done]

theorem allocLockedRefs_fst (reservation : Bool) (fs : Fs) (iblock maxblocks : Nat)
    (offsets : List Nat) (blocksToBoundary : Int) (chain : List Indirect) (refs : Int) :
    (allocLockedRefs ops env ino fuel reservation fs iblock maxblocks offsets blocksToBoundary chain
        refs).map Prod.fst =
      allocLocked ops env ino fuel reservation fs iblock maxblocks offsets blocksToBoundary chain := by
  unfold allocLockedRefs allocLocked
  dsimp only
  rw [← krAllocBranchRefs_fst, Exec.map_bind, Exec.map, Exec.bind_assoc]
  congr 1
  funext end₁
  obtain ⟨⟨fs₁, result⟩, got⟩ := end₁
  cases result with
  | error e => rfl
  | ok found => rfl

theorem relookRefs_fst (m : Mem) (offsets : List Nat) (first : Branch) (err : Option Errno)
    (refs : Int) :
    (relookRefs env m offsets first err refs).1 = relook env m offsets first err := by
  unfold relookRefs relook
  split
  · exact krGetBranchRefs_fst _ _ _
  · rfl

theorem krGetBlocksRefs_fst (reservation : Bool) (fs : Fs) (iblock maxblocks : Nat)
    (create : Bool) :
    (krGetBlocksRefs ops env ino fuel reservation fs iblock maxblocks create).map Prod.fst =
      krGetBlocks ops env ino fuel reservation fs iblock maxblocks create := by
  unfold krGetBlocksRefs krGetBlocks
  split
  · rfl
  generalize fs.path iblock = path
  obtain ⟨offsets, blocksToBoundary⟩ := path
  dsimp only
  split
  · rfl
  rw [← krGetBranchRefs_fst env.look env.bread offsets]
  generalize krGetBranchRefs env.look env.bread offsets = got
  obtain ⟨first, refs⟩ := got
  dsimp only
  generalize (if first.complete = true then _ else none) = more
  cases more with
  | some count => rfl
  | none =>
    dsimp only
    generalize (if first.complete = true then some Errno.eagain else first.err) = err
    split
    · rfl
    · rw [← relookRefs_fst env _ _ _ _ refs]
      split
      · rfl
      · exact allocLockedRefs_fst _ _ _ _ _ _ _ _ _ _ _ _

end GetBlocks

/-! ## The conditions -/

/-- The calls for a branch come to one that reads a bitmap over another. -/
def BranchRequest.Overwrites (alloc : Nat → AllocEnv) (goal : Nat) (q : BranchRequest) : Prop :=
  q.Reaches alloc goal fun q' => q'.view.Overwrites (alloc q'.call) goal q'.target

/-- The first look-up has read an indirect block and come to the data, and its chain changes while
more blocks are mapped. -/
def ChainChanges (env : GetBlocksEnv) (fs : Fs) (iblock maxblocks : Nat) : Prop :=
  2 ≤ (fs.path iblock).1.length ∧ ∃ chain, LookUp env.look env.bread (fs.path iblock).1 chain .full ∧
    MapBreaks env.look chain maxblocks (fs.path iblock).2 (fs.path iblock).1.length 1

/-- Under the mutex data is missing, and the calls for a branch lose a bitmap. -/
def LockedOverwrites (env : GetBlocksEnv) (ino : Nat) (reservation : Bool) (fs : Fs)
    (iblock maxblocks : Nat) : Prop :=
  ∃ chain e, env.LocksAt (fs.mem ino) (fs.path iblock).1 (fs.path iblock).2 maxblocks chain e ∧
    e ≠ .full ∧ (lockedRequest env ino reservation fs iblock maxblocks chain).Overwrites env.alloc
      (lockedGoal env ino reservation fs iblock chain)

section Conditions

variable {ops : Rebalance Window} {env : GetBlocksEnv} {ino fuel : Nat} {fs fs' : Fs}
  {iblock maxblocks : Nat} {reservation : Bool}

theorem chainChanges_iff : ChainChanges env fs iblock maxblocks ↔
    2 ≤ (fs.path iblock).1.length ∧
      (krGetBranch env.look env.bread (fs.path iblock).1).complete = true ∧
      mapMore env (krGetBranch env.look env.bread (fs.path iblock).1).chain maxblocks
        (fs.path iblock).2 maxblocks (fs.path iblock).1.length 1 = none := by
  refine and_congr_right fun hlen => ?_
  have hne : (fs.path iblock).1 ≠ [] := by
    intro hnil
    rw [hnil] at hlen
    cases hlen
  obtain ⟨chain, e, hbranch, hlook⟩ := krGetBranch_lookUp env.look env.bread hne
  rw [hbranch, mapMore_eq_none_iff maxblocks (by omega)]
  constructor
  · rintro ⟨chain', hfull, hbreaks⟩
    obtain ⟨rfl, rfl⟩ := hlook.unique hfull
    exact ⟨rfl, hbreaks⟩
  · rintro ⟨hcomplete, hbreaks⟩
    cases e with
    | full => exact ⟨chain, hlook, hbreaks⟩
    | hole => cases hcomplete
    | unread => cases hcomplete
    | changed => cases hcomplete

theorem lockedOverwrites_iff : LockedOverwrites env ino reservation fs iblock maxblocks ↔
    ∃ br, lockedBranch env ino fs iblock maxblocks = some br ∧ br.complete = false ∧
      (lockedRequest env ino reservation fs iblock maxblocks br.chain).Overwrites env.alloc
        (lockedGoal env ino reservation fs iblock br.chain) := by
  have hopen : ∀ e : LookEnd, e ≠ .full ↔ e.complete = false := fun e => by simp [LookEnd.complete]
  simp only [lockedBranch_iff, LockedOverwrites]
  constructor
  · rintro ⟨chain, e, hlocks, hend, hover⟩
    exact ⟨_, ⟨chain, e, rfl, hlocks⟩, (hopen e).mp hend, hover⟩
  · rintro ⟨br, ⟨chain, e, rfl, hlocks⟩, hend, hover⟩
    exact ⟨chain, e, hlocks, (hopen e).mpr hend, hover⟩

/-! ## The calls for a branch -/

section Calls

variable {k goal target indirect : Nat} {fs₁ : Fs}

/-- A call that reads no bitmap over another marks nothing in the metadata. -/
theorem AllocView.not_marksZone {v : AllocView} {env : AllocEnv} {count : Nat}
    (h : ¬ v.Overwrites env goal count) : ¬ v.MarksZone env goal count := by
  rintro ⟨hmay, run, v', hfirst, hzone⟩
  exact h ⟨hmay, Or.inl ⟨run, v', hfirst, hzone⟩⟩

/-- After a call that fails there is no other. -/
theorem overwrites_of_error {e : Errno} (hbpg : 0 < fs.sbi.sBlocksPerGroup) (hwf : fs.rsv.Wf)
    (hcall : krNewBlocks ops (env.alloc k) ino fuel fs goal target = .done (fs₁, .error e)) :
    (BranchRequest.mk k (fs.allocView ino) target indirect).Overwrites env.alloc goal ↔
      (fs.allocView ino).Overwrites (env.alloc k) goal target := by
  by_cases hover : (fs.allocView ino).Overwrites (env.alloc k) goal target
  · exact iff_of_true (BranchRequest.reaches_iff.mpr (Or.inl hover)) hover
  · rcases krNewBlocks_handsOut hbpg hwf (AllocView.not_marksZone hover) hcall with
      ⟨run, hres, -⟩ | ⟨-, hfail⟩
    · cases hres
    · exact BranchRequest.reaches_of_fails hfail

/-- Nor after one that hands out data. -/
theorem overwrites_of_data {current count : Nat} (hbpg : 0 < fs.sbi.sBlocksPerGroup)
    (hwf : fs.rsv.Wf) (hdata : indirect < count)
    (hcall : krNewBlocks ops (env.alloc k) ino fuel fs goal target =
      .done (fs₁, .ok (current, count))) :
    (BranchRequest.mk k (fs.allocView ino) target indirect).Overwrites env.alloc goal ↔
      (fs.allocView ino).Overwrites (env.alloc k) goal target := by
  by_cases hover : (fs.allocView ino).Overwrites (env.alloc k) goal target
  · exact iff_of_true (BranchRequest.reaches_iff.mpr (Or.inl hover)) hover
  · rcases krNewBlocks_handsOut hbpg hwf (AllocView.not_marksZone hover) hcall with
      ⟨run, hres, hout⟩ | ⟨⟨e, hres⟩, -⟩
    · cases hres
      exact BranchRequest.reaches_of_data hout hdata
    · cases hres

theorem overwrites_of_short {current count : Nat} (hbpg : 0 < fs.sbi.sBlocksPerGroup)
    (hwf : fs.rsv.Wf) (hshort : count ≤ indirect)
    (hcall : krNewBlocks ops (env.alloc k) ino fuel fs goal target =
      .done (fs₁, .ok (current, count))) :
    (BranchRequest.mk k (fs.allocView ino) target indirect).Overwrites env.alloc goal ↔
      (fs.allocView ino).Overwrites (env.alloc k) goal target ∨
        ¬ (fs.allocView ino).Overwrites (env.alloc k) goal target ∧
          (BranchRequest.mk (k + 1) (fs₁.allocView ino) (target - count)
            (indirect - count)).Overwrites env.alloc goal := by
  by_cases hover : (fs.allocView ino).Overwrites (env.alloc k) goal target
  · exact iff_of_true (BranchRequest.reaches_iff.mpr (Or.inl hover)) (Or.inl hover)
  · rcases krNewBlocks_handsOut hbpg hwf (AllocView.not_marksZone hover) hcall with
      ⟨run, hres, hout⟩ | ⟨⟨e, hres⟩, -⟩
    · cases hres
      have hserves : (BranchRequest.mk k (fs.allocView ino) target indirect).HandsOut env.alloc goal
        run (fs₁.allocView ino) := hout
      refine (BranchRequest.reaches_of_short hserves hshort).trans ?_
      rw [or_iff_right hover, or_iff_right hover, and_iff_right hover]
      rfl
    · cases hres

end Calls

theorem allocBlocksLoopRefs_iff {goal indirectBlks : Nat} (rounds : Nat) :
    ∀ {k : Nat} {fs : Fs} {target : Nat} {new : List Nat} {refs refs' : Int}
      {result : Except (Errno × List Nat) (List Nat × Nat × Nat)},
    0 < fs.sbi.sBlocksPerGroup → fs.rsv.Wf → new.length ≤ indirectBlks →
    allocBlocksLoopRefs ops env ino fuel goal indirectBlks rounds k fs target new refs =
      .done ((fs', result), refs') →
    (refs' = refs ↔ ¬ (BranchRequest.mk k (fs.allocView ino) target
      (indirectBlks - new.length)).Overwrites env.alloc goal) ∧ refs ≤ refs' ∧
    ∀ new' data num, result = .ok (new', data, num) → new'.length = indirectBlks := by
  induction rounds with
  | zero =>
    intro k fs target new refs refs' result _ _ _ h
    cases h
  | succ rounds ih =>
    intro k fs target new refs refs' result hbpg hwf hlen h
    unfold allocBlocksLoopRefs at h
    obtain ⟨⟨⟨fs₁, outcome⟩, got⟩, hcallRefs, hend⟩ := Exec.bind_eq_done.mp h
    obtain ⟨hiff, hnn⟩ := krNewBlocksRefs_iff hbpg hwf hcallRefs
    have hcall : krNewBlocks ops (env.alloc k) ino fuel fs goal target = .done (fs₁, outcome) := by
      rw [← krNewBlocksRefs_fst]
      exact Exec.done_of_map Prod.fst hcallRefs
    have hlost : refs + got = refs ↔ ¬ (fs.allocView ino).Overwrites (env.alloc k) goal target := by
      rw [← hiff]
      omega
    cases outcome with
    | error e =>
      cases hend
      rw [overwrites_of_error hbpg hwf hcall]
      exact ⟨hlost, by omega, by simp⟩
    | ok found =>
      obtain ⟨current, count⟩ := found
      dsimp only at hend
      by_cases hdata : 0 < count - min (indirectBlks - new.length) count
      · rw [if_pos hdata] at hend
        cases hend
        rw [overwrites_of_data hbpg hwf (by omega) hcall]
        refine ⟨hlost, by omega, ?_⟩
        rintro new' data num ⟨⟩
        rw [List.length_append, List.length_range']
        omega
      · rw [if_neg hdata] at hend
        have htaken : (new ++ List.range' current (min (indirectBlks - new.length) count)).length =
            new.length + count := by
          rw [List.length_append, List.length_range']
          omega
        have hbpg₁ : 0 < fs₁.sbi.sBlocksPerGroup := by
          rwa [(krNewBlocks_inodeFrame hbpg hcall).sbi]
        obtain ⟨hrest, hle, hnew⟩ := ih hbpg₁ (krNewBlocks_wf hbpg hwf hcall) (by rw [htaken]; omega)
          hend
        refine ⟨?_, by omega, hnew⟩
        rw [htaken, ← Nat.sub_sub] at hrest
        rw [overwrites_of_short hbpg hwf (by omega) hcall, not_or, not_and, ← hlost, ← hrest]
        omega

theorem krAllocBlocksRefs_iff {goal indirectBlks blks : Nat} {refs : Int}
    {result : Except Errno (List Nat × Nat × Nat)} (hbpg : 0 < fs.sbi.sBlocksPerGroup)
    (hwf : fs.rsv.Wf)
    (hrun : krAllocBlocksRefs ops env ino fuel fs goal indirectBlks blks =
      .done ((fs', result), refs)) :
    (refs = 0 ↔ ¬ (BranchRequest.mk 0 (fs.allocView ino) (blks + indirectBlks)
      indirectBlks).Overwrites env.alloc goal) ∧ 0 ≤ refs ∧
    ∀ new data num, result = .ok (new, data, num) → new.length = indirectBlks := by
  unfold krAllocBlocksRefs at hrun
  obtain ⟨⟨⟨fs₁, outcome⟩, lost⟩, hloop, hend⟩ := Exec.bind_eq_done.mp hrun
  obtain ⟨hiff, hnn, hlen⟩ := allocBlocksLoopRefs_iff (indirectBlks + 1) hbpg hwf
    (Nat.zero_le indirectBlks) hloop
  cases outcome with
  | error err =>
    dsimp only at hend
    rw [freeEachRefs_eq] at hend
    cases hend
    exact ⟨hiff, hnn, by simp⟩
  | ok found =>
    cases hend
    refine ⟨hiff, hnn, fun new data num hres => hlen new data num ?_⟩
    simpa using hres

/-- The loop of `kr_alloc_branch` holds a buffer for each round that it completed. -/
theorem fillBranchRefs_eq (env : GetBlocksEnv) (data num : Nat) (new : List Nat) :
    ∀ (n : Nat) (fs : Fs) (offsets : List Nat) (refs : Int), new.length = offsets.length →
    ∀ {filled : Fs × Bool} {stop : Nat} {refs' : Int},
    fillBranchRefs env data num n fs new offsets refs = (filled, stop, refs') →
    n ≤ stop ∧ refs' = refs + (stop - n : Int) ∧ (filled.2 = true → stop = n + new.length) := by
  induction new with
  | nil =>
    intro n fs offsets refs _ filled stop refs' h
    cases h
    exact ⟨le_refl _, by omega, fun _ => rfl⟩
  | cons b rest ih =>
    intro n fs offsets refs hlen filled stop refs' h
    obtain ⟨off, offsets, rfl⟩ := List.exists_cons_of_ne_nil
      (l := offsets) (by rintro rfl; simp at hlen)
    unfold fillBranchRefs at h
    split at h
    · cases h
      exact ⟨le_refl _, by omega, by simp⟩
    · obtain ⟨hge, hrefs, hfull⟩ := ih _ _ _ _ (by simpa using hlen) h
      refine ⟨by omega, ?_, fun hfilled => ?_⟩
      · rw [hrefs]
        push_cast
        omega
      · rw [hfull hfilled, List.length_cons]
        omega

/-- A failed `kr_alloc_branch` forgets the buffers it got; a successful one keeps one for each
new indirect block. -/
theorem krAllocBranchRefs_iff {goal indirectBlks blks : Nat} {offsets : List Nat} {refs : Int}
    (hbpg : 0 < fs.sbi.sBlocksPerGroup) (hwf : fs.rsv.Wf) (hoffs : offsets.length = indirectBlks)
    {result : Except Errno (List Nat × Nat × Nat)}
    (hrun : krAllocBranchRefs ops env ino fuel fs goal indirectBlks blks offsets =
      .done ((fs', result), refs)) :
    ∃ lost : Int, (lost = 0 ↔ ¬ (BranchRequest.mk 0 (fs.allocView ino) (blks + indirectBlks)
        indirectBlks).Overwrites env.alloc goal) ∧ 0 ≤ lost ∧
      ((∃ e, result = .error e) ∧ refs = lost ∨
        (∃ found, result = .ok found) ∧ refs = lost + indirectBlks) := by
  unfold krAllocBranchRefs at hrun
  obtain ⟨⟨⟨fs₁, outcome⟩, lost⟩, halloc, hend⟩ := Exec.bind_eq_done.mp hrun
  obtain ⟨hiff, hnn, hlen⟩ := krAllocBlocksRefs_iff hbpg hwf halloc
  refine ⟨lost, hiff, hnn, ?_⟩
  cases outcome with
  | error e =>
    cases hend
    exact Or.inl ⟨⟨e, rfl⟩, rfl⟩
  | ok found =>
    obtain ⟨new, data, num⟩ := found
    have hnew := hlen new data num rfl
    dsimp only at hend
    obtain ⟨⟨⟨fs₂, ok⟩, stop, held⟩, hfill⟩ : ∃ out,
      fillBranchRefs env data num 1 fs₁ new offsets lost = out := ⟨_, rfl⟩
    obtain ⟨hge, hheld, hfull⟩ := fillBranchRefs_eq env data num new 1 fs₁ offsets lost
      (hnew.trans hoffs.symm) hfill
    rw [hfill] at hend
    dsimp only at hend
    cases ok with
    | true =>
      cases hend
      have hstop := hfull rfl
      exact Or.inr ⟨⟨_, rfl⟩, by omega⟩
    | false =>
      simp only [Bool.false_eq_true, if_false, freeEachRefs_eq, krFreeBlocksRefs_snd] at hend
      cases hend
      exact Or.inl ⟨⟨_, rfl⟩, by omega⟩

/-! ## The chain -/

/-- The buffers of a chain: one for each entry below the inode. -/
structure ChainHeld (offsets : List Nat) (br : Branch) (refs : Int) : Prop where
  refs_eq : refs = br.chain.length - 1
  pos : 1 ≤ br.chain.length
  le : br.chain.length ≤ offsets.length
  full : br.complete = true → br.chain.length = offsets.length

theorem getBranchLoopRefs_held (mem : Nat → Mem) (bread : Nat → Bool) (offsets : List Nat) :
    ∀ (i : Nat) (chain : List Indirect) (key : Nat) (refs : Int) {br : Branch} {refs' : Int},
    getBranchLoopRefs mem bread i chain key offsets refs = (br, refs') →
    refs' = refs + (br.chain.length - chain.length : Int) ∧ chain.length ≤ br.chain.length ∧
      br.chain.length ≤ chain.length + offsets.length ∧
      (br.complete = true → br.chain.length = chain.length + offsets.length) := by
  induction offsets with
  | nil =>
    intro i chain key refs br refs' h
    cases h
    simp
  | cons off offsets ih =>
    intro i chain key refs br refs' h
    unfold getBranchLoopRefs at h
    dsimp only at h
    split at h
    · cases h
      simp
    split at h
    · cases h
      simp
    split at h
    · cases h
      simp
    · obtain ⟨hrefs, hge, hle, hfull⟩ := ih _ _ _ _ h
      have hone : (chain ++ [addChain (mem (i + 1)) (.block key) off]).length = chain.length + 1 := by
        simp
      rw [hone] at hrefs hge hle hfull
      have hlen : (off :: offsets).length = offsets.length + 1 := rfl
      refine ⟨?_, by omega, by omega, fun hc => ?_⟩
      · rw [hrefs]
        push_cast
        omega
      · have h := hfull hc
        omega

theorem krGetBranchRefs_held (mem : Nat → Mem) (bread : Nat → Bool) {offsets : List Nat}
    (hne : offsets ≠ []) {br : Branch} {refs : Int}
    (h : krGetBranchRefs mem bread offsets = (br, refs)) : ChainHeld offsets br refs := by
  obtain ⟨off, offsets, rfl⟩ := List.exists_cons_of_ne_nil hne
  unfold krGetBranchRefs at h
  dsimp only at h
  split at h
  · cases h
    exact ⟨by simp, by simp, by simp, by simp⟩
  · obtain ⟨hrefs, hge, hle, hfull⟩ := getBranchLoopRefs_held mem bread offsets _ _ _ _ h
    rw [List.length_singleton] at hrefs hge hle hfull
    refine ⟨?_, hge, ?_, fun hc => ?_⟩
    · rw [hrefs]
      push_cast
      omega
    · rwa [List.length_cons, Nat.add_comm]
    · rw [hfull hc, List.length_cons, Nat.add_comm]

/-- A chain that is released through the pointer to its last entry. -/
theorem ChainHeld.release {offsets : List Nat} {br : Branch} {refs : Int}
    (h : ChainHeld offsets br refs) : refs + releaseChain (some (br.chain.length - 1)) = 0 := by
  have hpos := h.pos
  rw [h.refs_eq, releaseChain]
  omega

/-- Released through what `kr_get_branch` returned, it is kept when it was complete. -/
theorem ChainHeld.release_returned {offsets : List Nat} {br : Branch} {refs : Int}
    (h : ChainHeld offsets br refs) : refs + releaseChain br.returned =
      if br.complete then (offsets.length : Int) - 1 else 0 := by
  unfold Branch.returned
  split
  · rename_i hc
    rw [h.refs_eq, h.full hc, releaseChain, add_zero]
  · exact h.release

/-- The chain of the locked part is held besides one that was complete before. -/
theorem relookRefs_held {m : Mem} {offsets : List Nat} (hne : offsets ≠ []) {first br : Branch}
    {err : Option Errno} {refs refs' : Int} (hheld : ChainHeld offsets first refs)
    (hagain : first.complete = true → err = some .eagain)
    (h : relookRefs env m offsets first err refs = (br, refs')) :
    ∃ held, ChainHeld offsets br held ∧
      refs' = (if first.complete then (offsets.length : Int) - 1 else 0) + held := by
  unfold relookRefs at h
  split at h
  · obtain ⟨⟨again, got⟩, hbranch⟩ : ∃ out,
      krGetBranchRefs (fun _ => m) env.breadAgain offsets = out := ⟨_, rfl⟩
    rw [hbranch, hheld.release_returned] at h
    cases h
    exact ⟨got, krGetBranchRefs_held _ _ hne hbranch, rfl⟩
  · rename_i hkeep
    cases h
    refine ⟨refs, hheld, ?_⟩
    have hopen : ¬ first.complete = true := by
      intro hc
      simp [hagain hc] at hkeep
    rw [if_neg hopen, zero_add]

/-- From the allocation to `cleanup` everything that the chain and the new branch hold is
released. -/
theorem allocLockedRefs_iff {offsets : List Nat} {blocksToBoundary : Int}
    (hpath : fs.path iblock = (offsets, blocksToBoundary)) {br : Branch} {kept held refs : Int}
    {mapped : Mapped} (hbpg : 0 < fs.sbi.sBlocksPerGroup) (hwin : fs.WindowsOf ino)
    (hheld : ChainHeld offsets br held)
    (hrun : allocLockedRefs ops env ino fuel reservation fs iblock maxblocks offsets blocksToBoundary
      br.chain (kept + held) = .done ((fs', mapped), refs)) :
    (refs = kept ↔ ¬ (lockedRequest env ino reservation fs iblock maxblocks br.chain).Overwrites
      env.alloc (lockedGoal env ino reservation fs iblock br.chain)) ∧ kept ≤ refs := by
  have hpos := hheld.pos
  have hle := hheld.le
  have hrefs := hheld.refs_eq
  have hwf : (initBlockAllocInfo env ino reservation fs).rsv.Wf := initBlockAllocInfo_wf hwin reservation
  have hbpg' : 0 < (initBlockAllocInfo env ino reservation fs).sbi.sBlocksPerGroup := by
    rwa [(initBlockAllocInfo_same reservation fs).1.sbi]
  unfold lockedRequest lockedGoal
  rw [hpath]
  unfold allocLockedRefs at hrun
  obtain ⟨⟨⟨fs₁, outcome⟩, got⟩, halloc, hend⟩ := Exec.bind_eq_done.mp hrun
  obtain ⟨lost, hiff, hnn, hgot⟩ := krAllocBranchRefs_iff hbpg' hwf List.length_drop halloc
  rw [← hiff]
  rcases hgot with ⟨⟨e, rfl⟩, rfl⟩ | ⟨⟨found, rfl⟩, rfl⟩
  · cases hend
    simp only [releaseChain]
    omega
  · cases hend
    simp only [releaseChain]
    omega

/-- A chain that is given up is dropped just when it was complete and has an indirect block. -/
theorem krGetBlocksRefs_iff {create : Bool} {mapped : Mapped} {refs : Int}
    (hbpg : 0 < fs.sbi.sBlocksPerGroup) (hwin : fs.WindowsOf ino)
    (hrun : krGetBlocksRefs ops env ino fuel reservation fs iblock maxblocks create =
      .done ((fs', mapped), refs)) :
    refs = 0 ↔ ¬ (ChainChanges env fs iblock maxblocks ∨
      create = true ∧ LockedOverwrites env ino reservation fs iblock maxblocks) := by
  rw [chainChanges_iff, lockedOverwrites_iff]
  unfold krGetBlocksRefs at hrun
  unfold lockedBranch
  split at hrun
  · cases hrun
  obtain ⟨⟨offsets, blocksToBoundary⟩, hpath⟩ : ∃ path, fs.path iblock = path := ⟨_, rfl⟩
  rw [hpath] at hrun
  simp only [hpath]
  dsimp only at hrun
  split at hrun
  · rename_i hnil
    cases hrun
    simp [hnil]
  rename_i hne
  obtain ⟨⟨first, held⟩, hfirst⟩ : ∃ out, krGetBranchRefs env.look env.bread offsets = out := ⟨_, rfl⟩
  have hbranch : krGetBranch env.look env.bread offsets = first := by
    rw [← krGetBranchRefs_fst, hfirst]
  have hheld := krGetBranchRefs_held env.look env.bread hne hfirst
  rw [hfirst] at hrun
  rw [hbranch]
  have hone := List.length_pos_of_ne_nil hne
  generalize hmore : (if first.complete = true then mapMore env first.chain maxblocks
    blocksToBoundary maxblocks offsets.length 1 else none) = more at hrun
  have hnone : first.complete = true → mapMore env first.chain maxblocks blocksToBoundary maxblocks
      offsets.length 1 = more := by
    intro hc
    rw [← hmore, if_pos hc]
  cases more with
  | some count =>
    have hc : first.complete = true := by
      by_contra hc
      rw [if_neg hc] at hmore
      cases hmore
    cases hrun
    have hrel := hheld.release
    rw [hheld.full hc] at hrel
    simp [hrel, hnone hc]
  | none =>
    dsimp only at hrun
    generalize herr : (if first.complete = true then some Errno.eagain else first.err) = err at hrun
    have hagain : first.complete = true → err = some .eagain := by
      intro hc
      rw [← herr, if_pos hc]
    split at hrun
    · -- without the mutex
      rename_i hstop
      cases hrun
      rw [hheld.release_returned]
      simp only [Bool.or_eq_true, Bool.not_eq_true', decide_eq_true_eq] at hstop
      cases hc : first.complete with
      | true =>
        obtain rfl : create = false := by
          rcases hstop with hno | hio
          · exact hno
          · rw [hagain hc] at hio
            cases hio
        simp only [hnone hc, if_true, Bool.false_eq_true, false_and, or_false, and_true]
        omega
      | false =>
        rw [hc, if_neg Bool.false_ne_true] at herr
        rcases hstop with rfl | hio
        · simp
        · simp [hio]
    · rename_i hgo
      simp only [Bool.or_eq_true, Bool.not_eq_true', decide_eq_true_eq, not_or,
        Bool.not_eq_false] at hgo
      obtain ⟨rfl, hio⟩ := hgo
      obtain ⟨⟨branch, held'⟩, hrelook⟩ : ∃ out,
        relookRefs env (fs.mem ino) offsets first err held = out := ⟨_, rfl⟩
      have hbranch' : relook env (fs.mem ino) offsets first err = branch := by
        rw [← relookRefs_fst, hrelook]
      obtain ⟨got, hgot, hheld'⟩ := relookRefs_held hne hheld hagain hrelook
      rw [hrelook] at hrun
      dsimp only at hrun
      -- the second look-up is made over a chain that `NULL` does not release
      have hkept : (0 : Int) ≤ if first.complete then (offsets.length : Int) - 1 else 0 := by
        split
        · omega
        · exact le_refl _
      have hchanges : (if first.complete then (offsets.length : Int) - 1 else 0) = 0 ↔
          ¬ (2 ≤ offsets.length ∧ first.complete = true ∧ mapMore env first.chain maxblocks
            blocksToBoundary maxblocks offsets.length 1 = none) := by
        cases hc : first.complete with
        | true =>
          simp only [hnone hc, if_true, and_true]
          omega
        | false => simp
      simp only [hne, hio, hbranch', decide_false, Option.isSome_none, Bool.or_self,
        Bool.false_eq_true, if_false, Option.some.injEq, exists_eq_left', true_and, not_or,
        ← hchanges]
      generalize (if first.complete then (offsets.length : Int) - 1 else 0) = kept at hheld' hkept ⊢
      subst hheld'
      cases hc : branch.complete with
      | true =>
        rw [hc, if_pos rfl] at hrun
        cases hrun
        have hrel := hgot.release
        rw [hgot.full hc] at hrel
        rw [add_assoc, hrel]
        simp
      | false =>
        rw [hc, if_neg Bool.false_ne_true] at hrun
        obtain ⟨hiff, hle⟩ := allocLockedRefs_iff hpath hbpg hwin hgot hrun
        rw [and_iff_right rfl, ← hiff]
        omega

end Conditions

/-- `kr_free_blocks` balances; `kr_new_blocks` does just when no bitmap is read over another, and
`kr_get_blocks` when no complete chain changes under it and no call of the allocator loses a
bitmap. -/
theorem bufferRefs_balance_iff (ops : Rebalance Window) (ino fuel : Nat) (fs : Fs)
    (hbpg : 0 < fs.sbi.sBlocksPerGroup) (windows : fs.WindowsOf ino) :
    (∀ (readBitmap : Nat → Bool) (block count : Nat),
      krFreeBlocksRefs readBitmap fs ino block count =
        (krFreeBlocks readBitmap fs ino block count, 0)) ∧
    (∀ (env : AllocEnv) (goal count : Nat) (fs' : Fs) (result : Except Errno (Nat × Nat)),
      krNewBlocks ops env ino fuel fs goal count = .done (fs', result) → ∃ refs,
        krNewBlocksRefs ops env ino fuel fs goal count = .done ((fs', result), refs) ∧
          (refs = 0 ↔ ¬ (fs.allocView ino).Overwrites env goal count)) ∧
    ∀ (env : GetBlocksEnv) (reservation create : Bool) (iblock maxblocks : Nat) (fs' : Fs)
      (mapped : Mapped),
      krGetBlocks ops env ino fuel reservation fs iblock maxblocks create = .done (fs', mapped) →
      ∃ refs, krGetBlocksRefs ops env ino fuel reservation fs iblock maxblocks create =
          .done ((fs', mapped), refs) ∧
        (refs = 0 ↔ ¬ (ChainChanges env fs iblock maxblocks ∨
          create = true ∧ LockedOverwrites env ino reservation fs iblock maxblocks)) := by
  refine ⟨fun readBitmap block count => ?_, fun env goal count fs' result hrun => ?_,
    fun env reservation create iblock maxblocks fs' mapped hrun => ?_⟩
  · rw [← krFreeBlocksRefs_fst, ← krFreeBlocksRefs_snd readBitmap fs ino block count]
  · rw [← krNewBlocksRefs_fst] at hrun
    obtain ⟨refs, hrefs⟩ := Exec.of_fst hrun
    exact ⟨refs, hrefs, (krNewBlocksRefs_iff hbpg windows.1 hrefs).1⟩
  · rw [← krGetBlocksRefs_fst] at hrun
    obtain ⟨refs, hrefs⟩ := Exec.of_fst hrun
    exact ⟨refs, hrefs, krGetBlocksRefs_iff hbpg windows hrefs⟩

/-- A look-up of two blocks of `raceFs`, with nobody at work on the file. -/
def quietEnv : GetBlocksEnv := { tinyGetEnv with look := fun _ => raceFs.mem 12 }

theorem bufferRefs_balance_iff_quiet : ∃ fs' mapped,
    krGetBlocksRefs Rebalance.plain quietEnv 12 20 true raceFs 12 2 false =
      .done ((fs', mapped), 0) := by
  have hcall : krGetBlocks Rebalance.plain quietEnv 12 20 true raceFs 12 2 false =
      .done (raceFs, ⟨.ok 1, 8, false, false⟩) := by rfl
  obtain ⟨refs, hrefs, hiff⟩ := (bufferRefs_balance_iff Rebalance.plain 12 20 raceFs
    raceFs_systemSet.bpg_pos raceFs_windows).2.2 quietEnv true false 12 2 _ _ hcall
  obtain rfl : refs = 0 := by
    refine hiff.mpr ?_
    rintro (⟨-, chain, hlook, j, -, -, hchanged, -⟩ | ⟨hcreate, -⟩)
    · obtain ⟨hsame, -⟩ := krGetBranch_undisturbed (raceFs.mem 12) quietEnv.bread
        (raceFs.path (12 : Nat)).1
      have hbranch := hlook.krGetBranch_eq
      have hquiet : quietEnv.look = fun _ => raceFs.mem 12 := rfl
      rw [hquiet] at hchanged hbranch
      rw [hbranch, hchanged] at hsame
      cases hsame
    · cases hcreate
  exact ⟨_, _, hrefs⟩

/-- The same look-up while another thread truncates the file: block 7 is read, and then the
inode no longer points to it. -/
def truncatedEnv : GetBlocksEnv :=
  { tinyGetEnv with look := fun t => if t < 2 then raceFs.mem 12 else tinyFs.mem 12 }

/-- The file system of `tinyImage` with one free block, which is in the window of inode 13. -/
def windowFs : Fs :=
  { tinyFs with
    desc := fun _ => { smallDesc with bgFreeBlocksCount := 1 }
    blockBitmap := fun _ i => decide (i < 15)
    sFreeblocksCounter := 1
    inode := fun _ => { Inode.blank with iMode := 0x8000, iBlockAllocInfo := some ⟨0, 0⟩ }
    rsv := ⟨.node .head .nil (.node (.inode 13) .nil .nil), fun
      | .inode 13 => ⟨1, 0, 16, 16⟩
      | .inode _ => ⟨1, 0, 0, 0⟩
      | .head => ⟨0, 0, 0, 0⟩⟩ }

/-- The look-up keeps the buffer of block 7. A call of `kr_new_blocks` for inode 12 finds no
room for a window, takes the block without one, and keeps the bitmap of the first search. -/
theorem bufferRefs_unbalanced :
    (∃ fs' mapped, krGetBlocksRefs Rebalance.plain truncatedEnv 12 20 true raceFs 12 2 false =
      .done ((fs', mapped), 1)) ∧
    ∃ fs', krNewBlocksRefs Rebalance.plain ⟨none, 1, false, fun _ => true⟩ 12 40 windowFs 7 1 =
      .done ((fs', .ok (16, 1)), 1) := by
  have hlook : (krGetBlocksRefs Rebalance.plain truncatedEnv 12 20 true raceFs 12 2
      false).toOption.map (fun r => r.2) = some 1 := by decide +kernel
  obtain ⟨⟨⟨fs₁, mapped⟩, refs⟩, hlook', rfl⟩ := Exec.toOption_map_eq_some.mp hlook
  have hvalue : (krNewBlocksRefs Rebalance.plain ⟨none, 1, false, fun _ => true⟩ 12 40 windowFs 7
      1).toOption.map (fun r => (r.1.2, r.2)) = some (.ok (16, 1), 1) := by decide +kernel
  obtain ⟨⟨⟨fs', ret⟩, refs'⟩, hcall, hres⟩ := Exec.toOption_map_eq_some.mp hvalue
  cases hres
  exact ⟨⟨fs₁, mapped, hlook'⟩, fs', hcall⟩

end KrFs
