import KrFs.AllocCalls
import KrFs.Consistency
import KrFs.LookUp

/-!
# Live pointers and the second look-up

`kr_get_blocks` looks a chain up without a lock, takes `truncate_mutex` and looks
it up again if it may have changed. The first look-up gives up on a failed read;
the second does not look at its error. What a call overwrites is stated for every
memory the first look-up may have seen and for every pattern of failing reads.
-/

namespace KrFs

open SearchTree

/-! ## What the allocation writes -/

section Alloc

variable {ops : Rebalance Window} {env : GetBlocksEnv} {ino fuel : Nat} {fs fs' : Fs}

/-- The blocks of a list are distinct and were free. -/
structure Fs.Fresh (fs : Fs) (blocks : List Nat) : Prop where
  nodup : blocks.Nodup
  clear : ∀ b ∈ blocks, fs.FreeBlock b

theorem allocBlocksLoop_bits {goal indirectBlks blks : Nat} (hblks : 1 ≤ blks)
    (hbpg : 0 < fs.sbi.sBlocksPerGroup) (rounds : Nat) :
    ∀ {k : Nat} {fs1 : Fs} {target : Nat} {new : List Nat}
      {result : Except (Errno × List Nat) (List Nat × Nat × Nat)},
    fs.BitsGrow fs1 → fs.Fresh new → (∀ b ∈ new, fs1.BlockBit b true) →
    target + new.length = blks + indirectBlks → new.length ≤ indirectBlks →
    allocBlocksLoop ops env ino fuel goal indirectBlks rounds k fs1 target new =
      .done (fs', result) →
    fs.PtrSame fs' ∧ ∀ new data num, result = .ok (new, data, num) →
      new.length = indirectBlks ∧ 1 ≤ num ∧ num ≤ blks ∧ fs.Fresh (new ++ List.range' data num) := by
  induction rounds with
  | zero =>
    intro k fs1 target new result _ _ _ _ _ hrun
    simp [allocBlocksLoop] at hrun
  | succ rounds ih =>
    intro k fs1 target new result hgrow hfresh hset htarget hlen hrun
    unfold allocBlocksLoop at hrun
    generalize hcall : krNewBlocks ops (env.alloc k) ino fuel fs1 goal target = call at hrun
    cases call with
    | bug => cases hrun
    | running => cases hrun
    | done res =>
      obtain ⟨fs2, outcome⟩ := res
      have hbpg1 : 0 < fs1.sbi.sBlocksPerGroup := by rwa [hgrow.sbi]
      obtain ⟨hgrow2, hblocks⟩ := krNewBlocks_bits hbpg1 (show 1 ≤ target by omega) hcall
      cases outcome with
      | error e =>
        simp only [Exec.bind, Exec.done.injEq, Prod.mk.injEq] at hrun
        obtain ⟨rfl, rfl⟩ := hrun
        exact ⟨(hgrow.trans hgrow2).toPtrSame, by simp⟩
      | ok val =>
        obtain ⟨current, count⟩ := val
        obtain ⟨hpos, hle, hrunBits⟩ := hblocks current count rfl
        -- the new run is apart from the blocks taken before, whose bits are set by now
        have hall : fs.Fresh (new ++ List.range' current count) := by
          refine ⟨List.nodup_append.mpr ⟨hfresh.nodup, List.nodup_range', ?_⟩, fun b hb => ?_⟩
          · rintro a ha b hb rfl
            exact (hrunBits a hb).1.not_inUse (hset a ha)
          · rcases List.mem_append.mp hb with hb | hb
            · exact hfresh.clear b hb
            · exact hgrow.freeBlock (hrunBits b hb).1
        set taken := min (indirectBlks - new.length) count with htaken
        have hsplit : new ++ List.range' current count =
            (new ++ List.range' current taken) ++ List.range' (current + taken) (count - taken) := by
          have hcount : count = taken + (count - taken) := by omega
          conv_lhs => rw [hcount, ← List.range'_append_1]
          rw [List.append_assoc]
        rw [hsplit] at hall
        simp only [Exec.bind, ← htaken] at hrun
        by_cases hdata : 0 < count - taken
        · rw [if_pos hdata] at hrun
          simp only [Exec.done.injEq, Prod.mk.injEq] at hrun
          obtain ⟨rfl, rfl⟩ := hrun
          refine ⟨(hgrow.trans hgrow2).toPtrSame, fun new' data num hres => ?_⟩
          simp only [Except.ok.injEq, Prod.mk.injEq] at hres
          obtain ⟨rfl, rfl, rfl⟩ := hres
          refine ⟨?_, hdata, by omega, hall⟩
          simp only [List.length_append, List.length_range']
          omega
        · rw [if_neg hdata] at hrun
          have hfresh' : fs.Fresh (new ++ List.range' current taken) :=
            ⟨(List.nodup_append.mp hall.nodup).1,
              fun b hb => hall.clear b (List.mem_append.mpr (Or.inl hb))⟩
          refine ih (hgrow.trans hgrow2) hfresh' (fun b hb => ?_) ?_ ?_ hrun
          · rcases List.mem_append.mp hb with hb | hb
            · exact hgrow2.blockBit_true (hset b hb)
            · refine (hrunBits b ?_).2
              rw [List.mem_range'_1] at hb
              rw [mem_blockRun]
              omega
          · simp only [List.length_append, List.length_range']
            omega
          · simp only [List.length_append, List.length_range']
            omega

theorem krAllocBlocks_bits {goal indirectBlks blks : Nat} (hblks : 1 ≤ blks)
    (hbpg : 0 < fs.sbi.sBlocksPerGroup) {result : Except Errno (List Nat × Nat × Nat)}
    (hrun : krAllocBlocks ops env ino fuel fs goal indirectBlks blks = .done (fs', result)) :
    fs.PtrSame fs' ∧ ∀ new data num, result = .ok (new, data, num) →
      new.length = indirectBlks ∧ 1 ≤ num ∧ num ≤ blks ∧ fs.Fresh (new ++ List.range' data num) := by
  unfold krAllocBlocks at hrun
  generalize hloop : allocBlocksLoop ops env ino fuel goal indirectBlks (indirectBlks + 1) 0 fs
    (blks + indirectBlks) [] = loop at hrun
  cases loop with
  | bug => cases hrun
  | running => cases hrun
  | done res =>
    obtain ⟨fs1, outcome⟩ := res
    obtain ⟨hsame, hok⟩ := allocBlocksLoop_bits hblks hbpg (indirectBlks + 1)
      ⟨Fs.PtrSame.refl fs, fun _ _ h => h⟩ ⟨List.nodup_nil, by simp⟩ (by simp) (by simp)
      (Nat.zero_le _) hloop
    cases outcome with
    | error err =>
      obtain ⟨e, new⟩ := err
      simp only [Exec.bind, Exec.done.injEq, Prod.mk.injEq] at hrun
      obtain ⟨rfl, rfl⟩ := hrun
      exact ⟨hsame.trans (freeEach_ptrSame env ino new fs1), by simp⟩
    | ok found =>
      simp only [Exec.bind, Exec.done.injEq, Prod.mk.injEq] at hrun
      obtain ⟨rfl, rfl⟩ := hrun
      refine ⟨hsame, fun new data num hres => hok new data num ?_⟩
      simpa using hres

/-- The path of the `i`-th slot to the right of a path's last one. -/
def runPath (offsets : List Nat) (i : Nat) : List Nat :=
  offsets.dropLast ++ [offsets.getLastD 0 + i]

@[simp] theorem runPath_singleton (off i : Nat) : runPath [off] i = [off + i] := rfl

theorem runPath_append (front : List Nat) {back : List Nat} (hne : back ≠ []) (i : Nat) :
    runPath (front ++ back) i = front ++ runPath back i := by
  rw [runPath, List.dropLast_append_of_ne_nil hne, List.getLastD_eq_getLast?,
    List.getLast?_append_of_ne_nil _ hne, runPath, List.getLastD_eq_getLast?, List.append_assoc]

theorem runPath_cons (off : Nat) {offsets : List Nat} (hne : offsets ≠ []) (i : Nat) :
    runPath (off :: offsets) i = off :: runPath offsets i :=
  runPath_append [off] hne i

theorem runPath_length {offsets : List Nat} (hne : offsets ≠ []) (i : Nat) :
    (runPath offsets i).length = offsets.length := by
  have hpos := List.length_pos_of_ne_nil hne
  simp only [runPath, List.length_append, List.length_dropLast, List.length_singleton]
  omega

/-- Below a new branch there is nothing but its data blocks, one after the other
from the path it was made for. -/
theorem fillBranch_follow {data num : Nat} (hnum : 1 ≤ num) (new : List Nat) :
    ∀ {n : Nat} {fs fs' : Fs} {offsets : List Nat} {m : Mem}, new ≠ [] → new.Nodup →
    offsets.length = new.length → fillBranch env data num n fs new offsets = (fs', true) →
    (∀ c ∈ new, m.ptr c = fs'.ptr c) → ∀ q : List Nat, q.length = new.length →
    m.follow (new.headD data) q = 0 ∨
      ∃ i < num, q = runPath offsets i ∧ m.follow (new.headD data) q = data + i := by
  induction new with
  | nil => exact fun h => absurd rfl h
  | cons b rest ih =>
    intro n fs fs' offsets m _ hnd hlen hfill hptr q hq
    obtain ⟨off, offsets, rfl⟩ := List.exists_cons_of_ne_nil
      (l := offsets) (by rintro rfl; simp at hlen)
    obtain ⟨o, q, rfl⟩ := List.exists_cons_of_ne_nil (l := q) (by rintro rfl; simp at hq)
    rw [List.nodup_cons] at hnd
    obtain ⟨hrow, hstep⟩ := fillBranch_cons hnd.1 hfill
    rw [List.headD_cons]
    by_cases hb : b = 0
    · exact Or.inl (by rw [hb]; exact Mem.follow_zero _)
    rw [Mem.follow_cons hb, hptr b (by simp), hrow]
    by_cases hrest : rest = []
    · subst hrest
      obtain rfl : q = [] := by simpa using hq
      obtain rfl : offsets = [] := by simpa using hlen
      have hval : m.follow (branchRow off data data num true o) [] =
          branchRow off data data num true o := rfl
      rw [List.headD_nil, List.isEmpty_nil, hval, branchRow_last hnum]
      split
      · rename_i hin
        refine Or.inr ⟨o - off, by omega, ?_, rfl⟩
        rw [runPath_singleton, Nat.add_sub_cancel' hin.1]
      · exact Or.inl rfl
    · have hempty : rest.isEmpty = false := by simpa using hrest
      have hoffs : offsets ≠ [] := by
        rintro rfl
        exact hrest (by simpa using hlen.symm)
      rw [hempty]
      have hval : branchRow off (rest.headD data) data num false o =
          if o = off then rest.headD data else 0 := by simp [branchRow]
      rw [hval]
      split
      · rename_i ho
        rcases ih hrest hnd.2 (by simpa using hlen) hstep (fun c hc => hptr c (by simp [hc])) q
          (by simpa using hq) with hz | ⟨i, hi, hpath, hat⟩
        · exact Or.inl hz
        · exact Or.inr ⟨i, hi, by rw [runPath_cons off hoffs, hpath, ho], hat⟩
      · exact Or.inl (Mem.follow_zero _)

/-- Pointers in blocks that are in use, and those in the inodes, are as they
were. -/
structure Fs.UsedSame (fs fs' : Fs) : Prop where
  sbi : fs'.sbi = fs.sbi
  ptr : ∀ c, fs.BlockBit c true → fs'.ptr c = fs.ptr c
  iData : ∀ i, (fs'.inode i).iData = (fs.inode i).iData

theorem krAllocBranch_bits {goal indirectBlks blks : Nat} {offsets : List Nat} (hblks : 1 ≤ blks)
    (hbpg : 0 < fs.sbi.sBlocksPerGroup) {result : Except Errno (List Nat × Nat × Nat)}
    (hrun : krAllocBranch ops env ino fuel fs goal indirectBlks blks offsets =
      .done (fs', result)) :
    fs.UsedSame fs' ∧ ∀ new data num, result = .ok (new, data, num) →
      new.length = indirectBlks ∧ 1 ≤ num ∧ num ≤ blks ∧ fs.Fresh (new ++ List.range' data num) ∧
        ∃ fs1, fillBranch env data num 1 fs1 new offsets = (fs', true) := by
  unfold krAllocBranch at hrun
  generalize halloc : krAllocBlocks ops env ino fuel fs goal indirectBlks blks = call at hrun
  cases call with
  | bug => cases hrun
  | running => cases hrun
  | done res =>
    obtain ⟨fs1, outcome⟩ := res
    obtain ⟨hsame, hok⟩ := krAllocBlocks_bits hblks hbpg halloc
    cases outcome with
    | error e =>
      simp only [Exec.bind, Exec.done.injEq, Prod.mk.injEq] at hrun
      obtain ⟨rfl, rfl⟩ := hrun
      exact ⟨⟨hsame.sbi, fun c _ => congrFun hsame.ptr c, hsame.iData⟩, by simp⟩
    | ok found =>
      obtain ⟨new, data, num⟩ := found
      obtain ⟨hlen, hnum, hle, hfresh⟩ := hok new data num rfl
      have hframe : ∃ ptr, (fillBranch env data num 1 fs1 new offsets).1 = { fs1 with ptr := ptr } ∧
          ∀ c, c ∉ new → ptr c = fs1.ptr c := fillBranch_frame data num new 1 fs1 offsets
      generalize hfill : fillBranch env data num 1 fs1 new offsets = filled at hrun hframe
      obtain ⟨fs2, ok⟩ := filled
      obtain ⟨ptr, hfs2, hptr⟩ := hframe
      dsimp only at hfs2
      -- a block in use is not one of the new ones
      have hused : fs.UsedSame fs2 := by
        rw [hfs2]
        refine ⟨hsame.sbi, fun c hc => ?_, hsame.iData⟩
        refine (hptr c fun hmem => ?_).trans (congrFun hsame.ptr c)
        have hclear := hfresh.clear c (List.mem_append.mpr (Or.inl hmem))
        exact hclear.not_inUse hc
      cases ok with
      | true =>
        simp only [Exec.bind, hfill, if_true, Exec.done.injEq, Prod.mk.injEq] at hrun
        obtain ⟨rfl, rfl⟩ := hrun
        refine ⟨hused, fun new' data' num' hres => ?_⟩
        simp only [Except.ok.injEq, Prod.mk.injEq] at hres
        obtain ⟨rfl, rfl, rfl⟩ := hres
        exact ⟨hlen, hnum, hle, hfresh, fs1, hfill⟩
      | false =>
        simp only [Exec.bind, hfill, Bool.false_eq_true, if_false, Exec.done.injEq,
          Prod.mk.injEq] at hrun
        obtain ⟨rfl, rfl⟩ := hrun
        have hback := (freeEach_ptrSame env ino new fs2).trans
          (krFreeBlocks_frame env.readBitmap _ ino data num).ptrSame
        refine ⟨⟨hback.sbi.trans hused.sbi, fun c hc => ?_, fun i => ?_⟩, by simp⟩
        · rw [hback.ptr]
          exact hused.ptr c hc
        · rw [hback.iData]
          exact hused.iData i

/-- Whether `kr_alloc_branch` gets its blocks and buffers. -/
theorem krAllocBranch_completes {goal indirectBlks blks : Nat} {offsets : List Nat}
    (hblks : 1 ≤ blks) (hsys : fs.SystemSet) (hwf : fs.rsv.Wf)
    (hoffs : offsets.length = indirectBlks) {result : Except Errno (List Nat × Nat × Nat)}
    (hrun : krAllocBranch ops env ino fuel fs goal indirectBlks blks offsets =
      .done (fs', result)) :
    (∃ found, result = .ok found) ↔
      (BranchRequest.mk 0 (fs.allocView ino) (blks + indirectBlks) indirectBlks).Completes env.alloc
        goal ∧ ∀ i < indirectBlks, env.getblk (1 + i) = true := by
  unfold krAllocBranch at hrun
  obtain ⟨⟨fs1, outcome⟩, halloc, hend⟩ := Exec.bind_eq_done.mp hrun
  obtain ⟨-, hok⟩ := krAllocBlocks_bits hblks hsys.bpg_pos halloc
  unfold krAllocBlocks at halloc
  obtain ⟨⟨fs2, taken⟩, hloop, hfree⟩ := Exec.bind_eq_done.mp halloc
  have hcompletes := allocBlocksLoop_completes hblks (indirectBlks + 1) hsys hwf (by simp)
    (Nat.zero_le _) hloop
  rw [List.length_nil, Nat.sub_zero] at hcompletes
  rw [← hcompletes]
  cases taken with
  | error err =>
    cases hfree
    cases hend
    exact iff_of_false (by simp) (by simp)
  | ok found =>
    obtain ⟨new, data, num⟩ := found
    cases hfree
    obtain ⟨hnew, -⟩ := hok new data num rfl
    have hfill := fillBranch_filled env data num new 1 fs1 offsets (hnew.trans hoffs.symm)
    rw [hnew] at hfill
    dsimp only at hend
    rw [← hfill]
    split at hend
    · rename_i hfilled
      cases hend
      exact iff_of_true ⟨_, rfl⟩ ⟨⟨_, rfl⟩, hfilled⟩
    · rename_i hfilled
      cases hend
      exact iff_of_false (by simp) fun h => hfilled h.2

end Alloc

/-! ## The locked part -/

section Locked

variable (ops : Rebalance Window) (env : GetBlocksEnv) (ino fuel : Nat)

/-- The chain with which the locked part of `kr_get_blocks` goes on; `none` when
the call ends without taking the mutex. -/
def lockedBranch (fs : Fs) (iblock maxblocks : Nat) : Option Branch :=
  let (offsets, blocksToBoundary) := fs.path iblock
  let first := krGetBranch env.look env.bread offsets
  let more := if first.complete then
    mapMore env first.chain maxblocks blocksToBoundary maxblocks offsets.length 1 else none
  let err := if first.complete then some .eagain else first.err
  if offsets = [] || more.isSome || err = some .eio then none
  else some (relook env (fs.mem ino) offsets first err)

/-- The call of `kr_alloc_branch` that the locked part makes for a chain. -/
def lockedAlloc (reservation : Bool) (fs : Fs) (iblock maxblocks : Nat) (chain : List Indirect) :
    Exec (Fs × Except Errno (List Nat × Nat × Nat)) :=
  let (offsets, blocksToBoundary) := fs.path iblock
  let fs := initBlockAllocInfo env ino reservation fs
  let ind := lastEntry chain
  krAllocBranch ops env ino fuel fs (krFindGoal fs ino env.pid iblock ind)
    (offsets.length - chain.length)
    (krBlksToAllocate (fs.mem ino) ind (offsets.length - chain.length) maxblocks blocksToBoundary)
    (offsets.drop chain.length)

/-- What that call asks the allocator for. -/
def lockedRequest (reservation : Bool) (fs : Fs) (iblock maxblocks : Nat) (chain : List Indirect) :
    BranchRequest :=
  let (offsets, blocksToBoundary) := fs.path iblock
  let fs := initBlockAllocInfo env ino reservation fs
  let indirectBlks := offsets.length - chain.length
  { call := 0
    view := fs.allocView ino
    target := krBlksToAllocate (fs.mem ino) (lastEntry chain) indirectBlks maxblocks
      blocksToBoundary + indirectBlks
    indirect := indirectBlks }

def lockedGoal (reservation : Bool) (fs : Fs) (iblock : Nat) (chain : List Indirect) : Nat :=
  krFindGoal (initBlockAllocInfo env ino reservation fs) ino env.pid iblock (lastEntry chain)

/-- The allocator has the blocks and `sb_getblk` the buffers for the branch. -/
def BranchAllocates (reservation : Bool) (fs : Fs) (iblock maxblocks : Nat)
    (chain : List Indirect) : Prop :=
  (lockedRequest env ino reservation fs iblock maxblocks chain).Completes env.alloc
      (lockedGoal env ino reservation fs iblock chain) ∧
    ∀ i < (fs.path iblock).1.length - chain.length, env.getblk (1 + i) = true

variable {ops env ino fuel} {fs fs' : Fs} {reservation : Bool} {iblock maxblocks : Nat}
  {mapped : Mapped}

/-- How a call with `create` ends: without a change, or through the locked part. -/
theorem krGetBlocks_locked
    (hrun : krGetBlocks ops env ino fuel reservation fs iblock maxblocks true =
      .done (fs', mapped)) :
    1 ≤ maxblocks ∧
      ((fs' = fs ∧ ∀ br, lockedBranch env ino fs iblock maxblocks = some br → br.complete = true) ∨
        ∃ br, lockedBranch env ino fs iblock maxblocks = some br ∧ br.complete = false ∧
          allocLocked ops env ino fuel reservation fs iblock maxblocks (fs.path iblock).1
            (fs.path iblock).2 br.chain = .done (fs', mapped)) := by
  unfold krGetBlocks at hrun
  split at hrun
  · cases hrun
  rename_i hmax
  refine ⟨Nat.one_le_iff_ne_zero.mpr hmax, ?_⟩
  unfold lockedBranch
  generalize fs.path iblock = path at hrun ⊢
  obtain ⟨offsets, blocksToBoundary⟩ := path
  dsimp only at hrun ⊢
  split at hrun
  · rename_i hnil
    cases hrun
    exact Or.inl ⟨rfl, by simp [hnil]⟩
  rename_i hne
  generalize hfirst : krGetBranch env.look env.bread offsets = first at hrun
  generalize hmore : (if first.complete = true then mapMore env first.chain maxblocks
    blocksToBoundary maxblocks offsets.length 1 else none) = more at hrun
  split at hrun
  · cases hrun
    exact Or.inl ⟨rfl, by simp⟩
  · generalize (if first.complete = true then some Errno.eagain else first.err) = err at hrun ⊢
    split at hrun
    · rename_i herr
      have herr' : err = some .eio := by simpa using herr
      cases hrun
      exact Or.inl ⟨rfl, by simp [herr']⟩
    · rename_i herr
      have herr' : ¬ err = some .eio := by simpa using herr
      split at hrun
      · rename_i hcomplete
        cases hrun
        refine Or.inl ⟨rfl, fun br hbr => ?_⟩
        simp [hne, herr'] at hbr
        rw [← hbr]
        exact hcomplete
      · rename_i hcomplete
        refine Or.inr ⟨_, ?_, by simpa using hcomplete, hrun⟩
        simp [hne, herr']

/-- The chain of the locked part holds in the memory, and only a second look-up
leaves it with a failed read. -/
theorem lockedBranch_spec {br : Branch}
    (h : lockedBranch env ino fs iblock maxblocks = some br) :
    (fs.path iblock).1 ≠ [] ∧ Linked .inode (fs.path iblock).1 br.chain ∧
      verifyChain (fs.mem ino) br.chain = true ∧ br.Ends (fs.path iblock).1.length ∧
      (br.err = none ∨ br.err = some .eio) := by
  unfold lockedBranch at h
  generalize fs.path iblock = path at h ⊢
  obtain ⟨offsets, blocksToBoundary⟩ := path
  dsimp only at h ⊢
  generalize hfirst : krGetBranch env.look env.bread offsets = first at h
  generalize hmore : (if first.complete = true then mapMore env first.chain maxblocks
    blocksToBoundary maxblocks offsets.length 1 else none) = more at h
  generalize herr : (if first.complete = true then some Errno.eagain else first.err) = err at h
  split at h
  · cases h
  rename_i hcond
  simp only [Bool.or_eq_true, decide_eq_true_eq, not_or] at hcond
  obtain ⟨⟨hne, -⟩, hread⟩ := hcond
  rw [Option.some.injEq] at h
  subst h
  obtain ⟨hlink1, hends1⟩ := krGetBranch_spec env.look env.bread hne
  obtain ⟨hlink2, hends2⟩ := krGetBranch_spec (fun _ => fs.mem ino) env.breadAgain hne
  obtain ⟨hv2, hagain2⟩ := krGetBranch_undisturbed (fs.mem ino) env.breadAgain offsets
  rw [hfirst] at hlink1 hends1
  refine ⟨hne, ?_⟩
  unfold relook
  split
  · refine ⟨hlink2, hv2, hends2, ?_⟩
    rcases hends2.errs with h | h | h
    · exact Or.inl h
    · exact Or.inr h
    · exact absurd h hagain2
  · rename_i hkeep
    simp only [Bool.or_eq_true, decide_eq_true_eq, Bool.not_eq_true', not_or,
      Bool.not_eq_false] at hkeep
    refine ⟨hlink1, hkeep.2, hends1, ?_⟩
    -- the first look-up was not complete, so its error is the one that was checked
    cases hc : first.complete with
    | true =>
      rw [hc, if_pos rfl] at herr
      exact absurd herr.symm hkeep.1
    | false =>
      rw [hc, if_neg (by simp)] at herr
      rw [← herr] at hkeep hread
      rcases hends1.errs with h | h | h
      · exact Or.inl h
      · exact absurd h hread
      · exact absurd h hkeep.1

/-- The chain of the locked part, by what the look-ups meet. -/
theorem lockedBranch_iff {br : Branch} : lockedBranch env ino fs iblock maxblocks = some br ↔
    ∃ chain e, ⟨chain, e.complete, e.err⟩ = br ∧
      env.LocksAt (fs.mem ino) (fs.path iblock).1 (fs.path iblock).2 maxblocks chain e := by
  unfold lockedBranch
  generalize fs.path iblock = path
  obtain ⟨offsets, blocksToBoundary⟩ := path
  dsimp only
  by_cases hne : offsets = []
  · subst hne
    refine iff_of_false (by simp) ?_
    rintro ⟨chain, e, -, ⟨-, hlook⟩ | ⟨hlook, -, -⟩⟩
    · exact hlook.offsets_ne_nil rfl
    · exact hlook.offsets_ne_nil rfl
  obtain ⟨first, e₁, hfirst, hlook⟩ := krGetBranch_lookUp env.look env.bread hne
  obtain ⟨again, e₂, hagain, hlook'⟩ := krGetBranch_lookUp (fun _ => fs.mem ino) env.breadAgain hne
  simp only [locksAt_iff hlook hlook', relooks_iff hlook]
  have hmaps : mapMore env first maxblocks blocksToBoundary maxblocks offsets.length 1 = none ↔
      MapBreaks env.look first maxblocks blocksToBoundary offsets.length 1 :=
    mapMore_eq_none_iff maxblocks (by omega)
  rw [hfirst]
  unfold relook
  rw [hagain]
  cases e₁ with
  | full =>
    by_cases hbreaks : MapBreaks env.look first maxblocks blocksToBoundary offsets.length 1
    · simp [hmaps.mpr hbreaks, hbreaks, hne]
    · obtain ⟨count, hcount⟩ := Option.ne_none_iff_exists'.mp (mt hmaps.mp hbreaks)
      simp [hcount, hbreaks]
  | changed => simp [hne]
  | hole =>
    cases verifyChain (fs.mem ino) first with
    | false => simp [hne]
    | true => simp [hne]
  | unread => simp

/-- The pointers after a branch was spliced in: a slot that was not filled keeps
its value in the inode and in every block in use. -/
theorem splice_row {fs fs1 : Fs} (hused : fs.UsedSame fs1) {ind : Indirect} {new : List Nat}
    {data num : Nat} (hnum : 1 ≤ num) {base : Base} {o : Nat}
    (hbase : base = .inode ∨ ∃ c, base = .block c ∧ fs.BlockBit c true)
    (hout : base ≠ ind.base ∨ ¬ (ind.off ≤ o ∧ o < ind.off + spliceCount new num)) :
    ((krSpliceBranch env ino fs1 iblock ind new data num).mem ino).row base o =
      (fs.mem ino).row base o := by
  have hrow : (fs1.mem ino).row base = (fs.mem ino).row base := by
    rcases hbase with rfl | ⟨c, rfl, hc⟩
    · exact hused.iData ino
    · exact hused.ptr c hc
  have htop : base ≠ .top := by
    rcases hbase with rfl | ⟨c, rfl, -⟩
    · simp
    · simp
  rw [krSpliceBranch_mem]
  by_cases heq : base = ind.base
  · have hslot := hout.resolve_left fun h => h heq
    rw [← heq, Mem.row_setRow_self _ htop, spliceRow_keep hnum hslot, hrow]
  · rw [Mem.row_setRow_ne _ heq, hrow]

/-- The look-up is repeated under the mutex and comes to an indirect block that cannot be read,
logical blocks are mapped below that block, and a branch can be allocated in its place. -/
def OverwritesLive (env : GetBlocksEnv) (ino : Nat) (reservation : Bool) (fs : Fs)
    (iblock maxblocks : Nat) : Prop :=
  env.Relooks (fs.mem ino) (fs.path iblock).1 (fs.path iblock).2 maxblocks ∧
    ∃ chain, LookUp (fun _ => fs.mem ino) env.breadAgain (fs.path iblock).1 chain .unread ∧
      (∃ l, fs.blockAt ino l ≠ 0 ∧
        (fs.path l).1.take chain.length = (fs.path iblock).1.take chain.length) ∧
      BranchAllocates env ino reservation fs iblock maxblocks chain

/-- By the chain of the locked part. -/
theorem overwritesLive_iff : OverwritesLive env ino reservation fs iblock maxblocks ↔
    ∃ br, lockedBranch env ino fs iblock maxblocks = some br ∧ br.err = some .eio ∧
      (∃ l, fs.blockAt ino l ≠ 0 ∧
        (fs.path l).1.take br.chain.length = (fs.path iblock).1.take br.chain.length) ∧
      BranchAllocates env ino reservation fs iblock maxblocks br.chain := by
  constructor
  · rintro ⟨hagain, chain, hlook, hmapped, halloc⟩
    have hbr := lockedBranch_iff.mpr ⟨chain, .unread, rfl, Or.inl ⟨hagain, hlook⟩⟩
    exact ⟨_, hbr, rfl, hmapped, halloc⟩
  · rintro ⟨br, hbr, herr, hmapped, halloc⟩
    obtain ⟨chain, e, rfl, ⟨hagain, hlook⟩ | ⟨-, -, rfl⟩⟩ := lockedBranch_iff.mp hbr
    · cases e with
      | unread => exact ⟨hagain, chain, hlook, hmapped, halloc⟩
      | full => cases herr
      | hole => cases herr
      | changed => cases herr
    · cases herr

theorem initBlockAllocInfo_same (reservation : Bool) (fs : Fs) :
    fs.BitsGrow (initBlockAllocInfo env ino reservation fs) ∧
      (initBlockAllocInfo env ino reservation fs).blockBitmap = fs.blockBitmap ∧
      (initBlockAllocInfo env ino reservation fs).mem ino = fs.mem ino := by
  obtain ⟨info, rsv, heq⟩ : ∃ info rsv, initBlockAllocInfo env ino reservation fs = { fs with
      inode := Function.update fs.inode ino { fs.inode ino with iBlockAllocInfo := info }
      rsv := rsv } := initBlockAllocInfo_eq reservation fs
  rw [heq]
  refine ⟨⟨⟨rfl, rfl, fun i => ?_⟩, fun _ _ h => h⟩, rfl, ?_⟩
  · by_cases hi : i = ino
    · subst hi
      simp
    · simp [hi]
  · simp [Fs.mem]

/-- A window is unlinked as long as its inode has no `kr_block_alloc_info`. -/
def Fs.WindowsOf (fs : Fs) (ino : Nat) : Prop :=
  fs.rsv.Wf ∧ ((fs.inode ino).iBlockAllocInfo = none → (fs.rsv.win (.inode ino)).rsvEnd = 0)

theorem initBlockAllocInfo_wf (hwin : fs.WindowsOf ino) (reservation : Bool) :
    (initBlockAllocInfo env ino reservation fs).rsv.Wf := by
  obtain ⟨hwf, hunused⟩ := hwin
  unfold initBlockAllocInfo
  split
  · rename_i hinit
    simp only [Bool.and_eq_true, Option.isNone_iff_eq_none] at hinit
    have hnot : Window.inode ino ∉ inorder fs.rsv.root := fun hmem =>
      (hwf.mem_iff ino).mp hmem (hunused hinit.1.2)
    have herase := hwf.erase (w := krInitWindow reservation) ino rfl
    rwa [List.erase_of_not_mem hnot] at herase
  · exact hwf

/-- Whether the call of `kr_alloc_branch` succeeds. -/
theorem lockedAlloc_completes {chain : List Indirect} {fs1 : Fs}
    {result : Except Errno (List Nat × Nat × Nat)} (hsys : fs.SystemSet) (hwin : fs.WindowsOf ino)
    (hcount : 1 ≤ krBlksToAllocate (fs.mem ino) (lastEntry chain)
      ((fs.path iblock).1.length - chain.length) maxblocks (fs.path iblock).2)
    (hrun : lockedAlloc ops env ino fuel reservation fs iblock maxblocks chain =
      .done (fs1, result)) :
    (∃ found, result = .ok found) ↔
      BranchAllocates env ino reservation fs iblock maxblocks chain := by
  obtain ⟨hgrow, hbits, hmem⟩ : fs.BitsGrow (initBlockAllocInfo env ino reservation fs) ∧
      (initBlockAllocInfo env ino reservation fs).blockBitmap = fs.blockBitmap ∧
      (initBlockAllocInfo env ino reservation fs).mem ino = fs.mem ino :=
    initBlockAllocInfo_same reservation fs
  have hwf : (initBlockAllocInfo env ino reservation fs).rsv.Wf :=
    initBlockAllocInfo_wf hwin reservation
  have hsys0 : (initBlockAllocInfo env ino reservation fs).SystemSet := by
    obtain ⟨info, rsv, heq⟩ : ∃ info rsv, initBlockAllocInfo env ino reservation fs = { fs with
        inode := Function.update fs.inode ino { fs.inode ino with iBlockAllocInfo := info }
        rsv := rsv } := initBlockAllocInfo_eq reservation fs
    rw [heq]
    exact ⟨hsys.bpg_pos, hsys.system, hsys.padding⟩
  refine krAllocBranch_completes ?_ hsys0 hwf List.length_drop hrun
  rwa [hmem]

/-- What the locked part hands to `kr_splice_branch`. -/
structure Spliced (env : GetBlocksEnv) (ino iblock maxblocks : Nat) (fs fs1 fs' : Fs)
    (chain : List Indirect) (new : List Nat) (data num : Nat) : Prop where
  result : fs' = krSpliceBranch env ino fs1 iblock (lastEntry chain) new data num
  used : fs.UsedSame fs1
  length_eq : new.length = (fs.path iblock).1.length - chain.length
  num_pos : 1 ≤ num
  num_le : num ≤ krBlksToAllocate (fs.mem ino) (lastEntry chain)
    ((fs.path iblock).1.length - chain.length) maxblocks (fs.path iblock).2
  fresh : fs.Fresh (new ++ List.range' data num)
  filled : ∃ fs0, fillBranch env data num 1 fs0 new ((fs.path iblock).1.drop chain.length) =
    (fs1, true)

theorem allocLocked_cases {chain : List Indirect} (hbpg : 0 < fs.sbi.sBlocksPerGroup)
    (hcount : 1 ≤ krBlksToAllocate (fs.mem ino) (lastEntry chain)
      ((fs.path iblock).1.length - chain.length) maxblocks (fs.path iblock).2)
    (hrun : allocLocked ops env ino fuel reservation fs iblock maxblocks (fs.path iblock).1
      (fs.path iblock).2 chain = .done (fs', mapped)) :
    (fs.UsedSame fs' ∧ ∀ fs1 found, lockedAlloc ops env ino fuel reservation fs iblock maxblocks
        chain ≠ .done (fs1, .ok found)) ∨
      ∃ fs1 new data num, lockedAlloc ops env ino fuel reservation fs iblock maxblocks chain =
          .done (fs1, .ok (new, data, num)) ∧
        Spliced env ino iblock maxblocks fs fs1 fs' chain new data num := by
  obtain ⟨hgrow, hbits, hmem⟩ : fs.BitsGrow (initBlockAllocInfo env ino reservation fs) ∧
      (initBlockAllocInfo env ino reservation fs).blockBitmap = fs.blockBitmap ∧
      (initBlockAllocInfo env ino reservation fs).mem ino = fs.mem ino :=
    initBlockAllocInfo_same reservation fs
  unfold allocLocked at hrun
  unfold lockedAlloc
  dsimp only at hrun ⊢
  generalize initBlockAllocInfo env ino reservation fs = fs0 at hgrow hbits hmem hrun ⊢
  rw [hmem] at hrun ⊢
  have hset : ∀ b, fs0.BlockBit b true ↔ fs.BlockBit b true := by
    intro b
    simp only [Fs.BlockBit, hgrow.sbi, hbits]
  generalize hcall : krAllocBranch ops env ino fuel fs0 _ ((fs.path iblock).1.length - chain.length)
    _ ((fs.path iblock).1.drop chain.length) = call at hrun ⊢
  cases call with
  | bug => cases hrun
  | running => cases hrun
  | done res =>
    obtain ⟨fs1, outcome⟩ := res
    have hbpg0 : 0 < fs0.sbi.sBlocksPerGroup := by rwa [hgrow.sbi]
    obtain ⟨hused0, hok⟩ := krAllocBranch_bits hcount hbpg0 hcall
    have hused : fs.UsedSame fs1 := by
      refine ⟨hused0.sbi.trans hgrow.sbi, fun c hc => ?_, fun i => ?_⟩
      · exact (hused0.ptr c ((hset c).mpr hc)).trans (congrFun hgrow.ptr c)
      · exact (hused0.iData i).trans (hgrow.iData i)
    cases outcome with
    | error e =>
      simp only [Exec.bind, Exec.done.injEq, Prod.mk.injEq] at hrun
      obtain ⟨rfl, -⟩ := hrun
      exact Or.inl ⟨hused, by simp⟩
    | ok found =>
      obtain ⟨new, data, num⟩ := found
      simp only [Exec.bind, Exec.done.injEq, Prod.mk.injEq] at hrun
      obtain ⟨hlen, hnum, hle, hfresh, hfill⟩ := hok new data num rfl
      refine Or.inr ⟨fs1, new, data, num, rfl, hrun.1.symm, hused, hlen, hnum, hle, ?_, hfill⟩
      exact ⟨hfresh.nodup, fun b hb => hgrow.freeBlock (hfresh.clear b hb)⟩

/-- What the results about the locked part share: the paths of the file system,
and a tree of blocks in use without a block twice. -/
structure LiveTree (fs : Fs) (ino : Nat) : Prop where
  bpg_pos : 0 < fs.sbi.sBlocksPerGroup
  paths : ∀ l : Nat, (fs.path l).1 ≠ [] → IsPath fs.addrPerBlock (fs.path l).1 ∧
    (fs.path l).2 = (lastWidth fs.addrPerBlock (fs.path l).1 : Int) - 1 -
      ((fs.path l).1.getLastD 0 : Nat)
  nodup : (fs.fileTree ino).Nodup
  inUse : ∀ b ∈ fs.fileTree ino, fs.BlockBit b true

theorem liveTree_of_krFillSuper {k : MountEnv} {es : SuperBlock}
    (accepted : krFillSuper k es = .ok fs.sbi) (nodup : (fs.fileTree ino).Nodup)
    (inUse : ∀ b ∈ fs.fileTree ino, fs.BlockBit b true) : LiveTree fs ino := by
  have geo := addrGeometry_of_krFillSuper accepted
  have hapb : fs.addrPerBlock = 2 ^ fs.sbi.sAddrPerBlockBits := geo.apb_eq
  refine ⟨blocksPerGroup_pos_of_krFillSuper accepted, fun l hne => ?_, nodup, inUse⟩
  rw [Fs.path, hapb] at hne ⊢
  exact krBlockToPath_isPath (by have := geo.bits; omega) l hne

theorem LiveTree.path_of_mapped (live : LiveTree fs ino) {l : Nat} (hl : fs.blockAt ino l ≠ 0) :
    IsPath fs.addrPerBlock (fs.path l).1 := by
  refine (live.paths l fun hnil => ?_).1
  rw [Fs.blockAt, hnil] at hl
  exact hl rfl

/-- The arrays on a path without a hole are in use. -/
theorem LiveTree.slotBase_inUse (live : LiveTree fs ino) {offsets front back : List Nat}
    (hpath : IsPath fs.addrPerBlock offsets) (hsplit : offsets = front ++ back)
    (hfront : front ≠ [] → (fs.mem ino).blockAt front ≠ 0) :
    (fs.mem ino).slotBase front = .inode ∨
      ∃ c, (fs.mem ino).slotBase front = .block c ∧ fs.BlockBit c true := by
  unfold Mem.slotBase
  split
  · exact Or.inl rfl
  · rename_i hne
    exact Or.inr ⟨_, rfl, live.inUse _
      (Mem.blockAt_mem (hpath.subPath hsplit hne) (hfront hne))⟩

/-- A failed allocation leaves the map, the holes included. -/
theorem LiveTree.blockAt_of_usedSame (live : LiveTree fs ino) (hused : fs.UsedSame fs') (l : Nat) :
    fs'.blockAt ino l = fs.blockAt ino l := by
  have hsame : fs'.path l = fs.path l := by simp only [Fs.path, Fs.addrPerBlock, hused.sbi]
  unfold Fs.blockAt
  rw [hsame]
  by_cases hnil : (fs.path l).1 = []
  · rw [hnil]
    rfl
  · refine Mem.blockAt_same _ fun front o rest hsplit hlive => ?_
    rcases live.slotBase_inUse (live.paths l hnil).1 hsplit hlive with hb | ⟨c, hb, hc⟩
    · rw [hb]
      exact congrFun (hused.iData ino) o
    · rw [hb]
      exact congrFun (hused.ptr c hc) o

/-- A splice keeps the mapping of a path that reads none of the filled slots. -/
theorem LiveTree.keeps_of_splice (live : LiveTree fs ino) {fs1 : Fs} (hused : fs.UsedSame fs1)
    {ind : Indirect} {new : List Nat} {data num : Nat} (hnum : 1 ≤ num) {offsets back : List Nat}
    (hpath : IsPath fs.addrPerBlock (offsets ++ back))
    (hout : ∀ front o rest, offsets = front ++ o :: rest →
      (fs.mem ino).blockAt (front ++ [o]) ≠ 0 → (fs.mem ino).slotBase front = ind.base →
      ¬ (ind.off ≤ o ∧ o < ind.off + spliceCount new num))
    (hl : (fs.mem ino).blockAt offsets ≠ 0) :
    ((krSpliceBranch env ino fs1 iblock ind new data num).mem ino).blockAt offsets =
      (fs.mem ino).blockAt offsets := by
  refine Mem.blockAt_keep _ (fun front o rest hsplit hne => ?_) hl
  have huse := live.slotBase_inUse hpath (show offsets ++ back = front ++ (o :: rest ++ back) by
    rw [hsplit, List.append_assoc]) fun h => Mem.blockAt_front hne h
  refine splice_row hused hnum huse ?_
  by_cases heq : (fs.mem ino).slotBase front = ind.base
  · exact Or.inr (hout front o rest hsplit hne heq)
  · exact Or.inl heq

/-- Without a pointer in the way a splice keeps every mapping. -/
theorem LiveTree.keeps_of_hole (live : LiveTree fs ino) {fs1 : Fs} {chain : List Indirect}
    {new : List Nat} {data num : Nat}
    (hs : Spliced env ino iblock maxblocks fs fs1 fs' chain new data num) (hmax : 1 ≤ maxblocks)
    (hboundary : 0 ≤ (fs.path iblock).2)
    (hzero : (fs.mem ino).row (lastEntry chain).base (lastEntry chain).off = 0) {l : Nat}
    (hl : fs.blockAt ino l ≠ 0) : fs'.blockAt ino l = fs.blockAt ino l := by
  have hpath := live.path_of_mapped hl
  have hsame : fs'.path l = fs.path l := by
    rw [hs.result]
    have hsbi : (krSpliceBranch env ino fs1 iblock (lastEntry chain) new data num).sbi = fs.sbi :=
      hs.used.sbi
    simp only [Fs.path, Fs.addrPerBlock, hsbi]
  unfold Fs.blockAt
  rw [hsame, hs.result]
  rw [← List.append_nil (fs.path l).1] at hpath
  refine live.keeps_of_splice hs.used hs.num_pos hpath (fun front o rest hsplit hne hbase => ?_) hl
  rintro ⟨h1, h2⟩
  rw [Mem.blockAt_snoc o fun h => Mem.blockAt_front hne h, hbase] at hne
  apply hne
  obtain ⟨-, -, hempty⟩ := krBlksToAllocate_spec (fs.mem ino) (lastEntry chain)
    ((fs.path iblock).1.length - chain.length) hmax hboundary fun _ => hzero
  have hlen := hs.length_eq
  by_cases hnew : new = []
  · have hcount : spliceCount new num = num := by simp [spliceCount, hnew]
    have hnum := hs.num_le
    rw [hnew, List.length_nil] at hlen
    exact hempty hlen.symm o h1 (by omega)
  · have hcount : spliceCount new num = 1 := by simp [spliceCount, hnew]
    rwa [show o = (lastEntry chain).off by omega]

section Unread

variable {fs1 : Fs} {chain : List Indirect} {new : List Nat} {data num : Nat}
  {front : List Nat} {off : Nat} {back : List Nat}

theorem Spliced.path_eq (hs : Spliced env ino iblock maxblocks fs fs1 fs' chain new data num)
    (l : Nat) : fs'.path l = fs.path l := by
  have hsbi : fs'.sbi = fs.sbi := by
    rw [hs.result]
    exact hs.used.sbi
  simp only [Fs.path, Fs.addrPerBlock, hsbi]

/-- A branch spliced over a live pointer keeps the mappings that do not go
through this pointer. -/
theorem LiveTree.keeps_elsewhere (live : LiveTree fs ino)
    (hs : Spliced env ino iblock maxblocks fs fs1 fs' chain new data num) (hnew : new ≠ [])
    (hpath : IsPath fs.addrPerBlock (fs.path iblock).1)
    (hsplit : (fs.path iblock).1 = front ++ off :: back)
    (hlen : chain.length = front.length + 1) (hoff : (lastEntry chain).off = off)
    (hbase : (lastEntry chain).base = (fs.mem ino).slotBase front)
    (hfront : front ≠ [] → (fs.mem ino).blockAt front ≠ 0) {l : Nat} (hl : fs.blockAt ino l ≠ 0)
    (helse : (fs.path l).1.take chain.length ≠ (fs.path iblock).1.take chain.length) :
    fs'.blockAt ino l = fs.blockAt ino l := by
  have hpathl := live.path_of_mapped hl
  unfold Fs.blockAt
  rw [hs.path_eq, hs.result]
  have hpathl' : IsPath fs.addrPerBlock ((fs.path l).1 ++ []) := by rwa [List.append_nil]
  refine live.keeps_of_splice hs.used hs.num_pos hpathl' (fun f o rest hsplitl hne hb => ?_) hl
  rintro ⟨h1, h2⟩
  have hcount : spliceCount new num = 1 := by simp [spliceCount, hnew]
  have ho : o = off := by omega
  have hf : f = front := by
    refine Mem.slotBase_inj (fun h => ⟨hpath.subPath hsplit h, hfront h⟩)
      (fun h => hpathl.subPath hsplitl h) live.nodup (hb.trans hbase)
  apply helse
  rw [hsplitl, hsplit, hlen, hf, ho, List.take_length_add_append, List.take_length_add_append]
  simp

/-- The way to the array that is filled is as it was. -/
theorem LiveTree.splice_front (live : LiveTree fs ino)
    (hs : Spliced env ino iblock maxblocks fs fs1 fs' chain new data num)
    (hpath : IsPath fs.addrPerBlock (fs.path iblock).1)
    (hsplit : (fs.path iblock).1 = front ++ off :: back)
    (hbase : (lastEntry chain).base = (fs.mem ino).slotBase front)
    (hfront : front ≠ [] → (fs.mem ino).blockAt front ≠ 0) (hne : front ≠ []) :
    (fs'.mem ino).blockAt front = (fs.mem ino).blockAt front := by
  rw [hs.result]
  have hpath' : IsPath fs.addrPerBlock (front ++ (off :: back)) := by rwa [← hsplit]
  refine live.keeps_of_splice hs.used hs.num_pos hpath' (fun f o rest hf _ hb => ?_) (hfront hne)
  have hcut : (fs.path iblock).1 = f ++ (o :: rest ++ (off :: back)) := by
    rw [hsplit, hf, List.append_assoc]
  have hfeq : f = front := Mem.slotBase_inj (fun h => ⟨hpath.subPath hsplit h, hfront h⟩)
    (fun h => hpath.subPath hcut h) live.nodup (hb.trans hbase)
  have := congrArg List.length hf
  rw [hfeq] at this
  simp at this

/-- The array that is filled. -/
theorem LiveTree.splice_slot (live : LiveTree fs ino)
    (hs : Spliced env ino iblock maxblocks fs fs1 fs' chain new data num)
    (hpath : IsPath fs.addrPerBlock (fs.path iblock).1)
    (hsplit : (fs.path iblock).1 = front ++ off :: back) (hoff : (lastEntry chain).off = off)
    (hbase : (lastEntry chain).base = (fs.mem ino).slotBase front)
    (hfront : front ≠ [] → (fs.mem ino).blockAt front ≠ 0) (o : Nat) :
    (fs'.mem ino).blockAt (front ++ [o]) = spliceRow
      ((fs.mem ino).row ((fs.mem ino).slotBase front)) off (new.headD data) num new.isEmpty o := by
  have hway : front ≠ [] → (fs'.mem ino).blockAt front = (fs.mem ino).blockAt front :=
    live.splice_front hs hpath hsplit hbase hfront
  have hbase' : (fs'.mem ino).slotBase front = (fs.mem ino).slotBase front := by
    unfold Mem.slotBase
    split
    · rfl
    · rename_i hne
      rw [hway hne]
  have hrow : (fs1.mem ino).row ((fs.mem ino).slotBase front) =
      (fs.mem ino).row ((fs.mem ino).slotBase front) := by
    rcases live.slotBase_inUse hpath hsplit hfront with h | ⟨c, h, hc⟩
    · rw [h]
      exact hs.used.iData ino
    · rw [h]
      exact hs.used.ptr c hc
  have htop : (fs.mem ino).slotBase front ≠ .top := by
    rcases live.slotBase_inUse hpath hsplit hfront with h | ⟨c, h, -⟩
    · simp [h]
    · simp [h]
  rw [Mem.blockAt_snoc o fun h => by rw [hway h]; exact hfront h, hbase', hs.result,
    krSpliceBranch_mem, hbase, Mem.row_setRow_self _ htop, hrow, hoff]

/-- The new indirect blocks are not the array that is filled. -/
theorem LiveTree.splice_rows (live : LiveTree fs ino)
    (hs : Spliced env ino iblock maxblocks fs fs1 fs' chain new data num)
    (hpath : IsPath fs.addrPerBlock (fs.path iblock).1)
    (hsplit : (fs.path iblock).1 = front ++ off :: back)
    (hbase : (lastEntry chain).base = (fs.mem ino).slotBase front)
    (hfront : front ≠ [] → (fs.mem ino).blockAt front ≠ 0) {c : Nat} (hc : c ∈ new) :
    (fs'.mem ino).ptr c = fs1.ptr c := by
  rw [hs.result, krSpliceBranch_mem]
  refine Mem.row_setRow_ne _ (b := .block c) (fun heq => ?_) _
  rw [hbase] at heq
  have hclear := hs.fresh.clear c (List.mem_append.mpr (Or.inl hc))
  rcases live.slotBase_inUse hpath hsplit hfront with h | ⟨c', h, hc'⟩
  · rw [h] at heq
    cases heq
  · rw [h] at heq
    rw [← Base.block.inj heq] at hc'
    exact hclear.not_inUse hc'

/-- The mappings below a live pointer that was spliced over are gone. -/
theorem LiveTree.loses_below (live : LiveTree fs ino)
    (hs : Spliced env ino iblock maxblocks fs fs1 fs' chain new data num) (hnew : new ≠ [])
    (hpath : IsPath fs.addrPerBlock (fs.path iblock).1)
    (hsplit : (fs.path iblock).1 = front ++ off :: back)
    (hlen : chain.length = front.length + 1) (hoff : (lastEntry chain).off = off)
    (hbase : (lastEntry chain).base = (fs.mem ino).slotBase front)
    (hfront : front ≠ [] → (fs.mem ino).blockAt front ≠ 0) {l : Nat} (hl : fs.blockAt ino l ≠ 0)
    (hbelow : (fs.path l).1.take chain.length = (fs.path iblock).1.take chain.length) :
    fs'.blockAt ino l ≠ fs.blockAt ino l := by
  have hpathl := live.path_of_mapped hl
  have htake : (fs.path iblock).1.take chain.length = front ++ [off] := by
    rw [hsplit, hlen, List.take_length_add_append]
    simp
  obtain ⟨q, hq⟩ : ∃ q, (fs.path l).1 = front ++ [off] ++ q := by
    refine ⟨(fs.path l).1.drop chain.length, ?_⟩
    rw [← htake, ← hbelow, List.take_append_drop]
  -- both paths start in the same slot of the inode, so they are of one length
  have hqlen : q.length = new.length := by
    have h1 := hpathl.length_eq
    have h2 := hpath.length_eq
    have hhead : (fs.path l).1.headD 0 = (fs.path iblock).1.headD 0 := by
      rw [hq, hsplit]
      cases front with
      | nil => rfl
      | cons o os => rfl
    rw [hhead, ← h2, hq] at h1
    have h3 := hs.length_eq
    simp only [List.length_append, List.length_singleton] at h1
    omega
  have hslot : (fs'.mem ino).blockAt (front ++ [off]) = new.headD data := by
    rw [live.splice_slot hs hpath hsplit hoff hbase hfront off]
    simp [spliceRow]
  have hfollow : fs'.blockAt ino l = (fs'.mem ino).follow (new.headD data) q := by
    rw [Fs.blockAt, hs.path_eq, hq, Mem.blockAt_append (by simp), hslot]
  obtain ⟨fs0, hfill⟩ := hs.filled
  have hdrop : ((fs.path iblock).1.drop chain.length).length = new.length := by
    rw [List.length_drop, hs.length_eq]
  have hbranch := fillBranch_follow hs.num_pos new hnew (List.nodup_append.mp hs.fresh.nodup).1
    hdrop hfill (fun c hc => live.splice_rows hs hpath hsplit hbase hfront hc) q hqlen
  rw [hfollow]
  intro heq
  rcases hbranch with hz | ⟨i, hi, -, hat⟩
  · rw [hz] at heq
    exact hl heq.symm
  · -- the old block is in use and the new ones were free
    rw [heq] at hat
    have hclear := hs.fresh.clear (fs.blockAt ino l)
      (List.mem_append.mpr (Or.inr (by rw [List.mem_range'_1]; omega)))
    have hin := live.inUse _ (Mem.blockAt_mem (hpathl.subPath (List.append_nil _).symm
      hpathl.ne_nil) hl)
    exact hclear.not_inUse hin

end Unread

/-- The allocation of a call that goes through its locked part. -/
theorem allocLocked_alloc {chain : List Indirect}
    (hrun : allocLocked ops env ino fuel reservation fs iblock maxblocks (fs.path iblock).1
      (fs.path iblock).2 chain = .done (fs', mapped)) : ∃ fs1 result,
    lockedAlloc ops env ino fuel reservation fs iblock maxblocks chain = .done (fs1, result) := by
  unfold allocLocked at hrun
  obtain ⟨⟨fs1, result⟩, halloc, -⟩ := Exec.bind_eq_done.mp hrun
  exact ⟨fs1, result, halloc⟩

/-- For every memory the first look-up saw and every pattern of failing reads, a
call keeps each mapping there was when the mutex was taken exactly if no look-up
under the mutex stops at an unreadable block above mapped blocks where a branch can
be allocated. -/
theorem krGetBlocks_keeps_mapped_iff {k : MountEnv} {es : SuperBlock}
    (accepted : krFillSuper k es = .ok fs.sbi) (system : fs.SystemSet) (windows : fs.WindowsOf ino)
    (nodup : (fs.fileTree ino).Nodup) (inUse : ∀ b ∈ fs.fileTree ino, fs.BlockBit b true)
    (hrun : krGetBlocks ops env ino fuel reservation fs iblock maxblocks true =
      .done (fs', mapped)) :
    (∀ l, fs.blockAt ino l ≠ 0 → fs'.blockAt ino l = fs.blockAt ino l) ↔
      ¬ OverwritesLive env ino reservation fs iblock maxblocks := by
  have live := liveTree_of_krFillSuper accepted nodup inUse
  rw [overwritesLive_iff]
  obtain ⟨hmax, ⟨rfl, hcomplete⟩ | ⟨br, hbr, hopen, hlocked⟩⟩ := krGetBlocks_locked hrun
  · refine iff_of_true (fun _ _ => rfl) ?_
    rintro ⟨br, hbr, herr, -⟩
    obtain ⟨-, -, -, hends, -⟩ := lockedBranch_spec hbr
    exact absurd (hcomplete br hbr) (by simp [(hends.unread herr).1])
  · obtain ⟨hne, hlinked, hv, hends, herrs⟩ := lockedBranch_spec hbr
    obtain ⟨hpath, hboundary⟩ := live.paths iblock hne
    have hlast := hpath.last_lt
    have hpos : 0 ≤ (fs.path iblock).2 := by omega
    obtain ⟨front, off, back, hsplit, hlen, hoff, hkey, hbase, hfront⟩ := hlinked.blockAt hv
    have hrow := verifyChain_lastEntry hv hlinked.ne_nil
    have hunread : br.err = some .eio → 0 < (fs.path iblock).1.length - br.chain.length := by
      intro herr
      have := (hends.unread herr).2.2
      omega
    have hcount := (krBlksToAllocate_spec (fs.mem ino) (lastEntry br.chain)
      ((fs.path iblock).1.length - br.chain.length) hmax hpos fun hk => ?_).1
    · have hsame : ∀ br', lockedBranch env ino fs iblock maxblocks = some br' → br' = br := by
        intro br' hbr'
        rw [hbr, Option.some.injEq] at hbr'
        exact hbr'.symm
      obtain ⟨fs2, result, halloc2⟩ := allocLocked_alloc hlocked
      have hallocates := lockedAlloc_completes system windows hcount halloc2
      obtain ⟨hused, hfail⟩ | ⟨fs1, new, data, num, halloc, hs⟩ :=
        allocLocked_cases live.bpg_pos hcount hlocked
      · refine iff_of_true (fun l _ => live.blockAt_of_usedSame hused l) ?_
        rintro ⟨br', hbr', -, -, halloc⟩
        rw [hsame br' hbr'] at halloc
        obtain ⟨found, rfl⟩ := hallocates.mpr halloc
        exact hfail fs2 found halloc2
      · rcases herrs with herr | herr
        · -- the look-up ended in a hole
          refine iff_of_true (fun l hl => ?_) ?_
          · refine live.keeps_of_hole hs hmax hpos ?_ hl
            rw [← hrow]
            exact hends.hole hopen herr
          · rintro ⟨br', hbr', herr', -⟩
            rw [hsame br' hbr', herr] at herr'
            cases herr'
        · have hnew : new ≠ [] := by
            rintro rfl
            have := hs.length_eq
            have := hunread herr
            simp only [List.length_nil] at *
            omega
          constructor
          · rintro hkeep ⟨br', hbr', -, ⟨l, hl, hbelow⟩, -⟩
            rw [hsame br' hbr'] at hbelow
            exact live.loses_below hs hnew hpath hsplit hlen hoff hbase hfront hl hbelow
              (hkeep l hl)
          · intro hnot l hl
            refine live.keeps_elsewhere hs hnew hpath hsplit hlen hoff hbase hfront hl
              fun hbelow => hnot ?_
            rw [halloc] at halloc2
            cases halloc2
            exact ⟨br, hbr, herr, ⟨l, hl, hbelow⟩, hallocates.mp ⟨_, rfl⟩⟩
    · rcases herrs with herr | herr
      · rw [← hrow]
        exact hends.hole hopen herr
      · exact absurd hk (hunread herr).ne'

end Locked

/-! ## A lost block -/

/-- The file system of `tinyImage` after another thread gave file 12 its logical
block 12: indirect block 7 and data block 8. -/
def raceFs : Fs :=
  { tinyFs with
    desc := fun _ => { smallDesc with bgFreeBlocksCount := 8 }
    blockBitmap := fun _ i => decide (i < 8)
    sFreeblocksCounter := 8
    inode := fun _ => { Inode.blank with
      iMode := 0x8000
      iBlocks := 4
      iData := fun slot => if slot = 12 then 7 else 0 }
    ptr := fun b i => if b = 7 ∧ i = 0 then 8 else 0 }

/-- A call that looked the file up before; reads under the mutex succeed or fail
as given. -/
def raceEnv (readable : Bool) : GetBlocksEnv :=
  { tinyGetEnv with breadAgain := fun _ => readable }

theorem fileTree_raceFs : raceFs.fileTree 12 = {7, 8} := by decide +kernel

theorem raceFs_inUse : ∀ b ∈ raceFs.fileTree 12, raceFs.BlockBit b true := by
  rw [fileTree_raceFs]
  simp only [Multiset.insert_eq_cons, Multiset.mem_cons, Multiset.mem_singleton, forall_eq_or_imp,
    forall_eq]
  exact ⟨⟨0, 6, by decide, by decide, by decide⟩, ⟨0, 7, by decide, by decide, by decide⟩⟩

/-- A tree with the placeholder alone. -/
theorem tinyFs_rsv_wf : tinyFs.rsv.Wf := by
  have hlist : inorder tinyFs.rsv.root = [.head] := rfl
  have hwin : ∀ k, tinyFs.rsv.win k = ⟨0, 0, 0, 0⟩ := fun _ => rfl
  rw [Rsv.Wf, hlist]
  refine ⟨by simp, by simp [hwin], rfl, ⟨rfl, rfl⟩, fun ino => ?_⟩
  simp [hwin]

theorem raceFs_windows : raceFs.WindowsOf 12 := ⟨tinyFs_rsv_wf, fun _ => rfl⟩

theorem raceFs_systemSet : raceFs.SystemSet := by
  refine ⟨by decide, ?_, ?_⟩
  · decide +kernel
  · decide +kernel

/-- With readable blocks a write to the hole at logical block 13 leaves logical
block 12 mapped. -/
theorem krGetBlocks_keeps_mapped_readable : ∃ fs' mapped,
    krGetBlocks Rebalance.plain (raceEnv true) 12 20 true raceFs 13 1 true = .done (fs', mapped) ∧
      mapped.new = true ∧ raceFs.blockAt 12 12 = 8 ∧
      ∀ l, raceFs.blockAt 12 l ≠ 0 → fs'.blockAt 12 l = raceFs.blockAt 12 l := by
  have hvalue : (krGetBlocks Rebalance.plain (raceEnv true) 12 20 true raceFs 13 1 true).toOption.map
      (fun r => r.2.new) = some true := by decide +kernel
  obtain ⟨⟨fs', mapped⟩, hcall, hnew⟩ := Exec.toOption_map_eq_some.mp hvalue
  refine ⟨fs', mapped, hcall, hnew, by decide +kernel, ?_⟩
  refine (krGetBlocks_keeps_mapped_iff krFillSuper_tinyImage raceFs_systemSet raceFs_windows ?_
    raceFs_inUse hcall).mpr ?_
  · rw [fileTree_raceFs]
    decide
  · rintro ⟨-, chain, hlook, -⟩
    exact absurd hlook.ends.2.2 (by simp [raceEnv])

/-- When block 7 cannot be read under the mutex, the call replaces it by a new
indirect block, and logical block 12 moves from block 8 to block 10. -/
theorem krGetBlocks_overwrites_unread :
    ¬ ∀ (k : MountEnv) (es : SuperBlock) (ops : Rebalance Window) (env : GetBlocksEnv)
      (ino fuel : Nat) (reservation : Bool) (fs fs' : Fs) (iblock maxblocks : Nat)
      (mapped : Mapped), krFillSuper k es = .ok fs.sbi → fs.SystemSet → fs.WindowsOf ino →
      (fs.fileTree ino).Nodup → (∀ b ∈ fs.fileTree ino, fs.BlockBit b true) →
      krGetBlocks ops env ino fuel reservation fs iblock maxblocks true = .done (fs', mapped) →
      ∀ l, fs.blockAt ino l ≠ 0 → fs'.blockAt ino l = fs.blockAt ino l := by
  intro h
  have hvalue : (krGetBlocks Rebalance.plain (raceEnv false) 12 20 true raceFs 12 1
      true).toOption.map (fun r => r.1.blockAt 12 12) = some 10 := by decide +kernel
  have hbefore : raceFs.blockAt 12 12 = 8 := by decide +kernel
  obtain ⟨⟨fs', mapped⟩, hcall, hmoved⟩ := Exec.toOption_map_eq_some.mp hvalue
  have hkept := h smallEnv tinyImage Rebalance.plain (raceEnv false) 12 20 true raceFs fs' 12 1
    mapped krFillSuper_tinyImage raceFs_systemSet raceFs_windows (by rw [fileTree_raceFs]; decide)
    raceFs_inUse hcall 12
    (by rw [hbefore]; decide)
  rw [hmoved, hbefore] at hkept
  exact absurd hkept (by decide)

end KrFs
