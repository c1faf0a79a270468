import KrFs.NewBlocks
import KrFs.BlockMap

/-!
# The bits of new blocks

What holds of the allocator in any state, with no agreement of counts or trees:
the blocks it hands out had clear bits, several runs in a row never overlap, and
neither allocating nor freeing writes a block pointer.
-/

namespace KrFs

open SearchTree Bitmap

/-- The bit of the block has the given value. -/
def Fs.BlockBit (fs : Fs) (b : Nat) (value : Bool) : Prop :=
  ∃ g i, i < fs.sbi.sBlocksPerGroup ∧ b = fs.sbi.groupFirstBlockNo g + i ∧
    fs.blockBitmap g i = value

/-- A block has only one bit. -/
theorem Fs.BlockBit.unique {fs : Fs} {b : Nat} {v w : Bool} (h1 : fs.BlockBit b v)
    (h2 : fs.BlockBit b w) : v = w := by
  obtain ⟨g1, i1, hi1, hb1, hv⟩ := h1
  obtain ⟨g2, i2, hi2, hb2, hw⟩ := h2
  have hpos : 0 < fs.sbi.sBlocksPerGroup := by omega
  have hsum : g1 * fs.sbi.sBlocksPerGroup + i1 = g2 * fs.sbi.sBlocksPerGroup + i2 := by
    unfold SbInfo.groupFirstBlockNo at hb1 hb2
    omega
  have hdiv : ∀ g i, i < fs.sbi.sBlocksPerGroup →
      (g * fs.sbi.sBlocksPerGroup + i) / fs.sbi.sBlocksPerGroup = g := by
    intro g i hi
    rw [Nat.mul_comm, Nat.mul_add_div hpos, Nat.div_eq_of_lt hi, Nat.add_zero]
  have hg : g1 = g2 := by rw [← hdiv g1 i1 hi1, hsum, hdiv g2 i2 hi2]
  subst hg
  have hi : i1 = i2 := by omega
  subst hi
  rw [← hv, hw]

/-- A block of a group whose bit is clear. -/
def Fs.FreeBlock (fs : Fs) (b : Nat) : Prop :=
  ∃ g < fs.sbi.sGroupsCount, ∃ i < fs.sbi.sBlocksPerGroup,
    b = fs.sbi.groupFirstBlockNo g + i ∧ fs.blockBitmap g i = false

theorem Fs.FreeBlock.blockBit {fs : Fs} {b : Nat} (h : fs.FreeBlock b) : fs.BlockBit b false := by
  obtain ⟨g, -, i, hi, hb, hclear⟩ := h
  exact ⟨g, i, hi, hb, hclear⟩

theorem Fs.FreeBlock.not_inUse {fs : Fs} {b : Nat} (h : fs.FreeBlock b) : ¬ fs.BlockBit b true :=
  fun hset => absurd (hset.unique h.blockBit) (by simp)

/-- No block pointer differs. -/
structure Fs.PtrSame (fs fs' : Fs) : Prop where
  sbi : fs'.sbi = fs.sbi
  ptr : fs'.ptr = fs.ptr
  iData : ∀ i, (fs'.inode i).iData = (fs.inode i).iData

theorem Fs.PtrSame.refl (fs : Fs) : fs.PtrSame fs := ⟨rfl, rfl, fun _ => rfl⟩

theorem Fs.PtrSame.trans {a b c : Fs} (h1 : a.PtrSame b) (h2 : b.PtrSame c) : a.PtrSame c :=
  ⟨h2.sbi.trans h1.sbi, h2.ptr.trans h1.ptr, fun i => (h2.iData i).trans (h1.iData i)⟩

theorem Fs.chargeBlocks_ptrSame (fs : Fs) (ino : Nat) (n : Int) :
    fs.PtrSame (fs.chargeBlocks ino n) := by
  refine ⟨rfl, rfl, fun i => ?_⟩
  rw [chargeBlocks_inode]
  rfl

section Free

theorem Fs.BlockFrame.ptrSame {fs fs' : Fs} (h : fs.BlockFrame fs') : fs.PtrSame fs' := by
  refine ⟨h.sbi, h.ptr, fun i => ?_⟩
  obtain ⟨n, hn⟩ := h.inode i
  rw [hn]

theorem freeEach_ptrSame (env : GetBlocksEnv) (ino : Nat) (blocks : List Nat) :
    ∀ fs : Fs, fs.PtrSame (freeEach env ino fs blocks) := by
  induction blocks with
  | nil => exact fun fs => Fs.PtrSame.refl fs
  | cons b blocks ih =>
    intro fs
    exact (krFreeBlocks_frame env.readBitmap fs ino b 1).ptrSame.trans (ih _)

end Free

/-! ## Allocation -/

/-- An allocation: pointers stay and bits are only set. -/
structure Fs.BitsGrow (fs fs' : Fs) : Prop extends fs.PtrSame fs' where
  bits : ∀ g i, fs.blockBitmap g i = true → fs'.blockBitmap g i = true

theorem Fs.BitsGrow.trans {a b c : Fs} (h1 : a.BitsGrow b) (h2 : b.BitsGrow c) : a.BitsGrow c :=
  ⟨h1.toPtrSame.trans h2.toPtrSame, fun g i h => h2.bits g i (h1.bits g i h)⟩

theorem Fs.BitsGrow.blockBit_true {fs fs' : Fs} (h : fs.BitsGrow fs') {b : Nat}
    (hb : fs.BlockBit b true) : fs'.BlockBit b true := by
  obtain ⟨g, i, hi, hb, hbit⟩ := hb
  exact ⟨g, i, by rwa [h.sbi], by rwa [h.sbi], h.bits g i hbit⟩

theorem Fs.BitsGrow.freeBlock {fs fs' : Fs} (h : fs.BitsGrow fs') {b : Nat}
    (hb : fs'.FreeBlock b) : fs.FreeBlock b := by
  obtain ⟨g, hg, i, hi, haddr, hclear⟩ := hb
  rw [h.sbi] at hg hi haddr
  refine ⟨g, hg, i, hi, haddr, ?_⟩
  by_contra hset
  rw [h.bits g i (by simpa using hset)] at hclear
  cases hclear

section New

variable {ops : Rebalance Window} {env : AllocEnv} {ino fuel : Nat} {fs fs' : Fs}

theorem SameButRsv.bitsGrow (h : SameButRsv fs fs') : fs.BitsGrow fs' := by
  rw [h]
  exact ⟨⟨rfl, rfl, fun _ => rfl⟩, fun _ _ hset => hset⟩

theorem Claimed.bitsGrow {group first num count : Nat} (h : Claimed fs fs' group first num count) :
    fs.BitsGrow fs' := by
  refine ⟨⟨by rw [h.state], by rw [h.state], fun i => by rw [h.state]⟩, fun g i hset => ?_⟩
  by_cases hg : g = group
  · subst hg
    rw [h.run.bits, setBits, hset, Bool.true_or]
  · rw [h.state]
    simpa [hg] using hset

/-- The blocks of a run that was claimed. -/
theorem Claimed.blockBit {group first num count b : Nat}
    (h : Claimed fs fs' group first num count)
    (hb : b ∈ blockRun (fs.sbi.groupFirstBlockNo group + first) num) :
    fs.FreeBlock b ∧ fs'.BlockBit b true := by
  obtain ⟨h1, h2⟩ := mem_blockRun.mp hb
  have hinside := h.run.inside
  have hsbi := h.bitsGrow.sbi
  have haddr : b = fs.sbi.groupFirstBlockNo group + (b - fs.sbi.groupFirstBlockNo group) := by omega
  refine ⟨⟨group, h.group_lt, _, by omega, haddr, h.run.clear _ (by omega) (by omega)⟩,
    ⟨group, b - fs.sbi.groupFirstBlockNo group, by rw [hsbi]; omega, by rw [hsbi]; exact haddr, ?_⟩⟩
  rw [h.run.bits]
  have hin : first ≤ b - fs.sbi.groupFirstBlockNo group ∧
      b - fs.sbi.groupFirstBlockNo group < first + num := by omega
  simp [setBits, hin]

/-- What the loop at `retry_alloc` does to the bits, in any state. A run in the
system zone of its group is left set and the search goes on. -/
theorem retryAlloc_bits {goal goalGroup : Nat}
    {result : Except (Errno × Bool) (Nat × Nat × Nat)} (rounds : Nat) :
    ∀ {fs : Fs} {groupNo : Nat} {useRsv : Bool} {windowsz num : Nat},
    0 < fs.sbi.sBlocksPerGroup →
    retryAlloc ops env ino fuel goal goalGroup rounds fs groupNo useRsv windowsz num =
      .done (fs', result) →
    fs.BitsGrow fs' ∧ ∀ group block n, result = .ok (group, block, n) →
      1 ≤ n ∧ n ≤ max 1 num ∧ ∀ b ∈ blockRun block n, fs.FreeBlock b ∧ fs'.BlockBit b true := by
  induction rounds with
  | zero =>
    intro fs groupNo useRsv windowsz num _ hrun
    simp [retryAlloc] at hrun
  | succ rounds ih =>
    intro fs groupNo useRsv windowsz num hbpg hrun
    unfold retryAlloc at hrun
    dsimp only at hrun
    cases hsearch : searchFrom ops env ino fuel fs goal groupNo
        (keepRsv ino fs groupNo useRsv windowsz) windowsz num with
    | bug => simp [hsearch, Exec.bind] at hrun
    | running => simp [hsearch, Exec.bind] at hrun
    | done res =>
      obtain ⟨fs2, found⟩ := res
      simp only [hsearch, Exec.bind] at hrun
      have hok := searchFrom_spec ops env ino fuel hbpg hsearch
      -- a further round sees the bits as they are now
      have further : ∀ {group : Nat} {useRsv : Bool} {windowsz num' : Nat}, fs.BitsGrow fs2 →
          num' ≤ max 1 num →
          retryAlloc ops env ino fuel goal goalGroup rounds fs2 group useRsv windowsz num' =
            .done (fs', result) →
          fs.BitsGrow fs' ∧ ∀ group block n, result = .ok (group, block, n) →
            1 ≤ n ∧ n ≤ max 1 num ∧
              ∀ b ∈ blockRun block n, fs.FreeBlock b ∧ fs'.BlockBit b true := by
        intro group useRsv windowsz num' hgrow hnum hrun
        obtain ⟨hgrow', hblocks⟩ := ih (by rw [hgrow.sbi]; exact hbpg) hrun
        refine ⟨hgrow.trans hgrow', fun group block n hres => ?_⟩
        obtain ⟨h1, h2, h3⟩ := hblocks group block n hres
        exact ⟨h1, by omega, fun b hb => ⟨hgrow.freeBlock (h3 b hb).1, (h3 b hb).2⟩⟩
      cases found with
      | ioError =>
        simp only [Exec.done.injEq, Prod.mk.injEq] at hrun
        obtain ⟨rfl, rfl⟩ := hrun
        exact ⟨SameButRsv.bitsGrow hok, by simp⟩
      | missed num' =>
        dsimp only at hrun
        split at hrun
        · exact further hok.1.bitsGrow (le_trans hok.2 (le_max_right _ _)) hrun
        · simp only [Exec.done.injEq, Prod.mk.injEq] at hrun
          obtain ⟨rfl, rfl⟩ := hrun
          exact ⟨hok.1.bitsGrow, by simp⟩
      | found group first num' =>
        have hclaim : Claimed fs fs2 group first num' num := hok
        dsimp only at hrun
        split at hrun
        · exact further hclaim.bitsGrow hclaim.run.le hrun
        split at hrun
        · simp only [Exec.done.injEq, Prod.mk.injEq] at hrun
          obtain ⟨rfl, rfl⟩ := hrun
          exact ⟨hclaim.bitsGrow, by simp⟩
        · simp only [Exec.done.injEq, Prod.mk.injEq] at hrun
          obtain ⟨rfl, rfl⟩ := hrun
          refine ⟨hclaim.bitsGrow, fun group' block n hres => ?_⟩
          simp only [Except.ok.injEq, Prod.mk.injEq] at hres
          obtain ⟨rfl, rfl, rfl⟩ := hres
          refine ⟨hclaim.run.pos, hclaim.run.le, fun b hb => hclaim.blockBit ?_⟩
          rwa [hclaim.bitsGrow.sbi, Nat.add_comm] at hb

/-- What `kr_new_blocks` hands out had clear bits and has set ones. -/
theorem krNewBlocks_bits {goal count : Nat} {result : Except Errno (Nat × Nat)}
    (hbpg : 0 < fs.sbi.sBlocksPerGroup) (hcount : 1 ≤ count)
    (hrun : krNewBlocks ops env ino fuel fs goal count = .done (fs', result)) :
    fs.BitsGrow fs' ∧ ∀ block n, result = .ok (block, n) →
      1 ≤ n ∧ n ≤ count ∧ ∀ b ∈ blockRun block n, fs.FreeBlock b ∧ fs'.BlockBit b true := by
  have same : ∀ {n : Int} {fs1 : Fs}, (fs.chargeBlocks ino n).BitsGrow fs1 → fs.BitsGrow fs1 :=
    fun {n fs1} h => ⟨(fs.chargeBlocks_ptrSame ino n).trans h.toPtrSame, h.bits⟩
  have after : ∀ {fs1 : Fs} {n : Int}, fs.BitsGrow fs1 → fs.BitsGrow (fs1.chargeBlocks ino n) :=
    fun {fs1 n} h => ⟨h.toPtrSame.trans (fs1.chargeBlocks_ptrSame ino n), h.bits⟩
  unfold krNewBlocks at hrun
  dsimp only at hrun
  split at hrun
  · cases hrun
    exact ⟨⟨Fs.PtrSame.refl _, fun _ _ h => h⟩, by simp⟩
  · split at hrun
    · cases hrun
      exact ⟨after (same ⟨Fs.PtrSame.refl _, fun _ _ h => h⟩), by simp⟩
    · generalize hretry : retryAlloc ops env ino fuel _ _ fuel _ _ _ _ count = run at hrun
      cases run with
      | bug => cases hrun
      | running => cases hrun
      | done res =>
        obtain ⟨fs1, outcome⟩ := res
        have hbpg' : 0 < (fs.chargeBlocks ino count).sbi.sBlocksPerGroup := hbpg
        obtain ⟨hgrow, hblocks⟩ := retryAlloc_bits fuel hbpg' hretry
        cases outcome with
        | error err =>
          obtain ⟨e, performed⟩ := err
          simp only [Exec.bind, Exec.done.injEq, Prod.mk.injEq] at hrun
          obtain ⟨rfl, rfl⟩ := hrun
          refine ⟨?_, by simp⟩
          split
          · exact same hgrow
          · exact after (same hgrow)
        | ok val =>
          obtain ⟨group, retBlock, num⟩ := val
          simp only [Exec.bind, Exec.done.injEq, Prod.mk.injEq] at hrun
          obtain ⟨rfl, rfl⟩ := hrun
          obtain ⟨h1, h2, h3⟩ := hblocks group retBlock num rfl
          refine ⟨?_, fun block n hres => ?_⟩
          · have hcount : fs.BitsGrow { fs1 with
                desc := Function.update fs1.desc group (groupAdjustBlocks (fs1.desc group) (-num))
                sFreeblocksCounter := fs1.sFreeblocksCounter - num } :=
              ⟨⟨(same hgrow).sbi, (same hgrow).ptr, (same hgrow).iData⟩, (same hgrow).bits⟩
            split
            · exact after hcount
            · exact hcount
          · simp only [Except.ok.injEq, Prod.mk.injEq] at hres
            obtain ⟨rfl, rfl⟩ := hres
            refine ⟨h1, by omega, fun b hb => ⟨(h3 b hb).1, ?_⟩⟩
            have hset := (h3 b hb).2
            split
            · exact hset
            · exact hset

end New

end KrFs
