import KrFs.FileTree

/-!
# Truncation

`__kr_truncate_blocks` and the functions below it. They read and clear block
pointers and call `kr_free_blocks`, which in turn looks at no pointer; so the
pointer part is a function of the pointer memory that collects the calls in
order, and the calls are carried out on the file system afterwards. What is cut
off the tree is exactly what is handed to `kr_free_blocks`.
-/

namespace KrFs

open SearchTree PtrTree

/-- `all_zeroes` of the slots before `n`. -/
def allZeroes (row : Nat → Nat) (n : Nat) : Bool := (List.range n).all fun i => row i == 0

/-- The loop of `kr_free_data` over `n` slots from `p` on. The run collected so
far is `[block, block + count)`; the comparison is `block_to_free == nr - count`. -/
def freeDataLoop (base : Base) : Nat → Mem → Nat → Nat → Nat → Mem × List (Nat × Nat)
  | 0, m, _, block, count => (m, if 0 < count then [(block, count)] else [])
  | n + 1, m, p, block, count =>
    let nr := m.row base p
    if nr = 0 then freeDataLoop base n m (p + 1) block count
    else
      let m := m.write base p 0
      if count = 0 then freeDataLoop base n m (p + 1) nr 1
      else if block + count = nr then freeDataLoop base n m (p + 1) block (count + 1)
      else
        let (m, calls) := freeDataLoop base n m (p + 1) nr 1
        (m, (block, count) :: calls)

/-- `kr_free_data` of the slots `[p, q)`. -/
def krFreeData (base : Base) (m : Mem) (p q : Nat) : Mem × List (Nat × Nat) :=
  freeDataLoop base (q - p) m p 0 0

/-- The loop of `kr_free_branches`; `inner` frees the array of a block. -/
def freeBranchesLoop (inner : Mem → Nat → Mem × List (Nat × Nat)) (bread : Nat → Bool)
    (base : Base) : Nat → Mem → Nat → Mem × List (Nat × Nat)
  | 0, m, _ => (m, [])
  | n + 1, m, p =>
    let nr := m.row base p
    if nr = 0 then freeBranchesLoop inner bread base n m (p + 1)
    else
      let m := m.write base p 0
      if !bread nr then freeBranchesLoop inner bread base n m (p + 1)
      else
        let (m, below) := inner m nr
        let (m, calls) := freeBranchesLoop inner bread base n m (p + 1)
        (m, below ++ (nr, 1) :: calls)

section Pointers

variable (readPath bread : Nat → Bool) (apb : Nat)

/-- `kr_free_branches` of the slots `[p, q)`. -/
def krFreeBranches : Nat → Base → Mem → Nat → Nat → Mem × List (Nat × Nat)
  | 0, base, m, p, q => krFreeData base m p q
  | depth + 1, base, m, p, q =>
    freeBranchesLoop (fun m nr => krFreeBranches depth (.block nr) m 0 apb) bread base (q - p) m p

/-- `kr_free_branches(inode, &nr, &nr+1, depth)` of the detached pointer `nr`. -/
def freeTop (depth : Nat) (m : Mem) (nr : Nat) : Mem × List (Nat × Nat) :=
  if nr = 0 then (m, []) else krFreeBranches bread apb depth .top { m with nr := nr } 0 1

/-- The loop of `kr_find_shared` that drops trailing zero offsets. -/
def sharedDepth (offsets : List Nat) : Nat → Nat
  | 0 => 0
  | 1 => 1
  | k + 2 => if offsets.getD (k + 1) 0 = 0 then sharedDepth offsets (k + 1) else k + 2

/-- The loop that walks up over arrays with nothing before the path. -/
def sharedIndex (m : Mem) (chain : List Indirect) : Nat → Nat
  | 0 => 0
  | j + 1 =>
    let p := chain.getD (j + 1) ⟨.inode, 0, 0⟩
    if allZeroes (m.row p.base) p.off then sharedIndex m chain j else j + 1

/-- `kr_find_shared`: the memory, `*top`, and the part of the chain that stays,
whose last entry is the returned `partial`. -/
def krFindShared (m : Mem) (offsets : List Nat) : Mem × Nat × List Indirect :=
  let k := sharedDepth offsets offsets.length
  let chain := (krGetBranch (fun _ => m) readPath (offsets.take k)).chain
  let last := lastEntry chain
  if last.key = 0 && m.row last.base last.off != 0 then (m, 0, chain)
  else
    let j := sharedIndex m chain (chain.length - 1)
    let p := chain.getD j ⟨.inode, 0, 0⟩
    if j = k - 1 && 0 < j then (m, 0, chain.take j ++ [{ p with off := p.off - 1 }])
    else (m.write p.base p.off 0, m.row p.base p.off, chain.take (j + 1))

/-- The loop of `__kr_truncate_blocks` that clears the ends of the indirect
blocks on the shared branch, from the last entry up; the entry in the inode has
no end of its own. `depth` is the depth of the trees in the first array. -/
def clearEnds (depth : Nat) (m : Mem) : List Indirect → Mem × List (Nat × Nat)
  | [] => (m, [])
  | p :: rest =>
    let (m, below) := clearEnds (depth - 1) m rest
    let (m, calls) := krFreeBranches bread apb depth p.base m (p.off + 1) apb
    (m, below ++ calls)

/-- One case of the `switch` at `do_indirects`. -/
def killWhole (slot : Nat) (m : Mem) : Mem × List (Nat × Nat) :=
  let nr := m.iData slot
  if nr = 0 then (m, [])
  else freeTop bread apb (slot - 11) (m.write .inode slot 0) nr

/-- The `switch`, whose cases fall through. -/
def killWholes (first : Nat) : List Nat → Mem → Mem × List (Nat × Nat)
  | [], m => (m, [])
  | slot :: slots, m =>
    let (m, calls) := if first < slot then killWhole bread apb slot m else (m, [])
    let (m, rest) := killWholes first slots m
    (m, calls ++ rest)

/-- The part of `__kr_truncate_blocks` under the mutex, for a path that exists. -/
def truncatePtrs (offsets : List Nat) (m : Mem) : Mem × List (Nat × Nat) :=
  let (m, calls) :=
    if offsets.length = 1 then krFreeData .inode m (offsets.headD 0) KR_NDIR_BLOCKS
    else
      let (m, nr, chain) := krFindShared readPath m offsets
      let (m, top) := freeTop bread apb (offsets.length - chain.length) m nr
      let (m, ends) := clearEnds bread apb (offsets.length - 2) m chain.tail
      (m, top ++ ends)
  let (m, rest) := killWholes bread apb (offsets.headD 0)
    [KR_IND_BLOCK, KR_DIND_BLOCK, KR_TIND_BLOCK] m
  (m, calls ++ rest)

end Pointers

/-- Carry out a list of calls of `kr_free_blocks`. -/
def freeCalls (readBitmap : Nat → Bool) (ino : Nat) (fs : Fs) (calls : List (Nat × Nat)) : Fs :=
  calls.foldl (fun fs c => krFreeBlocks readBitmap fs ino c.1 c.2) fs

/-- `kr_discard_reservation` of an inode. -/
def Fs.discardReservation (ops : Rebalance Window) (fs : Fs) (ino : Nat) : Fs :=
  if (fs.inode ino).iBlockAllocInfo.isSome then
    { fs with rsv := krDiscardReservation ops fs.rsv ino }
  else fs

/-- Only windows change. -/
theorem Fs.discardReservation_rsv (ops : Rebalance Window) (fs : Fs) (ino : Nat) :
    ∃ rsv, fs.discardReservation ops ino = { fs with rsv := rsv } := by
  unfold Fs.discardReservation
  split
  · exact ⟨_, rfl⟩
  · exact ⟨fs.rsv, rfl⟩

/-- Which reads of a truncation succeed: those of the path by level, those of
the blocks to be freed, and those of the bitmaps. -/
structure TruncEnv where
  readPath : Nat → Bool
  bread : Nat → Bool
  readBitmap : Nat → Bool

/-- `__kr_truncate_blocks`. -/
def truncateBlocks (ops : Rebalance Window) (env : TruncEnv) (fs : Fs) (ino : Nat)
    (offset : Int) : Fs :=
  let iblock := (offset + fs.sbi.sBlocksize - 1) >>> fs.sbi.sBlocksizeBits
  let offsets := (fs.path iblock).1
  if offsets = [] then fs
  else
    let (m, calls) := truncatePtrs env.readPath env.bread fs.addrPerBlock offsets (fs.mem ino)
    (freeCalls env.readBitmap ino (fs.setMem ino m) calls).discardReservation ops ino

/-! ## What is freed -/

/-- The blocks named by a list of calls of `kr_free_blocks`. -/
def callBlocks (calls : List (Nat × Nat)) : Multiset Nat :=
  (calls.map fun c => blockRun c.1 c.2).sum

@[simp] theorem callBlocks_nil : callBlocks [] = 0 := rfl

@[simp] theorem callBlocks_cons (c : Nat × Nat) (calls : List (Nat × Nat)) :
    callBlocks (c :: calls) = blockRun c.1 c.2 + callBlocks calls := by
  simp [callBlocks]

@[simp] theorem callBlocks_append (c1 c2 : List (Nat × Nat)) :
    callBlocks (c1 ++ c2) = callBlocks c1 + callBlocks c2 := by
  simp [callBlocks]

/-- The blocks of the trees of depth `d` below a run of slots. -/
def Mem.slice (m : Mem) (apb d : Nat) (base : Base) (p k : Nat) : Multiset Nat :=
  PtrTree.slice m.ptr apb (fun _ => d) (m.row base) p k

/-- Memory `m'` is `m` with the slots `[p, p + k)` of an array cleared, and with
anything done to the arrays of the blocks in `gone`. -/
structure Cleared (gone : Multiset Nat) (base : Base) (p k : Nat) (m m' : Mem) : Prop where
  zero : ∀ i, p ≤ i → i < p + k → m'.row base i = 0
  keep : ∀ i, ¬ (p ≤ i ∧ i < p + k) → m'.row base i = m.row base i
  others : ∀ b, b ≠ base → (∀ c, b = .block c → c ∉ gone) → m'.row b = m.row b

theorem Mem.row_write_self (m : Mem) (base : Base) (i j : Nat) (hi : base = .top → i = 0) :
    (m.write base i 0).row base j = if j = i then 0 else m.row base j := by
  cases base with
  | inode =>
    by_cases hj : j = i
    · simp [Mem.write, Mem.row, hj]
    · simp [Mem.write, Mem.row, hj]
  | block b =>
    by_cases hj : j = i
    · simp [Mem.write, Mem.row, hj]
    · simp [Mem.write, Mem.row, hj]
  | top =>
    rw [hi rfl]
    by_cases hj : j = 0
    · simp [Mem.write, Mem.row, hj]
    · simp [Mem.row, hj]

theorem Mem.row_write_ne (m : Mem) {base b : Base} (hb : b ≠ base) (i key : Nat) :
    (m.write base i key).row b = m.row b := by
  cases base with
  | inode => cases b <;> simp_all [Mem.write, Mem.row]
  | block c => cases b <;> simp_all [Mem.write, Mem.row]
  | top => cases b <;> simp_all [Mem.write, Mem.row]

/-- What freeing the trees below a run of slots has done. -/
structure Freed (apb d : Nat) (base : Base) (p k : Nat) (m : Mem)
    (res : Mem × List (Nat × Nat)) : Prop where
  cleared : Cleared (m.slice apb d base p k) base p k m res.1
  blocks : callBlocks res.2 = m.slice apb d base p k
  pos : ∀ c ∈ res.2, 0 < c.2

theorem Cleared.of_null {gone : Multiset Nat} {base : Base} {p n : Nat} {m m' : Mem}
    (h : Cleared gone base (p + 1) n m m') (hp : m.row base p = 0) :
    Cleared gone base p (n + 1) m m' := by
  refine ⟨fun i h1 h2 => ?_, fun i hi => h.keep i (by omega), h.others⟩
  by_cases hip : i = p
  · rw [hip, h.keep p (by omega), hp]
  · exact h.zero i (by omega) (by omega)

theorem Cleared.of_write {gone : Multiset Nat} {base : Base} {p n : Nat} {m m' : Mem}
    (htop : base = .top → p = 0) (h : Cleared gone base (p + 1) n (m.write base p 0) m') :
    Cleared gone base p (n + 1) m m' := by
  refine ⟨fun i h1 h2 => ?_, fun i hi => ?_, fun b hb hgone => ?_⟩
  · by_cases hip : i = p
    · rw [hip, h.keep p (by omega), m.row_write_self base p p htop, if_pos rfl]
    · exact h.zero i (by omega) (by omega)
  · rw [h.keep i (by omega), m.row_write_self base p i htop, if_neg (by omega)]
  · rw [h.others b hb hgone, m.row_write_ne hb]

theorem Cleared.mono {gone gone' : Multiset Nat} {base : Base} {p n : Nat} {m m' : Mem}
    (h : Cleared gone base p n m m') (hle : ∀ c ∈ gone, c ∈ gone') :
    Cleared gone' base p n m m' :=
  ⟨h.zero, h.keep, fun b hb hgone => h.others b hb fun c hc hm => hgone c hc (hle c hm)⟩

/-- A slice of data pointers is read off the array alone. -/
theorem Mem.slice_data_congr {apb p n : Nat} {base : Base} {m m' : Mem}
    (h : ∀ i, p ≤ i → m'.row base i = m.row base i) :
    m'.slice apb 0 base p n = m.slice apb 0 base p n := by
  unfold Mem.slice PtrTree.slice
  refine Finset.sum_congr rfl fun i _ => ?_
  rw [h (p + i) (by omega)]
  rfl

theorem freeDataLoop_spec (base : Base) (apb n : Nat) : ∀ (m : Mem) (p block count : Nat),
    (base = .top → p + n ≤ 1) →
    Cleared 0 base p n m (freeDataLoop base n m p block count).1 ∧
      callBlocks (freeDataLoop base n m p block count).2 =
        blockRun block count + m.slice apb 0 base p n ∧
      ∀ c ∈ (freeDataLoop base n m p block count).2, 0 < c.2 := by
  induction n with
  | zero =>
    intro m p block count _
    refine ⟨⟨by omega, fun _ _ => rfl, fun _ _ _ => rfl⟩, ?_, ?_⟩
    · by_cases hc : 0 < count
      · simp [freeDataLoop, hc, Mem.slice, slice_zero]
      · have : count = 0 := by omega
        simp [freeDataLoop, this, Mem.slice, slice_zero]
    · intro c hc
      by_cases hpos : 0 < count
      · simp only [freeDataLoop, hpos, if_true, List.mem_singleton] at hc
        rw [hc]
        exact hpos
      · simp [freeDataLoop, hpos] at hc
  | succ n ih =>
    intro m p block count htop
    have hsucc : m.slice apb 0 base p (n + 1) =
        subtree m.ptr apb 0 (m.row base p) + m.slice apb 0 base (p + 1) n := slice_succ _ _ _ _
    by_cases hnr : m.row base p = 0
    · obtain ⟨hc, hb, hpos⟩ := ih m (p + 1) block count fun ht => by have := htop ht; omega
      simp only [freeDataLoop, hnr, if_true]
      refine ⟨hc.of_null hnr, ?_, hpos⟩
      rw [hb, hsucc, hnr, subtree_null, zero_add]
    · -- the slot is cleared and its block joins the run or starts a new one
      have hp0 : base = .top → p = 0 := fun ht => by have := htop ht; omega
      have hrest := fun block' count' => ih (m.write base p 0) (p + 1) block' count'
        fun ht => by have := htop ht; omega
      have hslice : (m.write base p 0).slice apb 0 base (p + 1) n =
          m.slice apb 0 base (p + 1) n := by
        refine Mem.slice_data_congr fun i hi => ?_
        rw [m.row_write_self base p i hp0, if_neg (by omega)]
      rw [hsucc, subtree_leaf hnr, ← blockRun_one]
      by_cases hcount : count = 0
      · obtain ⟨hc, hb, hpos⟩ := hrest (m.row base p) 1
        simp only [freeDataLoop, hnr, hcount, if_true, if_false]
        refine ⟨hc.of_write hp0, ?_, hpos⟩
        rw [hb, hslice, blockRun_zero, zero_add]
      by_cases hnext : block + count = m.row base p
      · obtain ⟨hc, hb, hpos⟩ := hrest block (count + 1)
        simp only [freeDataLoop, hnr, hcount, hnext, if_true, if_false]
        refine ⟨hc.of_write hp0, ?_, hpos⟩
        rw [hb, hslice, blockRun_add, hnext, add_assoc]
      · obtain ⟨hc, hb, hpos⟩ := hrest (m.row base p) 1
        simp only [freeDataLoop, hnr, hcount, hnext, if_false]
        refine ⟨hc.of_write hp0, ?_, ?_⟩
        · rw [callBlocks_cons, hb, hslice]
        · intro c hcm
          rcases List.mem_cons.mp hcm with rfl | hcm
          · exact Nat.pos_of_ne_zero hcount
          · exact hpos c hcm

/-- `kr_free_data` hands every block of the slots to `kr_free_blocks` once. -/
theorem krFreeData_freed (base : Base) (apb : Nat) (m : Mem) {p k : Nat}
    (htop : base = .top → p + k ≤ 1) :
    Freed apb 0 base p k m (krFreeData base m p (p + k)) := by
  obtain ⟨hc, hb, hpos⟩ := freeDataLoop_spec base apb k m p 0 0 htop
  unfold krFreeData
  rw [Nat.add_sub_cancel_left]
  refine ⟨hc.mono (by simp), ?_, hpos⟩
  rw [hb, blockRun_zero, zero_add]

/-- A slice depends on its array and on the arrays of its own blocks. -/
theorem Mem.slice_congr {apb d p n : Nat} {base : Base} {m m' : Mem}
    (hrow : ∀ i, p ≤ i → m'.row base i = m.row base i)
    (hptr : ∀ c ∈ m.slice apb d base p n, m'.ptr c = m.ptr c) :
    m'.slice apb d base p n = m.slice apb d base p n := by
  unfold Mem.slice PtrTree.slice
  refine Finset.sum_congr rfl fun i hi => ?_
  rw [hrow (p + i) (by omega)]
  refine subtree_congr fun c hc j _ => ?_
  rw [hptr c (mem_slice.mpr ⟨p + i, by omega, by have := Finset.mem_range.mp hi; omega, hc⟩)]

theorem Mem.subtree_succ {apb d nr : Nat} (m : Mem) (hnr : nr ≠ 0) :
    subtree m.ptr apb (d + 1) nr = nr ::ₘ m.slice apb d (.block nr) 0 apb := by
  rw [PtrTree.subtree_succ hnr]
  congr 1
  unfold PtrTree.forest Mem.slice PtrTree.slice
  simp [Mem.row]

theorem freeBranchesLoop_spec {inner : Mem → Nat → Mem × List (Nat × Nat)} {bread : Nat → Bool}
    (hread : ∀ b, bread b = true) {apb d : Nat} (base : Base)
    (hinner : ∀ m nr, (nr ::ₘ m.slice apb d (.block nr) 0 apb).Nodup →
      Freed apb d (.block nr) 0 apb m (inner m nr)) (n : Nat) : ∀ (m : Mem) (p : Nat),
    (base = .top → p + n ≤ 1) → (m.slice apb (d + 1) base p n).Nodup →
    Apart base (m.slice apb (d + 1) base p n) →
    Freed apb (d + 1) base p n m (freeBranchesLoop inner bread base n m p) := by
  induction n with
  | zero =>
    intro m p _ _ _
    exact ⟨⟨by omega, fun _ _ => rfl, fun _ _ _ => rfl⟩, rfl, by simp [freeBranchesLoop]⟩
  | succ n ih =>
    intro m p htop hnd hapart
    have hsucc : m.slice apb (d + 1) base p (n + 1) = subtree m.ptr apb (d + 1) (m.row base p) +
        m.slice apb (d + 1) base (p + 1) n := slice_succ _ _ _ _
    rw [hsucc] at hnd hapart
    have htop' : base = .top → p + 1 + n ≤ 1 := fun ht => by have := htop ht; omega
    by_cases hnr : m.row base p = 0
    · rw [hnr, subtree_null, zero_add] at hnd hapart
      obtain ⟨hc, hb, hpos⟩ := ih m (p + 1) htop' hnd hapart
      have heq : freeBranchesLoop inner bread base (n + 1) m p =
          freeBranchesLoop inner bread base n m (p + 1) := by simp [freeBranchesLoop, hnr]
      rw [heq]
      refine ⟨?_, ?_, hpos⟩
      · rw [hsucc, hnr, subtree_null, zero_add]
        exact hc.of_null hnr
      · rw [hb, hsucc, hnr, subtree_null, zero_add]
    · have hp0 : base = .top → p = 0 := fun ht => by have := htop ht; omega
      set nr := m.row base p with hnrdef
      rw [m.subtree_succ hnr] at hnd hapart hsucc
      obtain ⟨hndT, hndR, hdisj⟩ := Multiset.nodup_add.mp hnd
      set m1 := m.write base p 0 with hm1
      -- the arrays of the blocks to be freed are other arrays than this one
      have hother : ∀ c, c ∈ nr ::ₘ m.slice apb d (.block nr) 0 apb +
          m.slice apb (d + 1) base (p + 1) n → m1.ptr c = m.ptr c := by
        intro c hc
        refine m.row_write_ne (b := .block c) ?_ p 0
        exact fun heq => hapart c heq.symm hc
      have hbelow : m1.slice apb d (.block nr) 0 apb = m.slice apb d (.block nr) 0 apb := by
        refine Mem.slice_congr (fun i _ => ?_) fun c hc => hother c (by simp [hc])
        exact congrFun (hother nr (by simp)) i
      obtain ⟨hc1, hb1, hpos1⟩ := hinner m1 nr (by rwa [hbelow])
      rw [hbelow] at hc1 hb1
      have hbase : base ≠ .block nr := fun heq => hapart nr heq (by simp)
      have hbase2 : (inner m1 nr).1.row base = m1.row base := by
        refine hc1.others base hbase fun c hc hm => hapart c hc ?_
        simp [hm]
      have hrest : (inner m1 nr).1.slice apb (d + 1) base (p + 1) n =
          m.slice apb (d + 1) base (p + 1) n := by
        refine Mem.slice_congr (fun i hi => ?_) fun c hc => ?_
        · rw [hbase2, m.row_write_self base p i hp0, if_neg (by omega)]
        · have hnot : c ∉ nr ::ₘ m.slice apb d (.block nr) 0 apb := fun hm =>
            Multiset.disjoint_left.mp hdisj hm hc
          have h1 := hc1.others (.block c) (fun heq => hnot (by simp [Base.block.inj heq]))
            (fun c' hc' hm => hnot (by simp [Base.block.inj hc', hm]))
          exact h1.trans (hother c (by simp [hc]))
      obtain ⟨hc2, hb2, hpos2⟩ := ih (inner m1 nr).1 (p + 1) htop' (by rwa [hrest])
        (by rw [hrest]; exact fun b hb hm => hapart b hb (by simp [hm]))
      rw [hrest] at hc2 hb2
      have heq : freeBranchesLoop inner bread base (n + 1) m p =
          ((freeBranchesLoop inner bread base n (inner m1 nr).1 (p + 1)).1,
            (inner m1 nr).2 ++ (nr, 1) ::
              (freeBranchesLoop inner bread base n (inner m1 nr).1 (p + 1)).2) := by
        simp [freeBranchesLoop, ← hnrdef, hnr, hread, ← hm1]
      rw [heq]
      refine ⟨Cleared.of_write hp0 ⟨hc2.zero, fun i hi => ?_, fun b hb hgone => ?_⟩, ?_, ?_⟩
      · rw [hc2.keep i hi, hbase2]
      · rw [hsucc] at hgone
        rw [hc2.others b hb fun c hc hm => hgone c hc (by simp [hm])]
        refine hc1.others b (fun heq => hgone nr heq (by simp)) fun c hc hm => ?_
        exact hgone c hc (by simp [hm])
      · rw [callBlocks_append, callBlocks_cons, hb1, hb2, hsucc, blockRun_one,
          ← Multiset.singleton_add]
        simp only [add_assoc, add_left_comm]
      · intro c hc
        rcases List.mem_append.mp hc with hc | hc
        · exact hpos1 c hc
        · rcases List.mem_cons.mp hc with rfl | hc
          · exact Nat.one_pos
          · exact hpos2 c hc

/-- `kr_free_branches` hands every block of the trees below the slots to
`kr_free_blocks` once, when the trees have no block twice. -/
theorem krFreeBranches_freed {bread : Nat → Bool} (hread : ∀ b, bread b = true) (apb d : Nat) :
    ∀ {base : Base} {m : Mem} {p k : Nat}, (base = .top → p + k ≤ 1) →
    (m.slice apb d base p k).Nodup → Apart base (m.slice apb d base p k) →
    Freed apb d base p k m (krFreeBranches bread apb d base m p (p + k)) := by
  induction d with
  | zero =>
    intro base m p k htop _ _
    exact krFreeData_freed base apb m htop
  | succ d ih =>
    intro base m p k htop hnd hapart
    unfold krFreeBranches
    rw [Nat.add_sub_cancel_left]
    refine freeBranchesLoop_spec hread base ?_ k m p htop hnd hapart
    intro m' nr hnd'
    obtain ⟨hnr, hnd''⟩ := Multiset.nodup_cons.mp hnd'
    have hblock : Base.block nr = .top → 0 + apb ≤ 1 := fun ht => by cases ht
    have hout : Apart (.block nr) (m'.slice apb d (.block nr) 0 apb) :=
      fun b hb hm => hnr (Base.block.inj hb ▸ hm)
    have hres := ih hblock hnd'' hout
    rwa [Nat.zero_add] at hres

end KrFs
