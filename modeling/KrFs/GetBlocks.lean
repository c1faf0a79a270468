import KrFs.NewBlocks
import KrFs.TreeOwner

/-!
# Allocation grows the tree

`kr_get_blocks` takes blocks from the allocator, possibly in several runs, builds
a branch of them outside the tree and stores the missing pointer last. Until
then the new blocks are possessed by the inode without being in its tree; when
the allocator or `sb_getblk` fails they are given back.
-/

namespace KrFs

open SearchTree PtrTree

/-! ## Taking and giving back blocks -/

section Alloc

variable {ops : Rebalance Window} {env : GetBlocksEnv} {ino fuel : Nat} {fs fs' : Fs}
  {reserved : Nat → Prop} {owned : Nat → Multiset Nat} {extra : Nat → Int}

/-- The inode possesses `more` besides what it had. -/
def Fs.OwnedWith (fs : Fs) (reserved : Nat → Prop) (owned : Nat → Multiset Nat)
    (extra : Nat → Int) (ino : Nat) (more : Multiset Nat) : Prop :=
  fs.Owned reserved (Function.update owned ino (owned ino + more)) extra

theorem Fs.ownedWith_zero :
    fs.OwnedWith reserved owned extra ino 0 ↔ fs.Owned reserved owned extra := by
  rw [Fs.OwnedWith, add_zero, Function.update_eq_self]

/-- Giving back calls that name blocks taken before. -/
theorem Fs.OwnedWith.freeCalls {readBitmap : Nat → Bool} (hread : ∀ g, readBitmap g = true)
    {calls : List (Nat × Nat)} (h : fs.OwnedWith reserved owned extra ino (callBlocks calls))
    (hpos : ∀ c ∈ calls, 0 < c.2) :
    fs.BlockFrame (KrFs.freeCalls readBitmap ino fs calls) ∧
      (KrFs.freeCalls readBitmap ino fs calls).Owned reserved owned extra := by
  have hle : callBlocks calls ≤
      Function.update owned ino (owned ino + callBlocks calls) ino := by
    rw [Function.update_self]
    exact Multiset.le_add_left _ _
  obtain ⟨hframe, -, hown⟩ := freeCalls_owned hread calls h hpos hle
  refine ⟨hframe, ?_⟩
  rwa [Function.update_self, Function.update_idem, Multiset.add_sub_cancel_right,
    Function.update_eq_self] at hown

theorem freeEach_eq (fs : Fs) (blocks : List Nat) : freeEach env ino fs blocks =
    freeCalls env.readBitmap ino fs (blocks.map fun b => (b, 1)) := by
  rw [freeEach, freeCalls, List.foldl_map]

theorem callBlocks_single (blocks : List Nat) :
    callBlocks (blocks.map fun b => (b, 1)) = (blocks : Multiset Nat) := by
  induction blocks with
  | nil => rfl
  | cons b blocks ih =>
    rw [List.map_cons, callBlocks_cons, ih, blockRun_one, Multiset.singleton_add]
    rfl

/-- What `kr_alloc_blocks` hands out: the indirect blocks and a run of data
blocks, at most as many as wanted. -/
def BlocksTaken (fs fs' : Fs) (reserved : Nat → Prop) (owned : Nat → Multiset Nat)
    (extra : Nat → Int) (ino indirectBlks blks : Nat) (found : List Nat × Nat × Nat) : Prop :=
  found.1.length = indirectBlks ∧ 1 ≤ found.2.2 ∧ found.2.2 ≤ blks ∧ fs.BlockFrame fs' ∧
    fs'.OwnedWith reserved owned extra ino (found.1 + blockRun found.2.1 found.2.2)

/-- The two ways `kr_alloc_blocks` ends. -/
def AllocBlocksOk (fs fs' : Fs) (reserved : Nat → Prop) (owned : Nat → Multiset Nat)
    (extra : Nat → Int) (ino indirectBlks blks : Nat) :
    Except Errno (List Nat × Nat × Nat) → Prop
  | .error _ => fs.BlockFrame fs' ∧ fs'.Owned reserved owned extra
  | .ok found => BlocksTaken fs fs' reserved owned extra ino indirectBlks blks found

theorem allocBlocksLoop_spec {goal indirectBlks blks : Nat} (hblks : 1 ≤ blks) (rounds : Nat) :
    ∀ {k : Nat} {fs1 : Fs} {target : Nat} {new : List Nat}
      {result : Except (Errno × List Nat) (List Nat × Nat × Nat)},
    fs.BlockFrame fs1 → fs1.OwnedWith reserved owned extra ino new →
    target + new.length = blks + indirectBlks → new.length ≤ indirectBlks →
    allocBlocksLoop ops env ino fuel goal indirectBlks rounds k fs1 target new =
      .done (fs', result) →
    match result with
    | .error (_, new) => fs.BlockFrame fs' ∧ fs'.OwnedWith reserved owned extra ino new
    | .ok found => BlocksTaken fs fs' reserved owned extra ino indirectBlks blks found := by
  induction rounds with
  | zero =>
    intro k fs1 target new result _ _ _ _ hrun
    simp [allocBlocksLoop] at hrun
  | succ rounds ih =>
    intro k fs1 target new result hframe hown htarget hlen hrun
    unfold allocBlocksLoop at hrun
    generalize hcall : krNewBlocks ops (env.alloc k) ino fuel fs1 goal target = call at hrun
    cases call with
    | bug => cases hrun
    | running => cases hrun
    | done res =>
      obtain ⟨fs2, outcome⟩ := res
      have htarget1 : 1 ≤ target := by omega
      obtain ⟨hframe2, hok⟩ := krNewBlocks_owned ops (env.alloc k) ino fuel hown htarget1 hcall
      cases outcome with
      | error e =>
        simp only [Exec.bind, Exec.done.injEq, Prod.mk.injEq] at hrun
        obtain ⟨rfl, rfl⟩ := hrun
        exact ⟨hframe.trans hframe2, hok.1⟩
      | ok val =>
        obtain ⟨current, count⟩ := val
        obtain ⟨hpos, hle, -, hown2⟩ := hok
        set taken := min (indirectBlks - new.length) count with htaken
        have hsplit : (new : Multiset Nat) + blockRun current count =
            ((new ++ List.range' current taken : List Nat) : Multiset Nat) +
              blockRun (current + taken) (count - taken) := by
          have hcount : count = taken + (count - taken) := by omega
          conv_lhs => rw [hcount, blockRun_add]
          rw [← Multiset.coe_add, add_assoc]
          rfl
        rw [Function.update_self, Function.update_idem, add_assoc, hsplit] at hown2
        simp only [Exec.bind, ← htaken] at hrun
        by_cases hdata : 0 < count - taken
        · -- the indirect blocks are complete and the rest is data
          rw [if_pos hdata] at hrun
          simp only [Exec.done.injEq, Prod.mk.injEq] at hrun
          obtain ⟨rfl, rfl⟩ := hrun
          refine ⟨?_, hdata, ?_, hframe.trans hframe2, hown2⟩
          · simp only [List.length_append, List.length_range']
            omega
          · dsimp only
            omega
        · rw [if_neg hdata] at hrun
          have hall : count - taken = 0 := by omega
          rw [hall, blockRun_zero, add_zero] at hown2
          refine ih (hframe.trans hframe2) hown2 ?_ ?_ hrun
          · simp only [List.length_append, List.length_range']
            omega
          · simp only [List.length_append, List.length_range']
            omega

/-- `kr_alloc_blocks` either takes what it needs or leaves everything as it was. -/
theorem krAllocBlocks_spec (hbitmap : ∀ g, env.readBitmap g = true)
    (h : fs.Owned reserved owned extra) {goal indirectBlks blks : Nat} (hblks : 1 ≤ blks)
    {result : Except Errno (List Nat × Nat × Nat)}
    (hrun : krAllocBlocks ops env ino fuel fs goal indirectBlks blks = .done (fs', result)) :
    AllocBlocksOk fs fs' reserved owned extra ino indirectBlks blks result := by
  unfold krAllocBlocks at hrun
  generalize hloop : allocBlocksLoop ops env ino fuel goal indirectBlks (indirectBlks + 1) 0 fs
    (blks + indirectBlks) [] = loop at hrun
  cases loop with
  | bug => cases hrun
  | running => cases hrun
  | done res =>
    obtain ⟨fs1, outcome⟩ := res
    have hstart : fs.OwnedWith reserved owned extra ino ([] : List Nat) := Fs.ownedWith_zero.mpr h
    have hspec := allocBlocksLoop_spec hblks (indirectBlks + 1) (Fs.BlockFrame.refl fs) hstart
      (by simp) (Nat.zero_le _) hloop
    cases outcome with
    | error err =>
      obtain ⟨e, new⟩ := err
      simp only [Exec.bind, Exec.done.injEq, Prod.mk.injEq] at hrun
      obtain ⟨rfl, rfl⟩ := hrun
      obtain ⟨hframe, hown⟩ := hspec
      rw [← callBlocks_single] at hown
      rw [freeEach_eq]
      obtain ⟨hframe', hback⟩ := hown.freeCalls hbitmap (by simp)
      exact ⟨hframe.trans hframe', hback⟩
    | ok found =>
      simp only [Exec.bind, Exec.done.injEq, Prod.mk.injEq] at hrun
      obtain ⟨rfl, rfl⟩ := hrun
      exact hspec

/-! ## The new branch -/

/-- Only the contents of the new indirect blocks are written. -/
theorem fillBranch_frame (data num : Nat) (new : List Nat) : ∀ (n : Nat) (fs : Fs)
    (offsets : List Nat), ∃ ptr, (fillBranch env data num n fs new offsets).1 =
      { fs with ptr := ptr } ∧ ∀ c, c ∉ new → ptr c = fs.ptr c := by
  induction new with
  | nil => exact fun n fs offsets => ⟨fs.ptr, rfl, fun _ _ => rfl⟩
  | cons b rest ih =>
    intro n fs offsets
    cases offsets with
    | nil => exact ⟨fs.ptr, rfl, fun _ _ => rfl⟩
    | cons off offsets =>
      unfold fillBranch
      split
      · exact ⟨fs.ptr, rfl, fun _ _ => rfl⟩
      · dsimp only
        obtain ⟨ptr, heq, hptr⟩ := ih (n + 1) { fs with
          ptr := Function.update fs.ptr b (branchRow off (rest.headD data) data num rest.isEmpty) }
          offsets
        refine ⟨ptr, heq, fun c hc => ?_⟩
        rw [List.mem_cons, not_or] at hc
        rw [hptr c hc.2]
        exact Function.update_of_ne hc.1 _ _

/-- The first round of a filled branch; later rounds write other blocks. -/
theorem fillBranch_cons {data num b n off : Nat} {rest offsets : List Nat} {fs fs' : Fs}
    (hb : b ∉ rest) (h : fillBranch env data num n fs (b :: rest) (off :: offsets) = (fs', true)) :
    fs'.ptr b = branchRow off (rest.headD data) data num rest.isEmpty ∧
      fillBranch env data num (n + 1) { fs with
        ptr := Function.update fs.ptr b
          (branchRow off (rest.headD data) data num rest.isEmpty) } rest offsets = (fs', true) := by
  unfold fillBranch at h
  split at h
  · cases h
  dsimp only at h
  refine ⟨?_, h⟩
  set fs1 : Fs := { fs with
    ptr := Function.update fs.ptr b
      (branchRow off (rest.headD data) data num rest.isEmpty) } with hfs1
  have hframe : ∃ ptr, (fillBranch env data num (n + 1) fs1 rest offsets).1 =
      { fs1 with ptr := ptr } ∧ ∀ c, c ∉ rest → ptr c = fs1.ptr c :=
    fillBranch_frame data num rest (n + 1) fs1 offsets
  obtain ⟨ptr, heq, hptr⟩ := hframe
  rw [h] at heq
  have hp : fs'.ptr = ptr := congrArg Fs.ptr heq
  rw [hp, hptr b hb]
  exact Function.update_self _ _ _

/-- The row of the last new indirect block. -/
theorem branchRow_last {off data num : Nat} (hnum : 1 ≤ num) (o : Nat) :
    branchRow off data data num true o =
      if off ≤ o ∧ o < off + num then data + (o - off) else 0 := by
  by_cases ho : o = off
  · subst ho
    simp [branchRow, Nat.lt_add_right_iff_pos.mpr hnum]
  · have hiff : (off < o ∧ o < off + num) ↔ (off ≤ o ∧ o < off + num) := by omega
    simp [branchRow, ho, hiff]

/-- Its blocks are the new data blocks. -/
theorem forest_branchRow_last {rows : Nat → Nat → Nat} {apb off data num : Nat} (hdata : data ≠ 0)
    (hnum : 1 ≤ num) (hroom : off + num ≤ apb) :
    forest rows apb (fun _ => 0) (branchRow off data data num true) apb = blockRun data num := by
  rw [forest_eq_slice hroom fun i _ hi => by rw [branchRow_last hnum, if_neg hi]]
  refine slice_consecutive hdata (fun _ _ _ => rfl) fun i hi => ?_
  rw [branchRow_last hnum, if_pos ⟨by omega, by omega⟩, Nat.add_sub_cancel_left]

/-- The row of a new indirect block above another one. -/
theorem forest_branchRow_inner {rows : Nat → Nat → Nat} {apb d off key data num : Nat}
    (hoff : off < apb) :
    forest rows apb (fun _ => d) (branchRow off key data num false) apb =
      subtree rows apb d key := by
  have hrow : ∀ i, branchRow off key data num false i = if i = off then key else 0 := by
    intro i
    simp [branchRow]
  rw [forest_eq_slice (show off + 1 ≤ apb from hoff) fun i _ hi => ?_]
  · rw [slice_succ, slice_zero, add_zero, hrow, if_pos rfl]
  · rw [hrow, if_neg (by omega)]

/-- A branch that was filled is the tree of the new blocks. -/
theorem fillBranch_subtree {apb data num : Nat} (hdata : data ≠ 0) (hnum : 1 ≤ num)
    (new : List Nat) : ∀ {n : Nat} {fs fs' : Fs} {offsets : List Nat}, new ≠ [] → new.Nodup →
    0 ∉ new → offsets.length = new.length → (∀ o ∈ offsets, o < apb) →
    offsets.getLastD 0 + num ≤ apb →
    fillBranch env data num n fs new offsets = (fs', true) →
    subtree fs'.ptr apb new.length (new.headD data) = (new : Multiset Nat) + blockRun data num := by
  induction new with
  | nil => exact fun h => absurd rfl h
  | cons b rest ih =>
    intro n fs fs' offsets _ hnd h0 hlen hlt hroom hfill
    obtain ⟨off, offsets, rfl⟩ := List.exists_cons_of_ne_nil
      (l := offsets) (by rintro rfl; simp at hlen)
    rw [List.nodup_cons] at hnd
    rw [List.mem_cons, not_or] at h0
    obtain ⟨hkeep, hstep⟩ := fillBranch_cons hnd.1 hfill
    have hb : b ≠ 0 := Ne.symm h0.1
    rw [List.headD_cons, List.length_cons, subtree_succ hb, hkeep]
    by_cases hrest : rest = []
    · subst hrest
      have hoffs : offsets = [] := by simpa using hlen
      subst hoffs
      have hleaf : forest fs'.ptr apb (fun _ => 0) (branchRow off data data num true) apb =
          blockRun data num := forest_branchRow_last hdata hnum (by simpa using hroom)
      rw [List.length_nil, List.headD_nil, List.isEmpty_nil, hleaf]
      rfl
    · have hempty : rest.isEmpty = false := by simpa using hrest
      have hoffs : offsets ≠ [] := by
        rintro rfl
        simp at hlen
        exact hrest hlen
      have hoff : off < apb := hlt off (by simp)
      have hlast : offsets.getLastD 0 + num ≤ apb := by
        obtain ⟨o, os, rfl⟩ := List.exists_cons_of_ne_nil hoffs
        simpa [List.getLastD] using hroom
      have hbelow := ih hrest hnd.2 h0.2 (by simpa using hlen)
        (fun o ho => hlt o (by simp [ho])) hlast hstep
      rw [hempty, forest_branchRow_inner hoff, hbelow, ← Multiset.cons_add]
      rfl

/-- The two ways `kr_alloc_branch` ends. In both, only blocks that nobody
possessed have new contents. -/
def AllocBranchOk (fs fs' : Fs) (reserved : Nat → Prop) (owned : Nat → Multiset Nat)
    (extra : Nat → Int) (ino apb indirectBlks blks : Nat) :
    Except Errno (List Nat × Nat × Nat) → Prop
  | .error _ => fs'.Owned reserved owned extra
  | .ok (new, data, num) => new.length = indirectBlks ∧ 1 ≤ num ∧ num ≤ blks ∧
      fs'.OwnedWith reserved owned extra ino (new + blockRun data num) ∧
      (new ≠ [] → subtree fs'.ptr apb indirectBlks (new.headD data) =
        (new : Multiset Nat) + blockRun data num) ∧
      ∀ c, c ∉ new → fs'.ptr c = fs.ptr c

/-- Blocks taken by an inode belonged to nobody. -/
theorem Fs.OwnedWith.fresh {more : Multiset Nat}
    (h : fs.OwnedWith reserved owned extra ino more) : more.Nodup ∧
      ∀ c ∈ more, ¬ reserved c ∧ ∀ i, c ∉ owned i := by
  have hnd := h.nodup ino
  rw [Function.update_self] at hnd
  obtain ⟨-, hmore, hdisj⟩ := Multiset.nodup_add.mp hnd
  refine ⟨hmore, fun c hc => ?_⟩
  have hmem : c ∈ Function.update owned ino (owned ino + more) ino := by
    rw [Function.update_self]
    exact Multiset.mem_add.mpr (Or.inr hc)
  refine ⟨(h.in_zone ino c hmem).2.2, fun i hi => ?_⟩
  by_cases heq : i = ino
  · subst heq
    exact Multiset.disjoint_left.mp hdisj hi hc
  · have hd := h.disjoint i ino heq
    rw [Function.update_of_ne heq] at hd
    exact Multiset.disjoint_left.mp hd hi hmem

theorem krAllocBranch_spec (hbitmap : ∀ g, env.readBitmap g = true)
    (h : fs.Owned reserved owned extra) (h0 : reserved 0) {apb goal indirectBlks blks : Nat}
    (hblks : 1 ≤ blks) {offsets : List Nat} (hlen : offsets.length = indirectBlks)
    (hlt : ∀ o ∈ offsets, o < apb) (hroom : offsets ≠ [] → offsets.getLastD 0 + blks ≤ apb)
    {result : Except Errno (List Nat × Nat × Nat)}
    (hrun : krAllocBranch ops env ino fuel fs goal indirectBlks blks offsets =
      .done (fs', result)) :
    (∃ touched : Multiset Nat, fs.TreeFrame fs' ino touched ∧ ∀ c ∈ touched, ∀ i, c ∉ owned i) ∧
      (∃ n, fs'.inode ino = { fs.inode ino with iBlocks := n }) ∧
      AllocBranchOk fs fs' reserved owned extra ino apb indirectBlks blks result := by
  unfold krAllocBranch at hrun
  generalize halloc : krAllocBlocks ops env ino fuel fs goal indirectBlks blks = call at hrun
  cases call with
  | bug => cases hrun
  | running => cases hrun
  | done res =>
    obtain ⟨fs1, outcome⟩ := res
    have hspec := krAllocBlocks_spec hbitmap h hblks halloc
    cases outcome with
    | error e =>
      simp only [Exec.bind, Exec.done.injEq, Prod.mk.injEq] at hrun
      obtain ⟨rfl, rfl⟩ := hrun
      obtain ⟨hframe, hown⟩ := hspec
      exact ⟨⟨0, hframe.treeFrame ino 0, by simp⟩, hframe.inode ino, hown⟩
    | ok found =>
      obtain ⟨new, data, num⟩ := found
      obtain ⟨hnew, hnum, hnumle, hframe, hown⟩ := hspec
      dsimp only at hnew hnum hnumle hown
      obtain ⟨hnd, hfresh⟩ := hown.fresh
      have hsame : ∃ ptr, (fillBranch env data num 1 fs1 new offsets).1 = { fs1 with ptr := ptr } ∧
          ∀ c, c ∉ new → ptr c = fs1.ptr c := fillBranch_frame data num new 1 fs1 offsets
      generalize hfill : fillBranch env data num 1 fs1 new offsets = filled at hrun hsame
      obtain ⟨fs2, ok⟩ := filled
      obtain ⟨ptr, hfs2, hptr⟩ := hsame
      dsimp only at hfs2
      have hown2 : fs2.OwnedWith reserved owned extra ino (new + blockRun data num) := by
        rw [hfs2]
        exact hown.of_same rfl rfl rfl rfl fun _ => rfl
      have hptr2 : ∀ c, c ∉ new → fs2.ptr c = fs.ptr c := by
        intro c hc
        rw [hfs2]
        exact (hptr c hc).trans (congrFun hframe.ptr c)
      -- the new blocks are the only ones written
      have hframe2 : fs.TreeFrame fs2 ino new := by
        have h1 := hframe.treeFrame ino (new : Multiset Nat)
        rw [hfs2]
        exact ⟨h1.sbi, h1.inodeBitmap, h1.sFreeinodesCounter, h1.sDirsCounter, h1.sDebts,
          fun c hc => (hptr c (by simpa using hc)).trans (congrFun hframe.ptr c), h1.inode, h1.desc⟩
      have hout : ∀ c ∈ (new : Multiset Nat), ∀ i, c ∉ owned i := fun c hc =>
        (hfresh c (Multiset.mem_add.mpr (Or.inl hc))).2
      obtain ⟨n, hn⟩ := hframe.inode ino
      have hinode2 : fs2.inode ino = { fs.inode ino with iBlocks := n } := by
        rw [hfs2]
        exact hn
      cases ok with
      | true =>
        simp only [Exec.bind, hfill, if_true, Exec.done.injEq, Prod.mk.injEq] at hrun
        obtain ⟨rfl, rfl⟩ := hrun
        refine ⟨⟨new, hframe2, hout⟩, ⟨n, hinode2⟩, hnew, hnum, hnumle, hown2, fun hne => ?_, hptr2⟩
        have hoffs : offsets ≠ [] := by
          rintro rfl
          exact hne (List.length_eq_zero_iff.mp (hnew.trans hlen.symm))
        have hdata : data ≠ 0 := by
          rintro rfl
          exact (hfresh 0 (Multiset.mem_add.mpr (Or.inr (by simp; omega)))).1 h0
        have hnew0 : 0 ∉ new := fun hmem =>
          (hfresh 0 (Multiset.mem_add.mpr (Or.inl (by simpa using hmem)))).1 h0
        rw [← hnew]
        exact fillBranch_subtree hdata hnum new hne
          (by simpa using (Multiset.nodup_add.mp hnd).1) hnew0 (hlen.trans hnew.symm) hlt
          (by have := hroom hoffs; omega) hfill
      | false =>
        simp only [Exec.bind, hfill, Bool.false_eq_true, if_false, Exec.done.injEq,
          Prod.mk.injEq] at hrun
        obtain ⟨rfl, rfl⟩ := hrun
        have hcalls : callBlocks ((new.map fun b => (b, 1)) ++ [(data, num)]) =
            (new : Multiset Nat) + blockRun data num := by
          rw [callBlocks_append, callBlocks_single, callBlocks_cons, callBlocks_nil, add_zero]
        rw [← hcalls] at hown2
        have hstate : krFreeBlocks env.readBitmap (freeEach env ino fs2 new) ino data num =
            freeCalls env.readBitmap ino fs2 ((new.map fun b => (b, 1)) ++ [(data, num)]) := by
          rw [freeEach_eq, freeCalls, freeCalls, List.foldl_append]
          rfl
        obtain ⟨hframe3, hback⟩ := hown2.freeCalls hbitmap (by
          intro c hc
          rcases List.mem_append.mp hc with hc | hc
          · obtain ⟨b, -, rfl⟩ := List.mem_map.mp hc
            exact Nat.one_pos
          · rw [List.mem_singleton.mp hc]
            exact hnum)
        rw [hstate]
        obtain ⟨n', hn'⟩ := hframe3.inode ino
        exact ⟨⟨new, hframe2.trans (hframe3.treeFrame ino _), hout⟩,
          ⟨n', by rw [hn', hinode2]⟩, hback⟩

end Alloc

/-! ## Storing the missing pointer -/

theorem Mem.row_setRow_self (m : Mem) {base : Base} (hbase : base ≠ .top) (row : Nat → Nat) :
    (m.setRow base row).row base = row := by
  cases base with
  | inode => rfl
  | block b => simp [Mem.setRow, Mem.row]
  | top => exact absurd rfl hbase

theorem Mem.row_setRow_ne (m : Mem) {base b : Base} (hb : b ≠ base) (row : Nat → Nat) :
    (m.setRow base row).row b = m.row b := by
  cases base with
  | inode => cases b <;> simp_all [Mem.setRow, Mem.row]
  | block c => cases b <;> simp_all [Mem.setRow, Mem.row]
  | top => rfl

/-- Empty slots of an array are filled with a branch of fresh blocks. -/
theorem graft_exchanged {apb n off k : Nat} {level row' : Nat → Nat} {base : Base}
    {added : Multiset Nat} {m m1 : Mem} (hbase : base ≠ .top) (hroom : off + k ≤ n)
    (hzero : ∀ i, off ≤ i → i < off + k → m.row base i = 0)
    (hkeep : ∀ i, ¬ (off ≤ i ∧ i < off + k) → row' i = m.row base i)
    (hiData : m1.iData = m.iData) (hnr : m1.nr = m.nr)
    (hptr : ∀ c, c ∉ added → m1.ptr c = m.ptr c)
    (hself : Apart base (m.forest apb level base n))
    (hfresh : ∀ c ∈ added, c ∉ m.forest apb level base n)
    (hslice : PtrTree.slice (m1.setRow base row').ptr apb level row' off k = added) :
    Exchanged apb level base n 0 added m (m1.setRow base row') := by
  have hother : ∀ c, base ≠ .block c → c ∉ added → (m1.setRow base row').ptr c = m.ptr c := by
    intro c hb hc
    exact (m1.row_setRow_ne (b := .block c) hb.symm row').trans (hptr c hc)
  refine ⟨?_, fun c hb _ hc => hother c hb hc, fun hb => ?_, ?_⟩
  · rw [add_zero]
    unfold Mem.forest
    rw [m1.row_setRow_self hbase, forest_graft hroom hzero (fun i _ => hkeep i) (fun c hc i _ => ?_),
      hslice]
    rw [hother c (fun hb => hself c hb hc) fun hc' => hfresh c hc' hc]
  · exact (m1.row_setRow_ne (b := .inode) hb.symm row').trans hiData
  · cases base with
    | inode => exact hnr
    | block b => exact hnr
    | top => exact absurd rfl hbase

/-- The slots `kr_splice_branch` fills: one with a new indirect block, or all
those of the new data blocks. -/
def spliceCount (new : List Nat) (num : Nat) : Nat := if new.isEmpty then num else 1

theorem spliceRow_keep {row : Nat → Nat} {off key num i : Nat} {new : List Nat} (hnum : 1 ≤ num)
    (hi : ¬ (off ≤ i ∧ i < off + spliceCount new num)) :
    spliceRow row off key num new.isEmpty i = row i := by
  unfold spliceCount at hi
  cases hnew : new.isEmpty with
  | true =>
    simp only [hnew, if_true] at hi
    have hne : i ≠ off := by omega
    have hout : ¬ (off < i ∧ i < off + num) := by omega
    simp only [spliceRow, hne, if_false, Bool.true_and, Bool.and_eq_true, decide_eq_true_eq,
      if_neg hout]
  | false =>
    simp only [hnew, Bool.false_eq_true, if_false] at hi
    have hne : i ≠ off := by omega
    simp [spliceRow, hne]

/-- What the filled slots lead to is the new branch. -/
theorem spliceRow_slice {m1 : Mem} {base : Base} {apb off data num depth : Nat}
    {level row : Nat → Nat} {new : List Nat} (hdata : data ≠ 0)
    (hdepth : new.length = depth)
    (hlevel : ∀ i, off ≤ i → i < off + spliceCount new num → level i = depth)
    (hout : Apart base ((new : Multiset Nat) + blockRun data num))
    (hbranch : new ≠ [] → subtree m1.ptr apb depth (new.headD data) =
      (new : Multiset Nat) + blockRun data num) :
    PtrTree.slice (m1.setRow base (spliceRow row off (new.headD data) num new.isEmpty)).ptr apb
        level (spliceRow row off (new.headD data) num new.isEmpty) off (spliceCount new num) =
      (new : Multiset Nat) + blockRun data num := by
  by_cases hnew : new = []
  · subst hnew
    have hzero : depth = 0 := hdepth.symm
    have hdirect : ∀ i < num, spliceRow row off data num true (off + i) = data + i := by
      intro i hi
      by_cases hi0 : i = 0
      · simp [spliceRow, hi0]
      · simp [spliceRow, hi0, hi, Nat.pos_of_ne_zero hi0]
    have hrun : PtrTree.slice (m1.setRow base (spliceRow row off data num true)).ptr apb level
        (spliceRow row off data num true) off num = blockRun data num :=
      slice_consecutive hdata (fun i h1 h2 => (hlevel i h1 h2).trans hzero) hdirect
    exact hrun.trans (zero_add _).symm
  · have hempty : new.isEmpty = false := by simpa using hnew
    have hcount : spliceCount new num = 1 := by simp [spliceCount, hempty]
    have hrow : spliceRow row off (new.headD data) num false off = new.headD data := by
      simp [spliceRow]
    rw [hcount, slice_succ, slice_zero, add_zero, hlevel off (le_refl _) (by omega), hempty, hrow]
    rw [← hbranch hnew]
    refine subtree_congr fun c hc i _ => ?_
    rw [hbranch hnew] at hc
    have hne : Base.block c ≠ base := fun heq => hout c heq.symm hc
    exact congrFun (m1.row_setRow_ne hne _) i

/-! ## `kr_get_blocks` -/

/-- Slots counted by `kr_blks_to_allocate` are empty and end with the array. -/
theorem absentBlocks_spec (m : Mem) (ind : Indirect) (blks : Nat) (blocksToBoundary : Int)
    (n : Nat) : ∀ {count : Nat}, 1 ≤ count →
    (count : Int) ≤ blocksToBoundary + 1 →
    (∀ i, ind.off ≤ i → i < ind.off + count → m.row ind.base i = 0) →
    1 ≤ absentBlocks m ind blks blocksToBoundary n count ∧
      (absentBlocks m ind blks blocksToBoundary n count : Int) ≤ blocksToBoundary + 1 ∧
      ∀ i, ind.off ≤ i → i < ind.off + absentBlocks m ind blks blocksToBoundary n count →
        m.row ind.base i = 0 := by
  induction n with
  | zero => exact fun h1 h2 h3 => ⟨h1, h2, h3⟩
  | succ n ih =>
    intro count h1 h2 h3
    unfold absentBlocks
    split
    · rename_i hmore
      simp only [Bool.and_eq_true, decide_eq_true_eq, beq_iff_eq] at hmore
      refine ih (by omega) (by push_cast; omega) fun i hlow hhigh => ?_
      by_cases hi : i = ind.off + count
      · rw [hi]
        exact hmore.2
      · exact h3 i hlow (by omega)
    · exact ⟨h1, h2, h3⟩

theorem krBlksToAllocate_spec (m : Mem) (ind : Indirect) (k : Nat) {blks : Nat}
    {blocksToBoundary : Int} (hblks : 1 ≤ blks) (hpos : 0 ≤ blocksToBoundary)
    (hzero : k = 0 → m.row ind.base ind.off = 0) :
    1 ≤ krBlksToAllocate m ind k blks blocksToBoundary ∧
      (krBlksToAllocate m ind k blks blocksToBoundary : Int) ≤ blocksToBoundary + 1 ∧
      (k = 0 → ∀ i, ind.off ≤ i → i < ind.off + krBlksToAllocate m ind k blks blocksToBoundary →
        m.row ind.base i = 0) := by
  unfold krBlksToAllocate
  by_cases hk : 0 < k
  · rw [if_pos hk]
    refine ⟨?_, ?_, fun hk0 => absurd hk (by omega)⟩
    · split <;> omega
    · split <;> omega
  · rw [if_neg hk]
    have hone : ∀ i, ind.off ≤ i → i < ind.off + 1 → m.row ind.base i = 0 := by
      intro i h1 h2
      rw [show i = ind.off by omega]
      exact hzero (by omega)
    obtain ⟨h1, h2, h3⟩ := absentBlocks_spec m ind blks blocksToBoundary blks
      (le_refl 1) (by omega) hone
    exact ⟨h1, h2, fun _ => h3⟩

/-- Splicing a branch where a quiet look-up ended adds its blocks to the file. -/
theorem splice_exchanged {apb data num : Nat} {offsets new : List Nat} {m m1 : Mem}
    (hpath : IsPath apb offsets) (hzero : m.row (lastEntry (m.chain offsets)).base
      (lastEntry (m.chain offsets)).off = 0)
    (hnew : new.length = offsets.length - (m.chain offsets).length) (hdata : data ≠ 0)
    (hnum : 1 ≤ num) (hroom : offsets.getLastD 0 + num ≤ lastWidth apb offsets)
    (hempty : new = [] → ∀ i, (lastEntry (m.chain offsets)).off ≤ i →
      i < (lastEntry (m.chain offsets)).off + num →
      m.row (lastEntry (m.chain offsets)).base i = 0)
    (hbranch : new ≠ [] → subtree m1.ptr apb new.length (new.headD data) =
      (new : Multiset Nat) + blockRun data num)
    (hnd : (m.fileTree apb).Nodup)
    (hfresh : ∀ c ∈ (new : Multiset Nat) + blockRun data num, c ∉ m.fileTree apb)
    (hiData : m1.iData = m.iData) (hnr : m1.nr = m.nr)
    (hptr : ∀ c, c ∉ (new : Multiset Nat) + blockRun data num → m1.ptr c = m.ptr c) :
    Exchanged apb (fun slot => slot - 11) .inode 15 0 ((new : Multiset Nat) + blockRun data num) m
      (m1.setRow (lastEntry (m.chain offsets)).base
        (spliceRow (m1.row (lastEntry (m.chain offsets)).base) (lastEntry (m.chain offsets)).off
          (new.headD data) num new.isEmpty)) := by
  obtain ⟨hlen1, hlen2, hoff, hplace⟩ := Mem.chain_place (m := m) hpath
  set chain := m.chain offsets with hchain
  set ind := lastEntry chain with hind
  obtain ⟨o, os, rfl⟩ := List.exists_cons_of_ne_nil hpath.ne_nil
  have ho15 : o < 15 := hpath.head_lt
  have hlen : (o :: os).length = o - 11 + 1 := hpath.length_eq
  -- the filled slots were empty
  have hslots : ∀ i, ind.off ≤ i → i < ind.off + spliceCount new num → m.row ind.base i = 0 := by
    intro i h1 h2
    by_cases hn : new = []
    · refine hempty hn i h1 ?_
      simpa [spliceCount, hn] using h2
    · have hone : spliceCount new num = 1 := by simp [spliceCount, hn]
      rwa [show i = ind.off by omega]
  -- with no new indirect block the path ends in this array
  have hdirect : new = [] → chain.length = (o :: os).length ∧
      ind.off + num ≤ lastWidth apb (o :: os) := by
    rintro rfl
    have heq : chain.length = (o :: os).length := by
      simp only [List.length_nil] at hnew
      omega
    refine ⟨heq, ?_⟩
    have hlast : (o :: os).getD ((o :: os).length - 1) 0 = (o :: os).getLastD 0 := by
      rw [List.getLastD_eq_getLast?, List.getLast?_eq_getElem?, List.getD_eq_getElem?_getD]
    rw [hoff, heq, hlast]
    exact hroom
  obtain ⟨hone, hbase⟩ | ⟨x, hlen3, hlive, hbase, hwalk⟩ := hplace
  · have hoffo : ind.off = o := by rw [hoff, hone]; rfl
    have hrow1 : m1.row .inode = m.row .inode := hiData
    rw [hbase] at hslots ⊢
    rw [hrow1]
    have hspan : ind.off + spliceCount new num ≤ 15 ∧
        ∀ i, ind.off ≤ i → i < ind.off + spliceCount new num → i - 11 = new.length := by
      by_cases hn : new = []
      · obtain ⟨heq, hle⟩ := hdirect hn
        have hwidth : lastWidth apb (o :: os) = 12 := by
          rw [lastWidth, if_pos (by omega)]
          rfl
        have hcount : spliceCount new num = num := by simp [spliceCount, hn]
        rw [hcount, hn, List.length_nil]
        exact ⟨by omega, fun i h1 h2 => by omega⟩
      · have hcount : spliceCount new num = 1 := by simp [spliceCount, hn]
        rw [hcount]
        exact ⟨by omega, fun i h1 h2 => by omega⟩
    refine graft_exchanged (by simp) hspan.1 hslots (fun i hi => spliceRow_keep hnum hi) hiData hnr
      hptr (by simp [Apart]) hfresh ?_
    exact spliceRow_slice hdata rfl hspan.2 (by simp [Apart]) hbranch
  · have hlevel : o - 11 = (o :: os).length - 2 + 1 := by omega
    have hle : m.whole apb ((o :: os).length - 2) (m.iData o) ≤ m.fileTree apb :=
      Mem.whole_le_forest .inode ho15 hlevel hlive
    have hnd' := Multiset.nodup_of_le hle hnd
    have hlex := le_trans hwalk.whole_le hle
    obtain ⟨hx, -⟩ := Multiset.nodup_cons.mp (Multiset.nodup_of_le hlex hnd)
    have hdepth : (o :: os).length - chain.length = new.length := hnew.symm
    rw [hdepth] at hwalk hx hlex
    have hoffx : ind.off < apb := by
      have hlast := hwalk.lastEntry_eq.2
      have htail : lastEntry chain.tail = ind := by
        obtain ⟨p, rest, hcons⟩ := List.exists_cons_of_ne_nil (List.ne_nil_of_length_pos hlen1)
        rw [hcons, List.tail_cons] at hwalk ⊢
        rw [hind, hcons, lastEntry_cons p hwalk.ne_nil]
      rwa [htail] at hlast
    rw [hbase] at hslots ⊢
    have hspan : ind.off + spliceCount new num ≤ apb := by
      by_cases hn : new = []
      · obtain ⟨-, hle'⟩ := hdirect hn
        have hwidth : lastWidth apb (o :: os) = apb := by rw [lastWidth, if_neg (by omega)]
        have hcount : spliceCount new num = num := by simp [spliceCount, hn]
        omega
      · have hcount : spliceCount new num = 1 := by simp [spliceCount, hn]
        omega
    have hself : ∀ s : Multiset Nat, x ∉ s → Apart (.block x) s := by
      intro s hs c hc
      rwa [← Base.block.inj hc]
    have hxfresh : x ∉ (new : Multiset Nat) + blockRun data num := fun hmem =>
      hfresh x hmem (Multiset.mem_of_le hlex (Multiset.mem_cons_self _ _))
    have hat : Exchanged apb (fun _ => new.length) (.block x) apb 0
        ((new : Multiset Nat) + blockRun data num) m (m1.setRow (.block x)
          (spliceRow (m.row (.block x)) ind.off (new.headD data) num new.isEmpty)) :=
      graft_exchanged (by simp) hspan hslots (fun i hi => spliceRow_keep hnum hi) hiData hnr hptr
        (hself _ hx)
        (fun c hc hm => hfresh c hc (Multiset.mem_of_le hlex (Multiset.mem_cons_of_mem hm)))
        (spliceRow_slice hdata rfl (fun _ _ _ => rfl) (hself _ hxfresh) hbranch)
    have hrow1 : m1.row (.block x) = m.row (.block x) := hptr x hxfresh
    rw [hrow1]
    have hup := hwalk.lift hat hnd' fun c hc hm => hfresh c hc (Multiset.mem_of_le hle hm)
    exact hup.parent ho15 rfl hlive hlevel (by simp) hnd (by simp [Apart])
      fun c hc => ⟨hfresh c hc, by simp⟩

/-- The pointers after `kr_splice_branch`. -/
theorem krSpliceBranch_mem (env : GetBlocksEnv) (fs : Fs) (ino iblock : Nat) (ind : Indirect)
    (new : List Nat) (data blks : Nat) :
    (krSpliceBranch env ino fs iblock ind new data blks).mem ino =
      (fs.mem ino).setRow ind.base
        (spliceRow ((fs.mem ino).row ind.base) ind.off (new.headD data) blks new.isEmpty) := by
  cases hbase : ind.base with
  | inode => simp [krSpliceBranch, Fs.setMem, Fs.mem, Mem.setRow, hbase]
  | block b => simp [krSpliceBranch, Fs.setMem, Fs.mem, Mem.setRow, hbase]
  | top => simp [krSpliceBranch, Fs.setMem, Fs.mem, Mem.setRow, hbase]

section Locked

variable {ops : Rebalance Window} {env : GetBlocksEnv} {ino fuel : Nat} {fs fs' : Fs}
  {reserved : Nat → Prop} {owned : Nat → Multiset Nat} {extra : Nat → Int}

/-- An operation on an inode leaves it with the blocks of its tree, and touches
no block of another inode. -/
structure Fs.TreeStep (fs fs' : Fs) (reserved : Nat → Prop) (owned : Nat → Multiset Nat)
    (extra : Nat → Int) (ino : Nat) : Prop where
  frame : ∃ touched, fs.TreeFrame fs' ino touched ∧ ∀ i, i ≠ ino → Disjoint (owned i) touched
  owned : fs'.Owned reserved (Function.update owned ino (fs'.fileTree ino)) extra

theorem Fs.TreeStep.refl (h : fs.Owned reserved owned extra) (hown : owned ino = fs.fileTree ino) :
    fs.TreeStep fs reserved owned extra ino := by
  refine ⟨⟨0, (Fs.BlockFrame.refl fs).treeFrame ino 0, fun i _ => ?_⟩, ?_⟩
  · exact Multiset.disjoint_left.mpr fun _ => Multiset.notMem_zero _
  · rwa [← hown, Function.update_eq_self]

theorem initBlockAllocInfo_eq (reservation : Bool) (fs : Fs) : ∃ info rsv,
    initBlockAllocInfo env ino reservation fs = { fs with
      inode := Function.update fs.inode ino { fs.inode ino with iBlockAllocInfo := info }
      rsv := rsv } := by
  unfold initBlockAllocInfo
  split
  · exact ⟨_, _, rfl⟩
  · refine ⟨(fs.inode ino).iBlockAllocInfo, fs.rsv, ?_⟩
    rw [Function.update_eq_self]

/-- The allocating part of `kr_get_blocks` after a quiet look-up. -/
theorem allocLocked_step (hbitmap : ∀ g, env.readBitmap g = true)
    (h : fs.Owned reserved owned extra) (hown : owned ino = fs.fileTree ino) (h0 : reserved 0)
    {reservation : Bool} {iblock maxblocks : Nat} (hmax : 1 ≤ maxblocks) {offsets : List Nat}
    (hpath : IsPath fs.addrPerBlock offsets) {blocksToBoundary : Int}
    (hboundary : blocksToBoundary =
      (lastWidth fs.addrPerBlock offsets : Int) - 1 - (offsets.getLastD 0 : Nat))
    (hhole : chainFull ((fs.mem ino).chain offsets) = false) {mapped : Mapped}
    (hrun : allocLocked ops env ino fuel reservation fs iblock maxblocks offsets blocksToBoundary
      ((fs.mem ino).chain offsets) = .done (fs', mapped)) :
    fs.TreeStep fs' reserved owned extra ino := by
  have hlast := hpath.last_lt
  obtain ⟨hlen1, hlen2, -, -⟩ := Mem.chain_place (m := fs.mem ino) hpath
  set chain := (fs.mem ino).chain offsets with hchain
  have hne : chain ≠ [] := List.ne_nil_of_length_pos hlen1
  have hzero : (fs.mem ino).row (lastEntry chain).base (lastEntry chain).off = 0 := by
    rw [← verifyChain_lastEntry (verifyChain_chain (fs.mem ino) offsets) hne]
    simpa [chainFull] using hhole
  -- the lazily created reservation record changes nothing of interest
  have hinit : ∃ info rsv, initBlockAllocInfo env ino reservation fs = { fs with
      inode := Function.update fs.inode ino { fs.inode ino with iBlockAllocInfo := info }
      rsv := rsv } := initBlockAllocInfo_eq reservation fs
  unfold allocLocked at hrun
  generalize initBlockAllocInfo env ino reservation fs = fs0 at hrun hinit
  obtain ⟨info, rsv, hfs0⟩ := hinit
  have hself0 : fs0.inode ino = { fs.inode ino with iBlockAllocInfo := info } := by
    rw [hfs0]
    exact Function.update_self _ _ _
  have hmem0 : fs0.mem ino = fs.mem ino := by
    rw [Fs.mem, hself0, hfs0]
    rfl
  have hown0 : fs0.Owned reserved owned extra := by
    refine h.of_same (by rw [hfs0]) (by rw [hfs0]) (by rw [hfs0]) (by rw [hfs0]) fun i => ?_
    by_cases hi : i = ino
    · rw [hi, hself0]
    · rw [hfs0]
      exact congrArg Inode.iBlocks (Function.update_of_ne hi _ _)
  have hframe0 : ∀ touched, fs.TreeFrame fs0 ino touched := by
    intro touched
    rw [hfs0]
    refine ⟨rfl, rfl, rfl, rfl, rfl, fun _ _ => rfl, fun i hi => ?_, fun g => ⟨_, rfl⟩⟩
    exact ⟨(fs.inode i).iBlocks, Function.update_of_ne hi _ _⟩
  dsimp only at hrun
  rw [hmem0] at hrun
  set count := krBlksToAllocate (fs.mem ino) (lastEntry chain) (offsets.length - chain.length)
    maxblocks blocksToBoundary with hcount
  obtain ⟨hcount1, hcount2, hempty⟩ := krBlksToAllocate_spec (fs.mem ino) (lastEntry chain)
    (offsets.length - chain.length) hmax (show 0 ≤ blocksToBoundary by omega) fun _ => hzero
  rw [← hcount] at hcount1 hcount2 hempty
  generalize hcall : krAllocBranch ops env ino fuel fs0 _ (offsets.length - chain.length) count
    (offsets.drop chain.length) = call at hrun
  cases call with
  | bug => cases hrun
  | running => cases hrun
  | done res =>
    obtain ⟨fs1, outcome⟩ := res
    have hdropLt : ∀ o ∈ offsets.drop chain.length, o < fs.addrPerBlock := by
      intro o ho
      obtain ⟨c, hc⟩ : ∃ c, chain.length = c + 1 := ⟨chain.length - 1, by omega⟩
      rw [hc, Nat.add_comm, ← List.drop_drop, List.drop_one] at ho
      exact hpath.tail_lt o (List.mem_of_mem_drop ho)
    have hdropRoom : offsets.drop chain.length ≠ [] →
        (offsets.drop chain.length).getLastD 0 + count ≤ fs.addrPerBlock := by
      intro hdrop
      have hlt : chain.length < offsets.length := by simpa using hdrop
      have hend : (offsets.drop chain.length).getLastD 0 = offsets.getLastD 0 := by
        rw [List.getLastD_eq_getLast?, List.getLastD_eq_getLast?, List.getLast?_drop,
          if_neg (by omega)]
      rw [lastWidth, if_neg (by omega)] at hboundary
      rw [hend]
      omega
    obtain ⟨⟨touched, hframe1, htouched⟩, ⟨n, hn⟩, hok⟩ := krAllocBranch_spec hbitmap hown0 h0
      hcount1 (by simp) hdropLt hdropRoom hcall
    have hsbi1 : fs1.sbi = fs.sbi := hframe1.sbi.trans (hframe0 touched).sbi
    have hapb1 : fs1.addrPerBlock = fs.addrPerBlock := by simp only [Fs.addrPerBlock, hsbi1]
    have hiData1 : (fs1.mem ino).iData = (fs.mem ino).iData := by
      simp only [Fs.mem, hn, hself0]
    have hclean : ∀ i, Disjoint (owned i) touched := fun i =>
      Multiset.disjoint_left.mpr fun hc hct => htouched _ hct i hc
    cases outcome with
    | error e =>
      simp only [Exec.bind, Exec.done.injEq, Prod.mk.injEq] at hrun
      obtain ⟨rfl, -⟩ := hrun
      refine ⟨⟨touched, (hframe0 touched).trans hframe1, fun i _ => hclean i⟩, ?_⟩
      have hsame : fs1.fileTree ino = owned ino := by
        rw [hown]
        unfold Fs.fileTree Mem.fileTree Mem.forest
        rw [hapb1]
        refine forest_congr (fun slot _ => congrFun hiData1 slot) fun c hc slot _ => ?_
        have hct : c ∉ touched := fun hct => htouched c hct ino (by rw [hown]; exact hc)
        exact congrFun ((hframe1.ptr c hct).trans ((hframe0 touched).ptr c hct)) slot
      rw [hsame, Function.update_eq_self]
      exact hok
    | ok found =>
      obtain ⟨new, data, num⟩ := found
      obtain ⟨hnew, hnum, hnumle, hwith, hbranch, hptr⟩ := hok
      simp only [Exec.bind, Exec.done.injEq, Prod.mk.injEq] at hrun
      obtain ⟨rfl, -⟩ := hrun
      set added : Multiset Nat := (new : Multiset Nat) + blockRun data num with hadded
      obtain ⟨-, hfresh⟩ := hwith.fresh
      have hdata : data ≠ 0 := by
        rintro rfl
        exact (hfresh 0 (Multiset.mem_add.mpr (Or.inr (by simp; omega)))).1 h0
      have hptr1 : ∀ c, c ∉ added → (fs1.mem ino).ptr c = (fs.mem ino).ptr c := by
        intro c hc
        have hcn : c ∉ new := fun hmem => hc (Multiset.mem_add.mpr (Or.inl (by simpa using hmem)))
        refine (hptr c hcn).trans ?_
        rw [hfs0]
        rfl
      have hnd : ((fs.mem ino).fileTree fs.addrPerBlock).Nodup := by
        have hnd := h.nodup ino
        rwa [hown] at hnd
      have hout : ∀ c ∈ added, c ∉ (fs.mem ino).fileTree fs.addrPerBlock := by
        intro c hc hm
        refine (hfresh c hc).2 ino ?_
        rw [hown]
        exact hm
      have hroom : offsets.getLastD 0 + num ≤ lastWidth fs.addrPerBlock offsets := by omega
      have hslots : new = [] → ∀ i, (lastEntry chain).off ≤ i → i < (lastEntry chain).off + num →
          (fs.mem ino).row (lastEntry chain).base i = 0 := by
        rintro rfl i h1 h2
        exact hempty hnew.symm i h1 (by omega)
      have hbranch1 : new ≠ [] → subtree (fs1.mem ino).ptr fs.addrPerBlock new.length
          (new.headD data) = (new : Multiset Nat) + blockRun data num := by
        rw [hnew]
        exact hbranch
      have hex := splice_exchanged hpath hzero hnew hdata hnum hroom hslots hbranch1 hnd hout hiData1
        rfl hptr1
      rw [← hchain, ← krSpliceBranch_mem env fs1 ino iblock (lastEntry chain) new data num] at hex
      set fs2 := krSpliceBranch env ino fs1 iblock (lastEntry chain) new data num with hfs2
      have hsbi2 : fs2.sbi = fs1.sbi := rfl
      have htree : fs2.fileTree ino = owned ino + added := by
        have htree := hex.tree
        rw [add_zero] at htree
        rw [hown, Fs.fileTree, Fs.addrPerBlock, hsbi2, hsbi1]
        exact htree
      have hinode2 : ∀ i, (fs2.inode i).iBlocks = (fs1.inode i).iBlocks := by
        intro i
        by_cases hi : i = ino
        · subst hi
          simp [hfs2, krSpliceBranch, Fs.setMem]
        · simp [hfs2, krSpliceBranch, Fs.setMem, hi]
      have hframe2 : fs.TreeFrame fs2 ino (fs.fileTree ino + added) := by
        have h01 := (hframe0 touched).trans hframe1
        refine ⟨h01.sbi, h01.inodeBitmap, h01.sFreeinodesCounter, h01.sDirsCounter, h01.sDebts,
          fun c hc => ?_, fun i hi => ?_, h01.desc⟩
        · rw [Multiset.mem_add, not_or] at hc
          exact hex.ptr c (by simp) hc.1 hc.2
        · obtain ⟨n', hn'⟩ := h01.inode i hi
          refine ⟨n', ?_⟩
          rw [← hn']
          simp [hfs2, krSpliceBranch, Fs.setMem, hi]
      refine ⟨⟨_, hframe2, fun i hi => ?_⟩, ?_⟩
      · refine Multiset.disjoint_left.mpr fun hc hct => ?_
        rcases Multiset.mem_add.mp hct with hct | hct
        · rw [← hown] at hct
          exact Multiset.disjoint_left.mp (h.disjoint i ino hi) hc hct
        · exact (hfresh _ hct).2 i hc
      · rw [htree]
        exact hwith.of_same rfl rfl rfl rfl hinode2

/-- No other thread changes the tree, and reads succeed. What the allocator and
`sb_getblk` meet is open. -/
structure GetBlocksEnv.Quiet (env : GetBlocksEnv) (m : Mem) : Prop where
  look : ∀ t, env.look t = m
  bread : ∀ i, env.bread i = true
  breadAgain : ∀ i, env.breadAgain i = true
  readBitmap : ∀ g, env.readBitmap g = true

/-- `kr_get_blocks` leaves the inode with the blocks of its tree, whatever fails
in the allocator. -/
theorem krGetBlocks_step (quiet : env.Quiet (fs.mem ino)) (geo : AddrGeometry fs.sbi)
    (h : fs.Owned reserved owned extra) (hown : owned ino = fs.fileTree ino) (h0 : reserved 0)
    {reservation : Bool} {iblock maxblocks : Nat} {mapped : Mapped}
    (hrun : krGetBlocks ops env ino fuel reservation fs iblock maxblocks true =
      .done (fs', mapped)) :
    fs.TreeStep fs' reserved owned extra ino := by
  have hsame : fs' = fs → fs.TreeStep fs' reserved owned extra ino := by
    rintro rfl
    exact Fs.TreeStep.refl h hown
  unfold krGetBlocks at hrun
  split at hrun
  · cases hrun
  · rename_i hmax
    dsimp only at hrun
    split at hrun
    · cases hrun
      exact hsame rfl
    · rename_i hne
      have hapb : fs.addrPerBlock = 2 ^ fs.sbi.sAddrPerBlockBits := geo.apb_eq
      have hspec : IsPath fs.addrPerBlock (fs.path iblock).1 ∧ (fs.path iblock).2 =
          (lastWidth fs.addrPerBlock (fs.path iblock).1 : Int) - 1 -
            ((fs.path iblock).1.getLastD 0 : Nat) := by
        rw [Fs.path, hapb] at hne ⊢
        exact krBlockToPath_isPath (by have := geo.bits; omega) iblock hne
      generalize fs.path iblock = path at hrun hne hspec
      obtain ⟨offsets, blocksToBoundary⟩ := path
      obtain ⟨hpath, hboundary⟩ := hspec
      dsimp only at hrun hne hpath hboundary
      have hlook : env.look = fun _ => fs.mem ino := funext quiet.look
      have hfirst : krGetBranch env.look env.bread offsets = ⟨(fs.mem ino).chain offsets,
          chainFull ((fs.mem ino).chain offsets), none⟩ := by
        rw [hlook]
        exact krGetBranch_quiet (fs.mem ino) quiet.bread hne
      have hagain : krGetBranch (fun _ => fs.mem ino) env.breadAgain offsets =
          ⟨(fs.mem ino).chain offsets, chainFull ((fs.mem ino).chain offsets), none⟩ :=
        krGetBranch_quiet (fs.mem ino) quiet.breadAgain hne
      rw [hfirst] at hrun
      dsimp only at hrun
      split at hrun
      · cases hrun
        exact hsame rfl
      · cases hfull : chainFull ((fs.mem ino).chain offsets) with
        | true =>
          -- only a second look-up, which finds the block as well
          rw [hfull] at hrun hagain
          simp only [Bool.not_true, Bool.false_or, if_true, reduceCtorEq, relook,
            Option.some.injEq, decide_true, Bool.true_or, hagain, if_false,
            decide_false, Bool.false_eq_true] at hrun
          cases hrun
          exact hsame rfl
        | false =>
          rw [hfull] at hrun
          simp only [Bool.not_true, Bool.false_eq_true, if_false, reduceCtorEq,
            relook, verifyChain_chain, decide_false, Bool.or_self] at hrun
          exact allocLocked_step quiet.readBitmap h hown h0 (Nat.one_le_iff_ne_zero.mpr hmax)
            hpath hboundary hfull hrun

end Locked

end KrFs
