import KrFs.TruncateTree

/-!
# Files possess their trees

The blocks an inode possesses are those of its tree: how truncation keeps that.
What it hands to `kr_free_blocks` leaves the tree and the possession alike.
-/

namespace KrFs

open SearchTree PtrTree

/-- The block tree of an inode in the state of the file system. -/
def Fs.fileTree (fs : Fs) (ino : Nat) : Multiset Nat := (fs.mem ino).fileTree fs.addrPerBlock

/-- What an operation on the tree of one inode leaves alone; `touched` are the
blocks whose contents it may have changed. -/
structure Fs.TreeFrame (fs fs' : Fs) (ino : Nat) (touched : Multiset Nat) : Prop where
  sbi : fs'.sbi = fs.sbi
  inodeBitmap : fs'.inodeBitmap = fs.inodeBitmap
  sFreeinodesCounter : fs'.sFreeinodesCounter = fs.sFreeinodesCounter
  sDirsCounter : fs'.sDirsCounter = fs.sDirsCounter
  sDebts : fs'.sDebts = fs.sDebts
  ptr : ∀ c, c ∉ touched → fs'.ptr c = fs.ptr c
  inode : ∀ i, i ≠ ino → ∃ n, fs'.inode i = { fs.inode i with iBlocks := n }
  desc : ∀ g, ∃ n, fs'.desc g = { fs.desc g with bgFreeBlocksCount := n }

/-- The tree of another inode is as it was when no block of it was touched. -/
theorem Fs.TreeFrame.fileTree_eq {fs fs' : Fs} {ino i : Nat} {touched : Multiset Nat}
    (h : fs.TreeFrame fs' ino touched) (hi : i ≠ ino) (hapart : Disjoint (fs.fileTree i) touched) :
    fs'.fileTree i = fs.fileTree i := by
  obtain ⟨n, hn⟩ := h.inode i hi
  have hapb : fs'.addrPerBlock = fs.addrPerBlock := by simp [Fs.addrPerBlock, h.sbi]
  unfold Fs.fileTree Mem.fileTree Mem.forest
  rw [hapb]
  refine forest_congr (fun slot _ => ?_) fun c hc slot _ => ?_
  · simp [Mem.row, Fs.mem, hn]
  · exact congrFun (h.ptr c (Multiset.disjoint_left.mp hapart hc)) slot

theorem Fs.BlockFrame.treeFrame {fs fs' : Fs} (h : fs.BlockFrame fs') (ino : Nat)
    (touched : Multiset Nat) : fs.TreeFrame fs' ino touched :=
  ⟨h.sbi, h.inodeBitmap, h.sFreeinodesCounter, h.sDirsCounter, h.sDebts,
    fun c _ => congrFun h.ptr c, fun i _ => h.inode i, h.desc⟩

theorem Fs.TreeFrame.trans {a b c : Fs} {ino : Nat} {touched : Multiset Nat}
    (h1 : a.TreeFrame b ino touched) (h2 : b.TreeFrame c ino touched) :
    a.TreeFrame c ino touched := by
  refine ⟨h2.sbi.trans h1.sbi, h2.inodeBitmap.trans h1.inodeBitmap,
    h2.sFreeinodesCounter.trans h1.sFreeinodesCounter, h2.sDirsCounter.trans h1.sDirsCounter,
    h2.sDebts.trans h1.sDebts, fun b hb => (h2.ptr b hb).trans (h1.ptr b hb), fun i hi => ?_,
    fun g => ?_⟩
  · obtain ⟨n, hn⟩ := h1.inode i hi
    obtain ⟨n', hn'⟩ := h2.inode i hi
    exact ⟨n', by rw [hn', hn]⟩
  · obtain ⟨n, hn⟩ := h1.desc g
    obtain ⟨n', hn'⟩ := h2.desc g
    exact ⟨n', by rw [hn', hn]⟩

section Truncate

variable {fs : Fs} {reserved : Nat → Prop} {owned : Nat → Multiset Nat} {extra : Nat → Int}
  {ino : Nat}

/-- A list of calls of `kr_free_blocks` takes their blocks out of the possession
of the inode. -/
theorem freeCalls_owned {readBitmap : Nat → Bool} (hread : ∀ g, readBitmap g = true)
    (calls : List (Nat × Nat)) : ∀ {fs : Fs} {owned : Nat → Multiset Nat},
    fs.Owned reserved owned extra → (∀ c ∈ calls, 0 < c.2) → callBlocks calls ≤ owned ino →
    fs.BlockFrame (freeCalls readBitmap ino fs calls) ∧
      (freeCalls readBitmap ino fs calls).rsv = fs.rsv ∧
      (freeCalls readBitmap ino fs calls).Owned reserved
        (Function.update owned ino (owned ino - callBlocks calls)) extra := by
  induction calls with
  | nil =>
    intro fs owned h _ _
    refine ⟨Fs.BlockFrame.refl fs, rfl, ?_⟩
    simpa [freeCalls] using h
  | cons c calls ih =>
    intro fs owned h hpos hle
    rw [callBlocks_cons] at hle
    obtain ⟨hframe, hrsv, hone⟩ := krFreeBlocks_owned readBitmap hread h (hpos c (by simp))
      (le_trans (Multiset.le_add_right _ _) hle)
    have hrest : callBlocks calls ≤
        Function.update owned ino (owned ino - blockRun c.1 c.2) ino := by
      rw [Function.update_self]
      exact le_tsub_of_add_le_left hle
    obtain ⟨hframe', hrsv', hall⟩ := ih hone (fun c hc => hpos c (by simp [hc])) hrest
    refine ⟨hframe.trans hframe', hrsv'.trans hrsv, ?_⟩
    rw [Function.update_self, Function.update_idem, ← tsub_add_eq_tsub_tsub,
      ← callBlocks_cons] at hall
    exact hall

/-- Truncation leaves the inode with the blocks of the tree that is left. -/
theorem truncateBlocks_owned (ops : Rebalance Window) {env : TruncEnv}
    (hpath : ∀ i, env.readPath i = true) (hbread : ∀ b, env.bread b = true)
    (hbitmap : ∀ g, env.readBitmap g = true) (geo : AddrGeometry fs.sbi) (offset : Int)
    (h : fs.Owned reserved owned extra) (hown : owned ino = fs.fileTree ino) :
    let fs' := truncateBlocks ops env fs ino offset
    fs.TreeFrame fs' ino (fs.fileTree ino) ∧
      (∃ n data, fs'.inode ino = { fs.inode ino with iBlocks := n, iData := data }) ∧
      fs'.Owned reserved (Function.update owned ino (fs'.fileTree ino)) extra := by
  intro fs'
  set iblock := (offset + fs.sbi.sBlocksize - 1) >>> fs.sbi.sBlocksizeBits with hiblock
  have hbig := Nat.pow_le_pow_right (show 0 < 2 by omega) geo.bits
  have hapb : fs.addrPerBlock = 2 ^ fs.sbi.sAddrPerBlockBits := geo.apb_eq
  by_cases hnil : (fs.path iblock).1 = []
  · have hsame : fs' = fs := by simp [fs', truncateBlocks, ← hiblock, hnil]
    rw [hsame]
    refine ⟨⟨rfl, rfl, rfl, rfl, rfl, fun _ _ => rfl, fun i _ => ⟨_, rfl⟩, fun g => ⟨_, rfl⟩⟩,
      ⟨_, _, rfl⟩, ?_⟩
    rwa [← hown, Function.update_eq_self]
  · have hoffs : IsPath fs.addrPerBlock (fs.path iblock).1 := by
      rw [Fs.path, hapb] at hnil ⊢
      exact (krBlockToPath_isPath (by have := geo.bits; omega) iblock hnil).1
    set res := truncatePtrs env.readPath env.bread fs.addrPerBlock (fs.path iblock).1 (fs.mem ino)
      with hres
    have hnd : ((fs.mem ino).fileTree fs.addrPerBlock).Nodup := by
      have hnd := h.nodup ino
      rwa [hown] at hnd
    obtain ⟨hcut, hpos⟩ := truncatePtrs_exchanged hpath hbread hoffs rfl hnd
    rw [← hres] at hcut hpos
    have htree : res.1.fileTree fs.addrPerBlock + callBlocks res.2 = owned ino := by
      rw [hown]
      exact hcut.tree.trans (add_zero _)
    set fs1 := fs.setMem ino res.1 with hfs1
    have h1 : fs1.Owned reserved owned extra := by
      refine h.of_same rfl rfl rfl rfl fun i => ?_
      by_cases hi : i = ino
      · subst hi
        simp [hfs1, Fs.setMem]
      · simp [hfs1, Fs.setMem, hi]
    obtain ⟨hframe, -, h2⟩ := freeCalls_owned hbitmap res.2 h1 hpos
      (by rw [← htree]; exact Multiset.le_add_left _ _)
    set fs2 := freeCalls env.readBitmap ino fs1 res.2 with hfs2
    have hfs' : fs' = fs2.discardReservation ops ino := by
      simp only [fs', truncateBlocks, ← hiblock, if_neg hnil, ← hres, ← hfs1, ← hfs2]
    obtain ⟨rsv, hdiscard⟩ := fs2.discardReservation_rsv ops ino
    have hrsv : fs' = { fs2 with rsv := rsv } := hfs'.trans hdiscard
    obtain ⟨n, hn⟩ := hframe.inode ino
    have hself : fs2.inode ino = { fs.inode ino with iBlocks := n, iData := res.1.iData } := by
      rw [hn]
      simp [hfs1, Fs.setMem]
    have hleft : fs'.fileTree ino = owned ino - callBlocks res.2 := by
      rw [← htree, Multiset.add_sub_cancel_right, hrsv]
      have hsbi2 : fs2.addrPerBlock = fs.addrPerBlock := by
        simp only [Fs.addrPerBlock, hframe.sbi]
        rfl
      have hptr2 : fs2.ptr = res.1.ptr := hframe.ptr
      simp only [Fs.fileTree, Fs.mem, Mem.fileTree, Mem.forest, Mem.row, hself, hptr2]
      exact congrArg (fun apb => PtrTree.forest res.1.ptr apb _ res.1.iData 15) hsbi2
    refine ⟨?_, ⟨n, res.1.iData, by rw [hrsv]; exact hself⟩, ?_⟩
    · rw [hrsv]
      refine ⟨hframe.sbi, hframe.inodeBitmap, hframe.sFreeinodesCounter, hframe.sDirsCounter,
        hframe.sDebts, fun c hc => ?_, fun i hi => ?_, hframe.desc⟩
      · exact (congrFun hframe.ptr c).trans
          (hcut.ptr c (by simp) hc (Multiset.notMem_zero c))
      · obtain ⟨n', hn'⟩ := hframe.inode i
        exact ⟨n', by simpa [hfs1, Fs.setMem, hi] using hn'⟩
    · rw [hleft, hrsv]
      exact h2.of_same rfl rfl rfl rfl fun _ => rfl

end Truncate

end KrFs
