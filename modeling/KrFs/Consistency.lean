import KrFs.GetBlocks
import Mathlib.Logic.Relation

/-!
# Consistency of the file system

The state an `fsck` accepts, as far as blocks go: bitmaps, counts, block trees
and `i_blocks` agree. Every completed `kr_get_blocks` and `__kr_truncate_blocks`
on any file keeps it, whatever fails in the allocator, because each leaves the
file with exactly the blocks of its tree.
-/

namespace KrFs

open SearchTree Bitmap

/-- Copies of the superblock and of the descriptors, bitmaps and inode tables. -/
def Fs.Metadata (fs : Fs) (b : Nat) : Prop :=
  (∃ g < fs.sbi.sGroupsCount,
    (krBgHasSuper fs.sbi.sEs g = true ∧ fs.sbi.groupFirstBlockNo g ≤ b ∧
      b < fs.sbi.groupFirstBlockNo g + 1 + krBgNumGdb fs.sbi g) ∨
    SystemBlock fs.sbi (fs.desc g) b) ∨
  ∃ nr < fs.sbi.sGdbCount,
    b = descriptorLoc fs.sbi (fs.sbi.sSbBlock * BLOCK_SIZE / fs.sbi.sBlocksize) nr

/-- Metadata, and numbers outside the file system. -/
def Fs.Reserved (fs : Fs) (b : Nat) : Prop :=
  b < fs.sbi.sEs.sFirstDataBlock.toNat ∨ fs.sbi.sEs.sBlocksCount.toNat ≤ b ∨ fs.Metadata b

instance (sbi : SbInfo) (desc : GroupDesc) (b : Nat) : Decidable (SystemBlock sbi desc b) :=
  inferInstanceAs (Decidable (_ ∨ _ ∨ _ ∧ _))

instance (fs : Fs) (b : Nat) : Decidable (fs.Metadata b) :=
  inferInstanceAs (Decidable ((∃ g < _, _ ∧ _ ∧ _ ∨ _) ∨ ∃ nr < _, _ = _))

instance (fs : Fs) (b : Nat) : Decidable (fs.Reserved b) :=
  inferInstanceAs (Decidable (_ ∨ _ ∨ fs.Metadata b))

/-- Bitmaps, counts, trees and `i_blocks` agree for the given files. -/
structure Fs.Consistent (fs : Fs) (files : Set Nat) : Prop where
  groupFree : ∀ g < fs.sbi.sGroupsCount, (fs.desc g).bgFreeBlocksCount.toNat =
    clearCount (fs.blockBitmap g) fs.sbi.sBlocksPerGroup
  counter : fs.sFreeblocksCounter =
    ∑ g ∈ Finset.range fs.sbi.sGroupsCount, ((fs.desc g).bgFreeBlocksCount.toNat : Int)
  reserved_set : ∀ g < fs.sbi.sGroupsCount, ∀ i < fs.sbi.sBlocksPerGroup,
    fs.Reserved (fs.sbi.groupFirstBlockNo g + i) → fs.blockBitmap g i = true
  bit_iff : ∀ g < fs.sbi.sGroupsCount, ∀ i < fs.sbi.sBlocksPerGroup,
    (fs.blockBitmap g i = true ↔ fs.Reserved (fs.sbi.groupFirstBlockNo g + i) ∨
      ∃ ino ∈ files, fs.sbi.groupFirstBlockNo g + i ∈ fs.fileTree ino)
  nodup : ∀ ino ∈ files, (fs.fileTree ino).Nodup
  disjoint : ∀ i ∈ files, ∀ j ∈ files, i ≠ j → Disjoint (fs.fileTree i) (fs.fileTree j)
  unreserved : ∀ ino ∈ files, ∀ b ∈ fs.fileTree ino, ¬ fs.Reserved b
  iBlocks : ∀ ino ∈ files, (fs.inode ino).iBlocks =
    (fs.fileTree ino).card * (fs.sectorsPerBlock : Int)

section Owned

open scoped Classical in
/-- Each file possesses its tree. -/
noncomputable def Fs.trees (fs : Fs) (files : Set Nat) (ino : Nat) : Multiset Nat :=
  if ino ∈ files then fs.fileTree ino else 0

open scoped Classical in
/-- The sectors of inodes that are no files here. -/
noncomputable def Fs.otherSectors (fs : Fs) (files : Set Nat) (ino : Nat) : Int :=
  if ino ∈ files then 0 else (fs.inode ino).iBlocks

variable {fs : Fs} {files : Set Nat}

theorem Fs.mem_trees {b ino : Nat} : b ∈ fs.trees files ino ↔ ino ∈ files ∧ b ∈ fs.fileTree ino := by
  unfold Fs.trees
  split
  · rename_i h
    simp [h]
  · rename_i h
    simp [h]

/-- Block zero is outside the file system or holds a superblock. -/
theorem Fs.reserved_zero (fs : Fs) (hgroups : 0 < fs.sbi.sGroupsCount) : fs.Reserved 0 := by
  by_cases hfirst : 0 < fs.sbi.sEs.sFirstDataBlock.toNat
  · exact Or.inl hfirst
  · refine Or.inr (Or.inr (Or.inl ⟨0, hgroups, Or.inl ⟨?_, ?_, by omega⟩⟩))
    · simp [krBgHasSuper, krGroupSparse]
    · simp only [SbInfo.groupFirstBlockNo]
      omega

theorem Fs.Consistent.owned (h : fs.Consistent files) (geo : BlockGeometry fs.sbi) :
    fs.Owned fs.Reserved (fs.trees files) (fs.otherSectors files) := by
  refine ⟨geo, h.groupFree, ?_, ?_, ?_, ?_, ?_, ?_, ?_, ?_⟩
  · rw [h.counter]
    refine Finset.sum_congr rfl fun g hg => ?_
    rw [h.groupFree g (Finset.mem_range.mp hg)]
  · intro g hg i hi
    rw [h.bit_iff g hg i hi]
    simp only [Fs.mem_trees]
  · intro ino b hb
    obtain ⟨hfile, hb⟩ := Fs.mem_trees.mp hb
    have hres := h.unreserved ino hfile b hb
    refine ⟨?_, ?_, hres⟩
    · by_contra hlt
      exact hres (Or.inl (by omega))
    · by_contra hge
      exact hres (Or.inr (Or.inl (by omega)))
  · intro ino
    unfold Fs.trees
    split
    · exact h.nodup ino ‹_›
    · exact Multiset.nodup_zero
  · intro i j hij
    rw [Multiset.disjoint_left]
    intro b hb hb'
    obtain ⟨hi, hb⟩ := Fs.mem_trees.mp hb
    obtain ⟨hj, hb'⟩ := Fs.mem_trees.mp hb'
    exact Multiset.disjoint_left.mp (h.disjoint i hi j hj hij) hb hb'
  · intro ino
    unfold Fs.otherSectors Fs.trees
    split
    · rw [zero_add]
      exact h.iBlocks ino ‹_›
    · simp
  · intro g hg b hb
    exact Or.inr (Or.inr (Or.inl ⟨g, hg, Or.inr hb⟩))
  · intro b hb
    exact Or.inr (Or.inl hb)

theorem Fs.Owned.consistent {extra : Nat → Int}
    (h : fs.Owned fs.Reserved (fs.trees files) extra) (hextra : ∀ ino ∈ files, extra ino = 0) :
    fs.Consistent files := by
  have htree : ∀ ino ∈ files, fs.trees files ino = fs.fileTree ino := by
    intro ino hfile
    exact if_pos hfile
  have hbits : ∀ g < fs.sbi.sGroupsCount, ∀ i < fs.sbi.sBlocksPerGroup,
      (fs.blockBitmap g i = true ↔ fs.Reserved (fs.sbi.groupFirstBlockNo g + i) ∨
        ∃ ino ∈ files, fs.sbi.groupFirstBlockNo g + i ∈ fs.fileTree ino) := by
    intro g hg i hi
    rw [h.bit_iff g hg i hi]
    simp only [Fs.mem_trees]
  refine ⟨h.freeCount, ?_, fun g hg i hi hr => (hbits g hg i hi).mpr (Or.inl hr), hbits, ?_, ?_, ?_,
    ?_⟩
  · rw [h.counter]
    refine Finset.sum_congr rfl fun g hg => ?_
    rw [h.freeCount g (Finset.mem_range.mp hg)]
  · intro ino hfile
    rw [← htree ino hfile]
    exact h.nodup ino
  · intro i hi j hj hij
    rw [← htree i hi, ← htree j hj]
    exact h.disjoint i j hij
  · intro ino hfile b hb
    exact (h.in_zone ino b (Fs.mem_trees.mpr ⟨hfile, hb⟩)).2.2
  · intro ino hfile
    rw [h.iBlocks, hextra ino hfile, htree ino hfile, zero_add]

/-- The descriptors keep their addresses, so the reserved blocks stay. -/
theorem Fs.TreeFrame.reserved_eq {fs' : Fs} {ino : Nat} {touched : Multiset Nat}
    (h : fs.TreeFrame fs' ino touched) : fs'.Reserved = fs.Reserved := by
  have hsystem : ∀ g b, SystemBlock fs.sbi (fs'.desc g) b ↔ SystemBlock fs.sbi (fs.desc g) b := by
    intro g b
    obtain ⟨n, hn⟩ := h.desc g
    rw [hn]
    rfl
  funext b
  simp only [Fs.Reserved, Fs.Metadata, h.sbi, hsystem]

/-- An operation that leaves a file with the blocks of its tree keeps the file
system consistent. -/
theorem Fs.TreeStep.consistent {fs' : Fs} {ino : Nat} (hfile : ino ∈ files)
    (step : fs.TreeStep fs' fs.Reserved (fs.trees files) (fs.otherSectors files) ino) :
    fs'.Consistent files := by
  obtain ⟨touched, hframe, hapart⟩ := step.frame
  have htrees : Function.update (fs.trees files) ino (fs'.fileTree ino) = fs'.trees files := by
    funext i
    by_cases hi : i = ino
    · subst hi
      rw [Function.update_self]
      exact (if_pos hfile).symm
    · rw [Function.update_of_ne hi]
      unfold Fs.trees
      split
      · rename_i hfi
        have hdisj := hapart i hi
        rw [Fs.trees, if_pos hfi] at hdisj
        exact (hframe.fileTree_eq hi hdisj).symm
      · rfl
  have howned := step.owned
  rw [htrees, ← hframe.reserved_eq] at howned
  exact howned.consistent fun i hi => if_pos hi

end Owned

/-! ## Runs -/

/-- One completed call on a file. Reads of indirect blocks and of bitmaps to be
changed succeed; quota, the search for free blocks and `sb_getblk` may fail. -/
inductive FileCall (ops : Rebalance Window) (files : Set Nat) : Fs → Fs → Prop
  | getBlocks {fs fs' : Fs} {env : GetBlocksEnv} {ino fuel iblock maxblocks : Nat}
      {reservation : Bool} {mapped : Mapped} (file : ino ∈ files) (quiet : env.Quiet (fs.mem ino))
      (call : krGetBlocks ops env ino fuel reservation fs iblock maxblocks true =
        .done (fs', mapped)) : FileCall ops files fs fs'
  | truncate {fs : Fs} {env : TruncEnv} {ino : Nat} (file : ino ∈ files)
      (readPath : ∀ i, env.readPath i = true) (bread : ∀ b, env.bread b = true)
      (readBitmap : ∀ g, env.readBitmap g = true) (offset : Int) :
      FileCall ops files fs (truncateBlocks ops env fs ino offset)

theorem FileCall.consistent {ops : Rebalance Window} {files : Set Nat} {fs fs' : Fs}
    (geo : BlockGeometry fs.sbi) (addr : AddrGeometry fs.sbi) (hgroups : 0 < fs.sbi.sGroupsCount)
    (h : fs.Consistent files) (call : FileCall ops files fs fs') :
    fs'.sbi = fs.sbi ∧ fs'.Consistent files := by
  have howned := h.owned geo
  have hself : ∀ ino ∈ files, fs.trees files ino = fs.fileTree ino := fun ino hfile =>
    if_pos hfile
  cases call with
  | getBlocks file quiet call =>
    have step := krGetBlocks_step quiet addr howned (hself _ file) (fs.reserved_zero hgroups) call
    obtain ⟨touched, hframe, -⟩ := step.frame
    exact ⟨hframe.sbi, step.consistent file⟩
  | @truncate env ino file readPath bread readBitmap offset =>
    obtain ⟨hframe, -, howned'⟩ := truncateBlocks_owned ops readPath bread readBitmap addr offset
      howned (hself _ file)
    have step : fs.TreeStep (truncateBlocks ops env fs ino offset) fs.Reserved (fs.trees files)
        (fs.otherSectors files) ino := by
      refine ⟨⟨_, hframe, fun i hi => ?_⟩, howned'⟩
      rw [← hself _ file]
      exact howned.disjoint i ino hi
    exact ⟨hframe.sbi, step.consistent file⟩

/-- On a mounted file system with blocks of at most 4 KiB, every run of calls on
any files keeps the state consistent. -/
theorem fileCalls_consistent {k : MountEnv} {es : SuperBlock} {sbi : SbInfo}
    (accepted : krFillSuper k es = .ok sbi) (hsize : sbi.sBlocksize ≤ 4096)
    (ops : Rebalance Window) (files : Set Nat) {fs fs' : Fs} (mounted : fs.sbi = sbi)
    (h : fs.Consistent files) (run : Relation.ReflTransGen (FileCall ops files) fs fs') :
    fs'.Consistent files := by
  have geo := blockGeometry_of_krFillSuper accepted hsize
  have addr := addrGeometry_of_krFillSuper accepted
  have hgroups : 0 < sbi.sGroupsCount := by
    rw [(krFillSuper_ok accepted).1]
    exact Nat.succ_pos _
  have hrun : fs'.sbi = sbi ∧ fs'.Consistent files := by
    induction run with
    | refl => exact ⟨mounted, h⟩
    | tail _ call ih =>
      obtain ⟨hsbi, hc⟩ := ih
      obtain ⟨hsbi', hc'⟩ := call.consistent (hsbi ▸ geo) (hsbi ▸ addr) (hsbi ▸ hgroups) hc
      exact ⟨hsbi'.trans hsbi, hc'⟩
  exact hrun.2

/-- A one-group image with sixteen blocks of 1 KiB, six of them metadata. -/
def tinyImage : SuperBlock :=
  { smallImage 16 with sBlocksCount := 17, sBlocksPerGroup := 16, sFragsPerGroup := 16 }

theorem krFillSuper_tinyImage :
    krFillSuper smallEnv tinyImage = .ok (sbInfoOf smallEnv tinyImage 1024) := rfl

/-- The file system of `tinyImage` with empty regular files. -/
def tinyFs : Fs where
  sbi := sbInfoOf smallEnv tinyImage 1024
  desc := fun _ => { smallDesc with bgFreeBlocksCount := 10 }
  blockBitmap := fun _ i => decide (i < 6)
  inodeBitmap := fun _ _ => false
  sFreeblocksCounter := 10
  sFreeinodesCounter := 0
  sDirsCounter := 0
  sDebts := fun _ => 0
  inode := fun _ => { Inode.blank with iMode := 0x8000 }
  ptr := fun _ _ => 0
  rsv := ⟨.node .head .nil .nil, fun _ => ⟨0, 0, 0, 0⟩⟩

theorem fileTree_tinyFs (ino : Nat) : tinyFs.fileTree ino = 0 := by
  unfold Fs.fileTree Mem.fileTree Mem.forest PtrTree.forest
  exact Finset.sum_eq_zero fun slot _ => PtrTree.subtree_null (slot - 11)

theorem tinyFs_consistent : tinyFs.Consistent {12} := by
  have hbits : ∀ g < tinyFs.sbi.sGroupsCount, ∀ i < tinyFs.sbi.sBlocksPerGroup,
      (tinyFs.blockBitmap g i = true ↔ tinyFs.Reserved (tinyFs.sbi.groupFirstBlockNo g + i)) := by
    decide +kernel
  refine ⟨by decide +kernel, by decide +kernel, fun g hg i hi => (hbits g hg i hi).mpr,
    fun g hg i hi => ?_, ?_, ?_, ?_, ?_⟩
  · rw [hbits g hg i hi]
    simp [fileTree_tinyFs]
  · simp [fileTree_tinyFs]
  · rintro i rfl j rfl hij
    exact absurd rfl hij
  · simp [fileTree_tinyFs]
  · simp only [fileTree_tinyFs]
    exact fun _ _ => rfl

/-- A call that finds enough blocks. -/
def tinyGetEnv : GetBlocksEnv where
  look := fun _ => tinyFs.mem 12
  bread := fun _ => true
  breadAgain := fun _ => true
  alloc := fun _ => ⟨none, 10, false, fun _ => true⟩
  getblk := fun _ => true
  kmalloc := true
  readBitmap := fun _ => true
  now := 0
  pid := 0

/-- Logical block 12 needs an indirect block; cutting the file to nothing frees
both blocks again. -/
theorem fileCalls_consistent_indirect : ∃ fs1 mapped,
    krGetBlocks Rebalance.plain tinyGetEnv 12 20 true tinyFs 12 2 true = .done (fs1, mapped) ∧
      mapped.bno = 8 ∧ fs1.Consistent {12} ∧
      (truncateBlocks Rebalance.plain ⟨fun _ => true, fun _ => true, fun _ => true⟩ fs1 12
        0).Consistent {12} := by
  have hvalue : (krGetBlocks Rebalance.plain tinyGetEnv 12 20 true tinyFs 12 2 true).toOption.map
      (fun r => r.2.bno) = some 8 := by decide +kernel
  obtain ⟨⟨fs1, mapped⟩, hcall, hbno⟩ := Exec.toOption_map_eq_some.mp hvalue
  have hget : FileCall Rebalance.plain {12} tinyFs fs1 :=
    .getBlocks (Set.mem_singleton 12) ⟨fun _ => rfl, fun _ => rfl, fun _ => rfl, fun _ => rfl⟩ hcall
  have hcut : FileCall Rebalance.plain {12} fs1 (truncateBlocks Rebalance.plain
      ⟨fun _ => true, fun _ => true, fun _ => true⟩ fs1 12 0) :=
    .truncate (Set.mem_singleton 12) (fun _ => rfl) (fun _ => rfl) (fun _ => rfl) 0
  have hsize : (sbInfoOf smallEnv tinyImage 1024).sBlocksize ≤ 4096 := by decide
  exact ⟨fs1, mapped, hcall, hbno,
    fileCalls_consistent krFillSuper_tinyImage hsize _ _ rfl tinyFs_consistent (.single hget),
    fileCalls_consistent krFillSuper_tinyImage hsize _ _ rfl tinyFs_consistent
      ((Relation.ReflTransGen.single hget).tail hcut)⟩

end KrFs
