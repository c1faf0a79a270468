import KrFs.InodeCounts
import KrFs.Setattr
import KrFs.TruncateMap
import KrFs.GetBlocksMap

/-!
# Deleting an inode

`kr_evict_inode` and `kr_truncate_blocks`. Eviction cuts the file to nothing, discards its
reservation and frees the inode. The cut declines for some inodes and the freeing goes
ahead, and nothing gives back the block of the extended attributes. The theorem says for
which inodes all storage is released.
-/

namespace KrFs

open SearchTree PtrTree Bitmap

/-- What an eviction meets: `is_bad_inode`, the clock, the reads of the truncation and those
of the inode bitmaps. -/
structure EvictEnv where
  isBadInode : Bool
  now : UInt32
  trunc : TruncEnv
  readInodeBitmap : Nat → Bool

section Evict

variable (ops : Rebalance Window) (env : EvictEnv) (ino : Nat)

/-- `kr_truncate_blocks`. -/
def krTruncateBlocks (fs : Fs) (offset : Int) : Fs :=
  let inode := fs.inode ino
  if !(S_ISREG inode.iMode || S_ISDIR inode.iMode || S_ISLNK inode.iMode) then fs
  else if krInodeIsFastSymlink fs.sbi.sBlocksize inode then fs
  else if inode.sFlags &&& S_APPEND != 0 || inode.sFlags &&& S_IMMUTABLE != 0 then fs
  else truncateBlocks ops env.trunc fs ino offset

/-- The part of `kr_evict_inode` that truncates to 0. -/
def evictTruncate (fs : Fs) : Fs :=
  let fs := { fs with
    inode := Function.update fs.inode ino { fs.inode ino with iDtime := env.now } }
  let fs := { fs with inode := Function.update fs.inode ino { fs.inode ino with iSize := 0 } }
  if (fs.inode ino).iBlocks ≠ 0 then krTruncateBlocks ops env ino fs 0 else fs

/-- `kr_evict_inode`. -/
def krEvictInode (fs : Fs) : Fs :=
  let wantDelete := (fs.inode ino).iNlink == 0 && !env.isBadInode
  let fs := if wantDelete then evictTruncate ops env ino fs else fs
  let fs := fs.discardReservation ops ino
  let fs := { fs with
    inode := Function.update fs.inode ino { fs.inode ino with iBlockAllocInfo := none } }
  if wantDelete then fs.krFreeInode env.readInodeBitmap ino else fs

end Evict

/-! ## Block bitmaps that are read, and those that are not -/

section Reads

variable {readBitmap : Nat → Bool}

/-- The bitmaps of the blocks of a collection can be read. -/
def Fs.Readable (fs : Fs) (readBitmap : Nat → Bool) (blocks : Multiset Nat) : Prop :=
  ∀ b ∈ blocks, readBitmap ((b - fs.sbi.sEs.sFirstDataBlock.toNat) / fs.sbi.sBlocksPerGroup) = true

theorem freeBlocksLoop_readable (fuel : Nat) : ∀ {fs : Fs} {block count freed : Nat},
    0 < fs.sbi.sBlocksPerGroup → 0 < count → fs.Readable readBitmap (blockRun block count) →
    freeBlocksLoop readBitmap fuel fs block count freed =
      freeBlocksLoop (fun _ => true) fuel fs block count freed := by
  induction fuel with
  | zero => exact fun _ _ _ => rfl
  | succ fuel ih =>
    intro fs block count freed hbpg hcount hread
    have hfirst := hread block (mem_blockRun.mpr ⟨le_refl _, by omega⟩)
    have hbit := Nat.mod_lt (block - fs.sbi.sEs.sFirstDataBlock.toNat) hbpg
    simp only [freeBlocksLoop, hfirst]
    generalize hbeyond : (if fs.sbi.sBlocksPerGroup < (block - fs.sbi.sEs.sFirstDataBlock.toNat) %
      fs.sbi.sBlocksPerGroup + count then (block - fs.sbi.sEs.sFirstDataBlock.toNat) %
      fs.sbi.sBlocksPerGroup + count - fs.sbi.sBlocksPerGroup else 0) = beyond
    have hle : beyond ≤ count := by
      rw [← hbeyond]
      split
      · omega
      · omega
    by_cases hz : beyond = 0
    · simp only [hz, ne_eq, not_true_eq_false, if_false]
    · have hrest := @ih (freeInGroup fs ((block - fs.sbi.sEs.sFirstDataBlock.toNat) /
        fs.sbi.sBlocksPerGroup) ((block - fs.sbi.sEs.sFirstDataBlock.toNat) %
        fs.sbi.sBlocksPerGroup) (count - beyond)).1 (block + (count - beyond)) beyond
      rw [hrest hbpg (by omega) fun b hb => ?_]
      rw [mem_blockRun] at hb
      exact hread b (mem_blockRun.mpr ⟨by omega, by omega⟩)

/-- When the bitmaps of the blocks can be read, it does not matter whether others can. -/
theorem freeCalls_readable {ino : Nat} (calls : List (Nat × Nat)) : ∀ {fs : Fs},
    0 < fs.sbi.sBlocksPerGroup → (∀ c ∈ calls, 0 < c.2) →
    fs.Readable readBitmap (callBlocks calls) →
    freeCalls readBitmap ino fs calls = freeCalls (fun _ => true) ino fs calls := by
  induction calls with
  | nil => exact fun _ _ _ => rfl
  | cons c calls ih =>
    intro fs hbpg hpos hread
    have hfirst : krFreeBlocks readBitmap fs ino c.1 c.2 =
        krFreeBlocks (fun _ => true) fs ino c.1 c.2 := by
      unfold krFreeBlocks
      rw [freeBlocksLoop_readable _ hbpg (hpos c (by simp)) fun b hb => hread b (by simp [hb])]
    have hsbi := (krFreeBlocks_frame (fun _ => true) fs ino c.1 c.2).sbi
    rw [freeCalls, List.foldl_cons, hfirst]
    refine ih (by rwa [hsbi]) (fun c hc => hpos c (by simp [hc])) fun b hb => ?_
    rw [hsbi]
    exact hread b (by simp [hb])

/-- A group whose bitmap cannot be read keeps its bits, and the windows stay. -/
theorem freeBlocksLoop_unread (fuel : Nat) : ∀ {fs : Fs} {block count freed : Nat},
    (freeBlocksLoop readBitmap fuel fs block count freed).1.rsv = fs.rsv ∧
      ∀ g, readBitmap g = false →
        (freeBlocksLoop readBitmap fuel fs block count freed).1.blockBitmap g = fs.blockBitmap g := by
  induction fuel with
  | zero => exact ⟨rfl, fun _ _ => rfl⟩
  | succ fuel ih =>
    intro fs block count freed
    unfold freeBlocksLoop
    dsimp only
    generalize (if fs.sbi.sBlocksPerGroup < (block - fs.sbi.sEs.sFirstDataBlock.toNat) %
      fs.sbi.sBlocksPerGroup + count then (block - fs.sbi.sEs.sFirstDataBlock.toNat) %
      fs.sbi.sBlocksPerGroup + count - fs.sbi.sBlocksPerGroup else 0) = beyond
    split
    · exact ⟨rfl, fun _ _ => rfl⟩
    rename_i hread
    split
    · exact ⟨rfl, fun _ _ => rfl⟩
    split
    · exact ⟨rfl, fun _ _ => rfl⟩
    · have hgroup : ∀ g, readBitmap g = false → ∀ bit n, (freeInGroup fs
          ((block - fs.sbi.sEs.sFirstDataBlock.toNat) / fs.sbi.sBlocksPerGroup) bit
          n).1.blockBitmap g = fs.blockBitmap g := by
        intro g hg bit n
        refine Function.update_of_ne ?_ _ _
        rintro rfl
        exact hread (by rw [hg]; rfl)
      split
      · obtain ⟨hrsv, hbits⟩ := @ih (freeInGroup fs _ _ (count - beyond)).1 _ _ _
        exact ⟨hrsv, fun g hg => (hbits g hg).trans (hgroup g hg _ _)⟩
      · exact ⟨rfl, fun g hg => hgroup g hg _ _⟩

theorem freeCalls_unread {ino : Nat} (calls : List (Nat × Nat)) : ∀ {fs : Fs},
    (freeCalls readBitmap ino fs calls).rsv = fs.rsv ∧ ∀ g, readBitmap g = false →
      (freeCalls readBitmap ino fs calls).blockBitmap g = fs.blockBitmap g := by
  induction calls with
  | nil => exact ⟨rfl, fun _ _ => rfl⟩
  | cons c calls ih =>
    intro fs
    have hone : (krFreeBlocks readBitmap fs ino c.1 c.2).rsv = fs.rsv ∧ ∀ g,
        readBitmap g = false →
          (krFreeBlocks readBitmap fs ino c.1 c.2).blockBitmap g = fs.blockBitmap g := by
      unfold krFreeBlocks
      split
      · exact ⟨rfl, fun _ _ => rfl⟩
      · have hloop := @freeBlocksLoop_unread readBitmap (c.2 + 1) fs c.1 c.2 0
        generalize freeBlocksLoop readBitmap (c.2 + 1) fs c.1 c.2 0 = res at hloop
        obtain ⟨fs1, freed⟩ := res
        dsimp only
        split
        · exact hloop
        · exact hloop
    obtain ⟨hrsv, hbits⟩ := @ih (krFreeBlocks readBitmap fs ino c.1 c.2)
    exact ⟨hrsv.trans hone.1, fun g hg => (hbits g hg).trans (hone.2 g hg)⟩

end Reads

/-! ## Cutting a file to nothing -/

section Truncate

variable {ops : Rebalance Window} {env : TruncEnv} {fs : Fs} {ino : Nat}
  {reserved : Nat → Prop} {owned : Nat → Multiset Nat} {extra : Nat → Int}

/-- A discarded window is out of the tree. -/
theorem discardReservation_windows (h : fs.WindowsOf ino) :
    (fs.discardReservation ops ino).WindowsOf ino ∧
      .inode ino ∉ inorder (fs.discardReservation ops ino).rsv.root := by
  obtain ⟨hwf, hunused⟩ := h
  unfold Fs.discardReservation
  split
  · obtain ⟨hwf', hend, -⟩ := rsvWindowDrop_wf ops hwf ino
    exact ⟨⟨hwf', fun _ => hend⟩, fun hmem => (hwf'.mem_iff ino).mp hmem hend⟩
  · rename_i hinfo
    rw [Option.isSome_iff_ne_none, not_not] at hinfo
    exact ⟨⟨hwf, hunused⟩, fun hmem => (hwf.mem_iff ino).mp hmem (hunused hinfo)⟩

/-- What an eviction leaves alone until it frees the inode, whichever reads fail. -/
structure Fs.EvictFrame (fs fs' : Fs) (readBitmap : Nat → Bool) (ino : Nat) : Prop where
  sbi : fs'.sbi = fs.sbi
  inodeBitmap : fs'.inodeBitmap = fs.inodeBitmap
  unread : ∀ g, readBitmap g = false → fs'.blockBitmap g = fs.blockBitmap g
  windows : fs.WindowsOf ino → fs'.WindowsOf ino

theorem Fs.EvictFrame.trans {a b c : Fs} {readBitmap : Nat → Bool}
    (h1 : a.EvictFrame b readBitmap ino) (h2 : b.EvictFrame c readBitmap ino) :
    a.EvictFrame c readBitmap ino :=
  ⟨h2.sbi.trans h1.sbi, h2.inodeBitmap.trans h1.inodeBitmap,
    fun g hg => (h2.unread g hg).trans (h1.unread g hg), fun h => h2.windows (h1.windows h)⟩

theorem discardReservation_frame (readBitmap : Nat → Bool) :
    fs.EvictFrame (fs.discardReservation ops ino) readBitmap ino := by
  obtain ⟨rsv, hrsv⟩ := fs.discardReservation_rsv ops ino
  refine ⟨?_, ?_, ?_, fun h => (discardReservation_windows h).1⟩
  · rw [hrsv]
  · rw [hrsv]
  · intro g _
    rw [hrsv]

theorem truncateBlocks_frame (offset : Int) :
    fs.EvictFrame (truncateBlocks ops env fs ino offset) env.readBitmap ino := by
  unfold truncateBlocks
  dsimp only
  split
  · exact ⟨rfl, rfl, fun _ _ => rfl, fun h => h⟩
  · generalize truncatePtrs env.readPath env.bread fs.addrPerBlock _ (fs.mem ino) = res
    obtain ⟨m, calls⟩ := res
    have hcalls := freeCalls_frame env.readBitmap ino calls (fs.setMem ino m)
    obtain ⟨hrsv, hbits⟩ := @freeCalls_unread env.readBitmap ino calls (fs.setMem ino m)
    refine Fs.EvictFrame.trans ⟨hcalls.sbi, hcalls.inodeBitmap, hbits, ?_⟩
      (discardReservation_frame env.readBitmap)
    rintro ⟨hwf, hunused⟩
    obtain ⟨n, hn⟩ := hcalls.inode ino
    have hinfo : ((freeCalls env.readBitmap ino (fs.setMem ino m) calls).inode
        ino).iBlockAllocInfo = (fs.inode ino).iBlockAllocInfo := by
      rw [hn]
      simp [Fs.setMem]
    rw [Fs.WindowsOf, hrsv, hinfo]
    exact ⟨hwf, hunused⟩

/-- The bitmaps of the blocks of the file are all that is read. -/
theorem truncateBlocks_readable (hpath : ∀ i, env.readPath i = true)
    (hbread : ∀ b, env.bread b = true) (geo : AddrGeometry fs.sbi)
    (hbpg : 0 < fs.sbi.sBlocksPerGroup) (hnd : (fs.fileTree ino).Nodup)
    (hread : fs.Readable env.readBitmap (fs.fileTree ino)) (offset : Int) :
    truncateBlocks ops env fs ino offset =
      truncateBlocks ops { env with readBitmap := fun _ => true } fs ino offset := by
  unfold truncateBlocks
  dsimp only
  split
  · rfl
  · rename_i hne
    have hoffs : IsPath fs.addrPerBlock
        (fs.path ((offset + fs.sbi.sBlocksize - 1) >>> fs.sbi.sBlocksizeBits)).1 := by
      have hapb : fs.addrPerBlock = 2 ^ fs.sbi.sAddrPerBlockBits := geo.apb_eq
      rw [Fs.path, hapb] at hne ⊢
      exact (krBlockToPath_isPath (by have := geo.bits; omega) _ hne).1
    obtain ⟨hcut, hpos⟩ := truncatePtrs_exchanged hpath hbread hoffs rfl hnd
    generalize truncatePtrs env.readPath env.bread fs.addrPerBlock _ (fs.mem ino) = res
      at hcut hpos
    have htree : res.1.fileTree fs.addrPerBlock + callBlocks res.2 = fs.fileTree ino :=
      hcut.tree.trans (add_zero _)
    congr 1
    refine freeCalls_readable res.2 hbpg hpos fun b hb => ?_
    exact hread b (by rw [← htree]; exact Multiset.mem_add.mpr (.inr hb))

theorem Fs.path_zero {k : MountEnv} {es : SuperBlock} (accepted : krFillSuper k es = .ok fs.sbi) :
    (fs.path (((0 : Int) + fs.sbi.sBlocksize - 1) >>> fs.sbi.sBlocksizeBits)).1 = [0] := by
  rw [@truncate_iblock fs.sbi (inodeGeometry_of_krFillSuper accepted) 0 0 (by simp)]
  rfl

/-- Every slot of the inode is clear after the cut. -/
theorem truncatePtrs_zero (hpath : ∀ i, env.readPath i = true) (hbread : ∀ b, env.bread b = true)
    {apb : Nat} {m : Mem} (hnr : m.nr = 0) (hnd : (m.fileTree apb).Nodup) :
    (truncatePtrs env.readPath env.bread apb [0] m).1.fileTree apb = 0 := by
  have hzero : IsPath apb [0] := ⟨by simp, by simp, by simp, by simp⟩
  obtain ⟨cut, hne, hpre, hcut, -⟩ := truncatePtrs_cut hpath hbread hzero hnr hnd
  have hcutEq : cut = [0] := by
    rcases List.prefix_cons_iff.mp hpre with h | ⟨rest, rfl, hrest⟩
    · exact absurd h hne
    · rw [List.prefix_nil.mp hrest]
  subst hcutEq
  have hslot : ∀ slot < 15, (truncatePtrs env.readPath env.bread apb [0] m).1.iData slot = 0 := by
    intro slot hslot
    refine hcut.unmapped [slot] ⟨by simp, hslot, by simp, by simp⟩ fun hlt => ?_
    simp [List.cons_lt_cons_iff] at hlt
  unfold Mem.fileTree Mem.forest PtrTree.forest
  refine Finset.sum_eq_zero fun slot h => ?_
  rw [show (truncatePtrs env.readPath env.bread apb [0] m).1.row .inode slot = 0 from
    hslot slot (Finset.mem_range.mp h)]
  exact subtree_null _

/-- A file cut to nothing possesses no block. -/
theorem truncateBlocks_zero {k : MountEnv} {es : SuperBlock}
    (accepted : krFillSuper k es = .ok fs.sbi) (hpath : ∀ i, env.readPath i = true)
    (hbread : ∀ b, env.bread b = true) (h : fs.Owned reserved owned extra)
    (hown : owned ino = fs.fileTree ino) (hread : fs.Readable env.readBitmap (fs.fileTree ino)) :
    (truncateBlocks ops env fs ino 0).Owned reserved (Function.update owned ino 0) extra := by
  have geo := addrGeometry_of_krFillSuper accepted
  have hnd : (fs.fileTree ino).Nodup := hown ▸ h.nodup ino
  rw [truncateBlocks_readable hpath hbread geo h.geometry.bpg_pos hnd hread]
  set quiet : TruncEnv := { env with readBitmap := fun _ => true } with hquiet
  obtain ⟨-, -, howned⟩ := @truncateBlocks_owned fs reserved owned extra ino ops quiet hpath hbread
    (fun _ => rfl) geo 0 h hown
  have hempty : (truncateBlocks ops quiet fs ino 0).fileTree ino = 0 := by
    have hzero := @truncatePtrs_zero quiet hpath hbread fs.addrPerBlock (fs.mem ino) rfl hnd
    have hfs : truncateBlocks ops quiet fs ino 0 = (freeCalls quiet.readBitmap ino (fs.setMem ino
        (truncatePtrs quiet.readPath quiet.bread fs.addrPerBlock [0] (fs.mem ino)).1)
        (truncatePtrs quiet.readPath quiet.bread fs.addrPerBlock [0]
          (fs.mem ino)).2).discardReservation ops ino := by
      unfold truncateBlocks
      simp only [Fs.path_zero accepted]
      rfl
    obtain ⟨hmem, hsbi⟩ := truncateBlocks_mem ops quiet fs ino
      (truncatePtrs quiet.readPath quiet.bread fs.addrPerBlock [0] (fs.mem ino)).1
      (truncatePtrs quiet.readPath quiet.bread fs.addrPerBlock [0] (fs.mem ino)).2
      (truncatePtrs_exchanged hpath hbread ⟨by simp, by simp, by simp, by simp⟩ rfl hnd).1.nr
    rw [← hfs] at hmem hsbi
    have hapb : (truncateBlocks ops quiet fs ino 0).addrPerBlock = fs.addrPerBlock := by
      simp only [Fs.addrPerBlock, hsbi]
    rw [Fs.fileTree, hmem, hapb]
    exact hzero
  rwa [hempty] at howned

end Truncate

/-! ## The storage of an inode -/

section Storage

variable {fs fs' : Fs} {files holders : Set Nat} {ino : Nat}

/-- The block that the `i_file_acl` of some inode names. -/
def Fs.AclBlock (fs : Fs) (holders : Set Nat) (b : Nat) : Prop :=
  ∃ i ∈ holders, (fs.inode i).iFileAcl ≠ 0 ∧ (fs.inode i).iFileAcl.toNat = b

/-- Another inode names the same block. -/
def Fs.AclShared (fs : Fs) (holders : Set Nat) (ino : Nat) : Prop :=
  ∃ i ∈ holders, i ≠ ino ∧ (fs.inode i).iFileAcl = (fs.inode ino).iFileAcl

open scoped Classical in
/-- The sectors a file is charged for beside its tree, and those of other inodes. -/
noncomputable def Fs.aclSectors (fs : Fs) (files : Set Nat) (ino : Nat) : Int :=
  if ino ∈ files then if (fs.inode ino).iFileAcl = 0 then 0 else fs.sectorsPerBlock
  else (fs.inode ino).iBlocks

/-- Bitmaps, counts, trees and `i_blocks` agree, the trees being those of `files`, and the
blocks of the extended attributes those that `holders` name. -/
structure Fs.Accounted (fs : Fs) (files holders : Set Nat) : Prop where
  owned : fs.Owned (fun b => fs.Reserved b ∨ fs.AclBlock holders b) (fs.trees files)
    (fs.aclSectors files)
  acl : ∀ b, fs.AclBlock holders b → ¬ fs.Reserved b

/-- A regular file, directory or slow symlink without links, which is no bad inode. The
reads of indirect blocks succeed. -/
structure Fs.Deleted (fs : Fs) (env : EvictEnv) (files holders : Set Nat) (ino : Nat) : Prop where
  number : 0 < ino
  file : ino ∈ files
  holder : ino ∈ holders
  kind : S_ISREG (fs.inode ino).iMode = true ∨ S_ISDIR (fs.inode ino).iMode = true ∨
    S_ISLNK (fs.inode ino).iMode = true ∧
      krInodeIsFastSymlink fs.sbi.sBlocksize (fs.inode ino) = false
  nlink : (fs.inode ino).iNlink = 0
  sound : env.isBadInode = false
  inUse : fs.inodeBitmap ((ino - 1) / fs.sbi.sInodesPerGroup)
    ((ino - 1) % fs.sbi.sInodesPerGroup) = true
  windows : fs.WindowsOf ino
  readPath : ∀ i, env.trunc.readPath i = true
  bread : ∀ b, env.trunc.bread b = true

open scoped Classical in
/-- The blocks that only this inode uses. -/
noncomputable def Fs.storage (fs : Fs) (holders : Set Nat) (ino : Nat) : Multiset Nat :=
  fs.fileTree ino +
    if (fs.inode ino).iFileAcl ≠ 0 ∧ ¬ fs.AclShared holders ino then
      {(fs.inode ino).iFileAcl.toNat}
    else 0

/-- All storage of an inode has been given back. -/
structure StorageReleased (fs fs' : Fs) (holders : Set Nat) (ino : Nat) : Prop where
  bits : ∀ g < fs.sbi.sGroupsCount, ∀ i < fs.sbi.sBlocksPerGroup,
    fs.sbi.groupFirstBlockNo g + i ∈ fs.storage holders ino → fs'.blockBitmap g i = false
  groupFree : ∀ g < fs.sbi.sGroupsCount, (fs'.desc g).bgFreeBlocksCount.toNat =
    (fs.desc g).bgFreeBlocksCount.toNat +
      ((Finset.range fs.sbi.sBlocksPerGroup).filter fun i =>
        fs.sbi.groupFirstBlockNo g + i ∈ fs.storage holders ino).card
  counter : fs'.sFreeblocksCounter = fs.sFreeblocksCounter + (fs.storage holders ino).card
  window : .inode ino ∉ inorder fs'.rsv.root
  inode : fs'.inodeBitmap ((ino - 1) / fs.sbi.sInodesPerGroup)
    ((ino - 1) % fs.sbi.sInodesPerGroup) = false

/-- The truncation does not decline, the bitmaps of the blocks and of the inode can be read,
`kr_free_inode` accepts the number, and the inode has no block of extended attributes to
itself. -/
structure Fs.Releases (fs : Fs) (env : EvictEnv) (holders : Set Nat) (ino : Nat) : Prop where
  truncates : fs.fileTree ino = 0 ∨
    (fs.inode ino).sFlags &&& S_APPEND = 0 ∧ (fs.inode ino).sFlags &&& S_IMMUTABLE = 0
  readable : fs.Readable env.trunc.readBitmap (fs.fileTree ino)
  acl : (fs.inode ino).iFileAcl = 0 ∨ fs.AclShared holders ino
  frees : fs.frees env.readInodeBitmap ino = true

end Storage

/-! ## What an eviction leaves -/

section Evicted

variable {ops : Rebalance Window} {env : EvictEnv} {fs : Fs} {files holders : Set Nat} {ino : Nat}

/-- `kr_free_inode` does not touch the blocks. -/
theorem krFreeInode_blocks (fs : Fs) (readBitmap : Nat → Bool) (ino : Nat) :
    (fs.krFreeInode readBitmap ino).blockBitmap = fs.blockBitmap ∧
      (fs.krFreeInode readBitmap ino).rsv = fs.rsv ∧
      (fs.krFreeInode readBitmap ino).sFreeblocksCounter = fs.sFreeblocksCounter ∧
      ∀ g, ((fs.krFreeInode readBitmap ino).desc g).bgFreeBlocksCount =
        (fs.desc g).bgFreeBlocksCount := by
  unfold Fs.krFreeInode
  split
  · exact ⟨rfl, rfl, rfl, fun _ => rfl⟩
  dsimp only
  split
  · exact ⟨rfl, rfl, rfl, fun _ => rfl⟩
  split
  · exact ⟨rfl, rfl, rfl, fun _ => rfl⟩
  unfold Fs.krReleaseInode
  split
  · exact ⟨rfl, rfl, rfl, fun _ => rfl⟩
  · rename_i desc hdesc
    obtain ⟨-, rfl⟩ := Fs.groupDesc_some hdesc
    refine ⟨rfl, rfl, rfl, fun g => ?_⟩
    by_cases hg : g = (sub64 ino 1 / fs.sbi.sInodesPerGroup) % 2 ^ 32
    · subst hg
      simp only [Function.update_self]
      rfl
    · simp only [Function.update_of_ne hg]
      rfl

theorem Fs.frees_congr {fs' : Fs} (hsbi : fs'.sbi = fs.sbi)
    (hinodes : fs'.inodeBitmap = fs.inodeBitmap) {readBitmap : Nat → Bool} :
    fs'.frees readBitmap ino = fs.frees readBitmap ino := by
  have hdesc : ∀ g, (fs'.groupDesc g).isSome = (fs.groupDesc g).isSome := by
    intro g
    rw [Fs.groupDesc, Fs.groupDesc, hsbi]
    split
    · rfl
    · rfl
  simp only [Fs.frees, Fs.readInodeBitmap, hdesc, hsbi, hinodes]

theorem krFreeInode_bit {readBitmap : Nat → Bool} (hpos : 0 < fs.sbi.sInodesPerGroup)
    (hino : 0 < ino) (h : fs.frees readBitmap ino = true) :
    (fs.krFreeInode readBitmap ino).inodeBitmap ((ino - 1) / fs.sbi.sInodesPerGroup)
      ((ino - 1) % fs.sbi.sInodesPerGroup) = false := by
  obtain ⟨group, -, bit, hbit, hnumber, -, heq⟩ := krFreeInode_eq hpos hino h
  have hpred : ino - 1 = group * fs.sbi.sInodesPerGroup + bit := by omega
  have hdiv : (ino - 1) / fs.sbi.sInodesPerGroup = group := by
    rw [hpred, Nat.mul_comm, Nat.mul_add_div hpos, Nat.div_eq_of_lt hbit, Nat.add_zero]
  have hmod : (ino - 1) % fs.sbi.sInodesPerGroup = bit := by
    rw [hpred, Nat.mul_comm, Nat.mul_add_mod, Nat.mod_eq_of_lt hbit]
  rw [heq, hdiv, hmod]
  simp [releasedInode, Fs.setInodeBit]

/-- The state in which the truncation begins. -/
def Fs.unsized (fs : Fs) (now : UInt32) (ino : Nat) : Fs :=
  { fs with
    inode := Function.update fs.inode ino
      { fs.inode ino with
        iDtime := now
        iSize := 0 } }

theorem Fs.Deleted.notFast (deleted : fs.Deleted env files holders ino) :
    krInodeIsFastSymlink fs.sbi.sBlocksize (fs.inode ino) = false := by
  rcases deleted.kind with h | h | ⟨-, h⟩
  · rw [S_ISREG, beq_iff_eq] at h
    rw [krInodeIsFastSymlink, S_ISLNK, h]
    rfl
  · rw [S_ISDIR, beq_iff_eq] at h
    rw [krInodeIsFastSymlink, S_ISLNK, h]
    rfl
  · exact h

theorem evictTruncate_eq (deleted : fs.Deleted env files holders ino) :
    evictTruncate ops env ino fs =
      if (fs.inode ino).iBlocks ≠ 0 ∧ (fs.inode ino).sFlags &&& S_APPEND = 0 ∧
          (fs.inode ino).sFlags &&& S_IMMUTABLE = 0 then
        truncateBlocks ops env.trunc (fs.unsized env.now ino) ino 0
      else fs.unsized env.now ino := by
  have hkind : (!(S_ISREG (fs.inode ino).iMode || S_ISDIR (fs.inode ino).iMode ||
      S_ISLNK (fs.inode ino).iMode)) = false := by
    rcases deleted.kind with h | h | ⟨h, -⟩
    · simp [h]
    · simp [h]
    · simp [h]
  have hfast : krInodeIsFastSymlink fs.sbi.sBlocksize ((fs.unsized env.now ino).inode ino) =
      false := by
    simp only [Fs.unsized, Function.update_self]
    exact deleted.notFast
  have hsame : evictTruncate ops env ino fs =
      if (fs.inode ino).iBlocks ≠ 0 then
        krTruncateBlocks ops env ino (fs.unsized env.now ino) 0
      else fs.unsized env.now ino := by
    simp only [evictTruncate, Fs.unsized, Function.update_self, Function.update_idem]
  rw [hsame]
  by_cases hblocks : (fs.inode ino).iBlocks = 0
  · simp only [hblocks, ne_eq, not_true_eq_false, false_and, if_false]
  · simp only [hblocks, ne_eq, not_false_eq_true, true_and, if_true]
    have hmode : ((fs.unsized env.now ino).inode ino).iMode = (fs.inode ino).iMode := by
      simp [Fs.unsized]
    have hflags : ((fs.unsized env.now ino).inode ino).sFlags = (fs.inode ino).sFlags := by
      simp [Fs.unsized]
    have hsbi : (fs.unsized env.now ino).sbi = fs.sbi := rfl
    unfold krTruncateBlocks
    simp only [hmode, hflags, hsbi, hkind, hfast, Bool.false_eq_true, if_false]
    by_cases happend : (fs.inode ino).sFlags &&& S_APPEND = 0
    · by_cases himm : (fs.inode ino).sFlags &&& S_IMMUTABLE = 0
      · simp [happend, himm]
      · simp [happend, himm]
    · simp [happend]

theorem evictTruncate_frame (deleted : fs.Deleted env files holders ino) :
    fs.EvictFrame (evictTruncate ops env ino fs) env.trunc.readBitmap ino := by
  have hunsized : fs.EvictFrame (fs.unsized env.now ino) env.trunc.readBitmap ino := by
    refine ⟨rfl, rfl, fun _ _ => rfl, ?_⟩
    rintro ⟨hwf, hunused⟩
    exact ⟨hwf, fun h => hunused (by simpa [Fs.unsized] using h)⟩
  rw [evictTruncate_eq deleted]
  split
  · exact hunsized.trans (truncateBlocks_frame 0)
  · exact hunsized

/-- The truncation of a file with blocks declines and touches no bitmap. -/
theorem evictTruncate_declined (deleted : fs.Deleted env files holders ino)
    (h : ¬ ((fs.inode ino).sFlags &&& S_APPEND = 0 ∧ (fs.inode ino).sFlags &&& S_IMMUTABLE = 0)) :
    (evictTruncate ops env ino fs).blockBitmap = fs.blockBitmap := by
  rw [evictTruncate_eq deleted, if_neg fun hall => h hall.2]
  rfl

/-- A truncation that goes ahead leaves the inode without a block. -/
theorem evictTruncate_owned {k : MountEnv} {es : SuperBlock}
    (accepted : krFillSuper k es = .ok fs.sbi) (accounted : fs.Accounted files holders)
    (deleted : fs.Deleted env files holders ino)
    (htruncates : fs.fileTree ino = 0 ∨
      (fs.inode ino).sFlags &&& S_APPEND = 0 ∧ (fs.inode ino).sFlags &&& S_IMMUTABLE = 0)
    (hread : fs.Readable env.trunc.readBitmap (fs.fileTree ino)) :
    (evictTruncate ops env ino fs).Owned (fun b => fs.Reserved b ∨ fs.AclBlock holders b)
      (Function.update (fs.trees files) ino 0) (fs.aclSectors files) := by
  have htree : fs.trees files ino = fs.fileTree ino := if_pos deleted.file
  have hunsized : (fs.unsized env.now ino).Owned (fun b => fs.Reserved b ∨ fs.AclBlock holders b)
      (fs.trees files) (fs.aclSectors files) := by
    refine accounted.owned.of_same rfl rfl rfl rfl fun i => ?_
    by_cases hi : i = ino
    · subst hi
      simp [Fs.unsized]
    · simp [Fs.unsized, hi]
  have hsameTree : (fs.unsized env.now ino).fileTree ino = fs.fileTree ino := by
    have hmem : (fs.unsized env.now ino).mem ino = fs.mem ino := by
      simp [Fs.mem, Fs.unsized]
    rw [Fs.fileTree, hmem]
    rfl
  rw [evictTruncate_eq deleted]
  split
  · exact truncateBlocks_zero accepted deleted.readPath deleted.bread hunsized
      (htree.trans hsameTree.symm) (by rw [hsameTree]; exact hread)
  · rename_i hdeclined
    -- the inode has no blocks at all
    have hempty : fs.trees files ino = 0 := by
      rw [htree]
      rcases htruncates with h | h
      · exact h
      · have hblocks : (fs.inode ino).iBlocks = 0 := by
          by_contra hne
          exact hdeclined ⟨hne, h⟩
        have hcount := accounted.owned.iBlocks ino
        have hspb : 0 < (fs.sectorsPerBlock : Int) := by
          obtain ⟨hsbi, hsize, -, -⟩ := krFillSuper_ok accepted
          have hmin : 512 ≤ fs.sbi.sBlocksize := by
            rw [hsbi]
            exact (accepted_blocksize hsize).2
          rw [Fs.sectorsPerBlock, Nat.shiftRight_eq_div_pow]
          omega
        have hextra : 0 ≤ fs.aclSectors files ino := by
          rw [Fs.aclSectors, if_pos deleted.file]
          split
          · exact le_refl _
          · exact hspb.le
        rw [hblocks, htree] at hcount
        by_contra hne
        have hcard : 0 < ((fs.fileTree ino).card : Int) := by
          exact_mod_cast Multiset.card_pos.mpr hne
        have := Int.mul_pos hcard hspb
        omega
    rw [← hempty, Function.update_eq_self]
    exact hunsized

/-- Eviction, up to the call of `kr_free_inode`. -/
theorem krEvictInode_deleted (deleted : fs.Deleted env files holders ino) :
    ∃ fs1 : Fs, krEvictInode ops env ino fs = fs1.krFreeInode env.readInodeBitmap ino ∧
      fs1.sbi = fs.sbi ∧ fs1.inodeBitmap = fs.inodeBitmap ∧
      fs1.blockBitmap = (evictTruncate ops env ino fs).blockBitmap ∧
      fs1.desc = (evictTruncate ops env ino fs).desc ∧
      fs1.sFreeblocksCounter = (evictTruncate ops env ino fs).sFreeblocksCounter ∧
      .inode ino ∉ inorder fs1.rsv.root := by
  have hframe := @evictTruncate_frame ops env fs files holders ino deleted
  have hdelete : ((fs.inode ino).iNlink == 0 && !env.isBadInode) = true := by
    simp [deleted.nlink, deleted.sound]
  have hdrop := (@discardReservation_windows ops _ ino (hframe.windows deleted.windows)).2
  obtain ⟨rsv, hrsv⟩ := (evictTruncate ops env ino fs).discardReservation_rsv ops ino
  rw [hrsv] at hdrop
  refine ⟨{ evictTruncate ops env ino fs with
    rsv := rsv
    inode := Function.update (evictTruncate ops env ino fs).inode ino
      { (evictTruncate ops env ino fs).inode ino with iBlockAllocInfo := none } }, ?_,
    hframe.sbi, hframe.inodeBitmap, rfl, rfl, rfl, hdrop⟩
  simp only [krEvictInode, hdelete, if_true, hrsv]

/-- The blocks of a collection, counted group by group. -/
theorem sum_bits_card {sbi : SbInfo} (geo : BlockGeometry sbi) {s : Multiset Nat} (hnd : s.Nodup)
    (hzone : ∀ b ∈ s, sbi.sEs.sFirstDataBlock.toNat ≤ b ∧ b < sbi.sEs.sBlocksCount.toNat) :
    ∑ g ∈ Finset.range sbi.sGroupsCount, (((Finset.range sbi.sBlocksPerGroup).filter fun i =>
      sbi.groupFirstBlockNo g + i ∈ s).card : Int) = s.card := by
  have hgroup : ∀ b ∈ s.toFinset, (b - sbi.sEs.sFirstDataBlock.toNat) / sbi.sBlocksPerGroup ∈
      Finset.range sbi.sGroupsCount := by
    intro b hb
    obtain ⟨hlow, hhigh⟩ := hzone b (Multiset.mem_toFinset.mp hb)
    obtain ⟨g, i, rfl, -, hg, -⟩ := geo.exists_bit hlow hhigh
    exact Finset.mem_range.mpr hg
  have hcard : s.card = ∑ g ∈ Finset.range sbi.sGroupsCount,
      ((Finset.range sbi.sBlocksPerGroup).filter fun i => sbi.groupFirstBlockNo g + i ∈ s).card := by
    rw [← Multiset.toFinset_card_of_nodup hnd, Finset.card_eq_sum_card_fiberwise hgroup]
    refine Finset.sum_congr rfl fun g hg => ?_
    refine (Finset.card_bij (fun i _ => sbi.groupFirstBlockNo g + i) ?_ ?_ ?_).symm
    · intro i hi
      obtain ⟨hlt, hmem⟩ := Finset.mem_filter.mp hi
      obtain ⟨hlow, hhigh⟩ := hzone _ hmem
      obtain ⟨g', i', hg', -, -, hi', haddr⟩ := geo.exists_bit hlow hhigh
      obtain ⟨rfl, -⟩ := geo.addr_inj (Finset.mem_range.mp hlt) hi' haddr
      exact Finset.mem_filter.mpr ⟨Multiset.mem_toFinset.mpr hmem, hg'.symm⟩
    · intro i _ i' _ heq
      omega
    · intro b hb
      obtain ⟨hmem, hb⟩ := Finset.mem_filter.mp hb
      rw [Multiset.mem_toFinset] at hmem
      obtain ⟨hlow, hhigh⟩ := hzone b hmem
      obtain ⟨g', i', hg', -, -, hi', haddr⟩ := geo.exists_bit hlow hhigh
      rw [hb] at hg'
      subst hg'
      exact ⟨i', Finset.mem_filter.mpr ⟨Finset.mem_range.mpr hi', haddr ▸ hmem⟩, haddr.symm⟩
  rw [hcard]
  push_cast
  rfl

/-- The blocks of an inode whose extended attributes have no block of their own are those of
its tree. -/
theorem Fs.Releases.storage_eq (h : fs.Releases env holders ino) :
    fs.storage holders ino = fs.fileTree ino := by
  have hnone : ¬ ((fs.inode ino).iFileAcl ≠ 0 ∧ ¬ fs.AclShared holders ino) := by
    rintro ⟨hne, hnot⟩
    rcases h.acl with hz | hshared
    · exact hne hz
    · exact hnot hshared
  rw [Fs.storage, if_neg hnone, add_zero]

/-- What an eviction under the condition leaves. -/
theorem Fs.Releases.released {k : MountEnv} {es : SuperBlock}
    (accepted : krFillSuper k es = .ok fs.sbi) (accounted : fs.Accounted files holders)
    (deleted : fs.Deleted env files holders ino) (h : fs.Releases env holders ino) :
    StorageReleased fs (krEvictInode ops env ino fs) holders ino := by
  have htree : fs.trees files ino = fs.fileTree ino := if_pos deleted.file
  have howned := accounted.owned
  have hcut := @evictTruncate_owned ops env fs files holders ino k es accepted accounted deleted
    h.truncates h.readable
  have hsbi := (@evictTruncate_frame ops env fs files holders ino deleted).sbi
  obtain ⟨fs1, heq, hsbi1, hinodes, hbits, hdesc, hcounter, hwindow⟩ :=
    @krEvictInode_deleted ops env fs files holders ino deleted
  obtain ⟨hbits', hrsv, hcounter', hfree⟩ := krFreeInode_blocks fs1 env.readInodeBitmap ino
  generalize hcutState : evictTruncate ops env ino fs = fs2 at hcut hsbi hbits hdesc hcounter
  -- the bits of the tree are cleared, and no others
  have hset : ∀ g < fs.sbi.sGroupsCount, ∀ i < fs.sbi.sBlocksPerGroup,
      fs.sbi.groupFirstBlockNo g + i ∈ fs.fileTree ino → fs.blockBitmap g i = true := by
    intro g hg i hi hmem
    exact howned.bit_of_mem hi hg (htree ▸ hmem)
  have hiff : ∀ g < fs.sbi.sGroupsCount, ∀ i < fs.sbi.sBlocksPerGroup,
      (fs2.blockBitmap g i = true ↔ fs.blockBitmap g i = true ∧
        ¬ fs.sbi.groupFirstBlockNo g + i ∈ fs.fileTree ino) := by
    intro g hg i hi
    rw [howned.bit_iff g hg i hi, ← htree]
    have hafter := hcut.bit_iff g (by rwa [hsbi]) i (by rwa [hsbi])
    rw [hsbi] at hafter
    rw [hafter]
    constructor
    · rintro (hheld | ⟨j, hj⟩)
      · exact ⟨Or.inl hheld, fun hmem => (howned.in_zone ino _ hmem).2.2 hheld⟩
      · have hne : j ≠ ino := by
          rintro rfl
          rw [Function.update_self] at hj
          exact Multiset.notMem_zero _ hj
        rw [Function.update_of_ne hne] at hj
        exact ⟨Or.inr ⟨j, hj⟩, fun hmem =>
          Multiset.disjoint_left.mp (howned.disjoint j ino hne) hj hmem⟩
    · rintro ⟨hheld | ⟨j, hj⟩, hnot⟩
      · exact Or.inl hheld
      · have hne : j ≠ ino := by
          rintro rfl
          exact hnot hj
        exact Or.inr ⟨j, by rwa [Function.update_of_ne hne]⟩
  have hcount : ∀ g < fs.sbi.sGroupsCount, clearCount (fs2.blockBitmap g) fs.sbi.sBlocksPerGroup =
      clearCount (fs.blockBitmap g) fs.sbi.sBlocksPerGroup +
        ((Finset.range fs.sbi.sBlocksPerGroup).filter fun i =>
          fs.sbi.groupFirstBlockNo g + i ∈ fs.fileTree ino).card := fun g hg =>
    clearCount_cleared (hset g hg) (hiff g hg)
  rw [heq]
  refine ⟨fun g hg i hi hmem => ?_, fun g hg => ?_, ?_, by rwa [hrsv], ?_⟩
  · rw [h.storage_eq] at hmem
    rw [hbits', hbits, ← Bool.not_eq_true, hiff g hg i hi]
    exact fun hboth => hboth.2 hmem
  · have hafter := hcut.freeCount g (by rwa [hsbi])
    rw [hsbi, hcount g hg, ← howned.freeCount g hg] at hafter
    rw [hfree, hdesc, hafter, h.storage_eq]
  · have hsum := sum_bits_card howned.geometry (htree ▸ howned.nodup ino) fun b hb =>
      ⟨(howned.in_zone ino b (htree ▸ hb)).1, (howned.in_zone ino b (htree ▸ hb)).2.1⟩
    have hafter := hcut.counter
    rw [hsbi] at hafter
    rw [hcounter', hcounter, hafter, h.storage_eq, howned.counter, ← hsum,
      ← Finset.sum_add_distrib]
    refine Finset.sum_congr rfl fun g hg => ?_
    exact_mod_cast hcount g (Finset.mem_range.mp hg)
  · rw [← hsbi1]
    refine krFreeInode_bit ?_ deleted.number ?_
    · rw [hsbi1]
      exact (inodeGeometry_of_krFillSuper accepted).inodesPerGroup_pos
    · rw [Fs.frees_congr hsbi1 hinodes]
      exact h.frees

/-- A block of the tree whose bit is still set. -/
theorem StorageReleased.tree_clear {fs' : Fs} (accounted : fs.Accounted files holders)
    (deleted : fs.Deleted env files holders ino) (h : StorageReleased fs fs' holders ino) {b : Nat}
    (hb : b ∈ fs.fileTree ino) : ∃ g i, g < fs.sbi.sGroupsCount ∧
      g = (b - fs.sbi.sEs.sFirstDataBlock.toNat) / fs.sbi.sBlocksPerGroup ∧
      fs.blockBitmap g i = true ∧ fs'.blockBitmap g i = false := by
  have htree : fs.trees files ino = fs.fileTree ino := if_pos deleted.file
  rw [← htree] at hb
  obtain ⟨hlow, hhigh, -⟩ := accounted.owned.in_zone ino b hb
  obtain ⟨g, i, hgroup, -, hg, hi, rfl⟩ := accounted.owned.geometry.exists_bit hlow hhigh
  refine ⟨g, i, hg, hgroup, accounted.owned.bit_of_mem hi hg hb, h.bits g hg i hi ?_⟩
  rw [htree] at hb
  exact Multiset.mem_add.mpr (.inl hb)

/-- `kr_evict_inode` releases all storage of a deleted inode exactly when it has no block of
extended attributes to itself, it is neither append-only nor immutable or has an empty tree,
the bitmaps can be read and `kr_free_inode` accepts its number. -/
theorem krEvictInode_releases_iff {k : MountEnv} {es : SuperBlock}
    (accepted : krFillSuper k es = .ok fs.sbi) (accounted : fs.Accounted files holders)
    (deleted : fs.Deleted env files holders ino) :
    StorageReleased fs (krEvictInode ops env ino fs) holders ino ↔ fs.Releases env holders ino := by
  constructor
  · intro h
    obtain ⟨fs1, heq, hsbi1, hinodes, hbits, -⟩ :=
      @krEvictInode_deleted ops env fs files holders ino deleted
    obtain ⟨hbits', -⟩ := krFreeInode_blocks fs1 env.readInodeBitmap ino
    have hsame : (krEvictInode ops env ino fs).blockBitmap =
        (evictTruncate ops env ino fs).blockBitmap := by
      rw [heq, hbits', hbits]
    have htruncates : fs.fileTree ino = 0 ∨ (fs.inode ino).sFlags &&& S_APPEND = 0 ∧
        (fs.inode ino).sFlags &&& S_IMMUTABLE = 0 := by
      by_contra hnot
      rw [not_or] at hnot
      obtain ⟨b, hb⟩ := Multiset.exists_mem_of_ne_zero hnot.1
      obtain ⟨g, i, -, -, hset, hclear⟩ := h.tree_clear accounted deleted hb
      rw [hsame, evictTruncate_declined deleted hnot.2, hset] at hclear
      cases hclear
    have hreadable : fs.Readable env.trunc.readBitmap (fs.fileTree ino) := by
      intro b hb
      obtain ⟨g, i, -, rfl, hset, hclear⟩ := h.tree_clear accounted deleted hb
      by_contra hread
      rw [Bool.not_eq_true] at hread
      rw [hsame, (evictTruncate_frame deleted).unread _ hread, hset] at hclear
      cases hclear
    refine ⟨htruncates, hreadable, ?_, ?_⟩
    · -- the block of the extended attributes is still in use
      by_contra hnot
      rw [not_or] at hnot
      have hcut := @evictTruncate_owned ops env fs files holders ino k es accepted accounted deleted
        htruncates hreadable
      have hsbi := (@evictTruncate_frame ops env fs files holders ino deleted).sbi
      have hacl : fs.AclBlock holders (fs.inode ino).iFileAcl.toNat :=
        ⟨ino, deleted.holder, hnot.1, rfl⟩
      have hfree := accounted.acl _ hacl
      simp only [Fs.Reserved, not_or, not_lt, not_le] at hfree
      obtain ⟨g, i, -, -, hg, hi, haddr⟩ := accounted.owned.geometry.exists_bit hfree.1 hfree.2.1
      have hset : (evictTruncate ops env ino fs).blockBitmap g i = true := by
        refine (hcut.bit_iff g (by rwa [hsbi]) i (by rwa [hsbi])).mpr (Or.inl (Or.inr ?_))
        rw [hsbi, ← haddr]
        exact hacl
      have hclear := h.bits g hg i hi (by
        rw [← haddr, Fs.storage, if_pos hnot]
        exact Multiset.mem_add.mpr (.inr (Multiset.mem_singleton_self _)))
      rw [hsame, hset] at hclear
      cases hclear
    · by_contra hnot
      rw [Bool.not_eq_true, ← Fs.frees_congr hsbi1 hinodes] at hnot
      have hclear := h.inode
      rw [heq, krFreeInode_keeps hnot, hinodes, deleted.inUse] at hclear
      cases hclear
  · exact fun h => h.released accepted accounted deleted

/-- A consistent file system has all its blocks accounted for when no file has extended
attributes. -/
theorem Fs.Consistent.accounted (h : fs.Consistent files) (geo : BlockGeometry fs.sbi)
    (hacl : ∀ i ∈ files, (fs.inode i).iFileAcl = 0) : fs.Accounted files files := by
  have hnone : ∀ b, ¬ fs.AclBlock files b := by
    rintro b ⟨i, hi, hne, -⟩
    exact hne (hacl i hi)
  have hheld : (fun b => fs.Reserved b ∨ fs.AclBlock files b) = fs.Reserved := by
    funext b
    simp [hnone b]
  have hsectors : fs.aclSectors files = fs.otherSectors files := by
    funext i
    unfold Fs.aclSectors Fs.otherSectors
    split
    · rename_i hi
      rw [if_pos (hacl i hi)]
    · rfl
  refine ⟨?_, fun b hb => absurd hb (hnone b)⟩
  rw [hheld, hsectors]
  exact h.owned geo

end Evicted

/-- The file of `branchFs`, with an entry in the descriptors and without links. -/
def deletedFs (flags : UInt32) : Fs :=
  { branchFs with
    desc := fun _ => { smallDesc with bgFreeBlocksCount := 7 }
    sFreeblocksCounter := 7
    inodeBitmap := fun _ _ => true
    inode := fun i => { branchFs.inode i with
      iNlink := 0
      sFlags := flags } }

def quietEvict : EvictEnv := ⟨false, 0, quietTrunc, fun _ => true⟩

theorem fileTree_deletedFs (flags : UInt32) : (deletedFs flags).fileTree 12 = {7, 8, 9} :=
  fileTree_branchFs

theorem deletedFs_accounted (flags : UInt32) : (deletedFs flags).Accounted {12} {12} := by
  have hbits : ∀ g < (deletedFs 0).sbi.sGroupsCount, ∀ i < (deletedFs 0).sbi.sBlocksPerGroup,
      ((deletedFs 0).blockBitmap g i = true ↔
        (deletedFs 0).Reserved ((deletedFs 0).sbi.groupFirstBlockNo g + i) ∨
          (deletedFs 0).sbi.groupFirstBlockNo g + i ∈ ({7, 8, 9} : Multiset Nat)) := by
    decide +kernel
  have hcounts : (∀ g < (deletedFs 0).sbi.sGroupsCount,
      ((deletedFs 0).desc g).bgFreeBlocksCount.toNat =
        clearCount ((deletedFs 0).blockBitmap g) (deletedFs 0).sbi.sBlocksPerGroup) ∧
      (deletedFs 0).sFreeblocksCounter = ∑ g ∈ Finset.range (deletedFs 0).sbi.sGroupsCount,
        (((deletedFs 0).desc g).bgFreeBlocksCount.toNat : Int) := by decide +kernel
  have hconsistent : (deletedFs flags).Consistent {12} := by
    refine ⟨hcounts.1, hcounts.2, fun g hg i hi hr => (hbits g hg i hi).mpr (.inl hr),
      fun g hg i hi => ?_, ?_, ?_, ?_, ?_⟩
    · rw [show (deletedFs flags).blockBitmap g i = true ↔ _ from hbits g hg i hi]
      simp only [Set.mem_singleton_iff, exists_eq_left, fileTree_deletedFs]
      rfl
    · rintro ino rfl
      rw [fileTree_deletedFs]
      decide
    · rintro i rfl j rfl hij
      exact absurd rfl hij
    · rintro ino rfl b hb
      rw [fileTree_deletedFs] at hb
      have hfree : ∀ b ∈ ({7, 8, 9} : Multiset Nat), ¬ (deletedFs 0).Reserved b := by decide +kernel
      exact hfree b hb
    · rintro ino rfl
      have hsectors : (deletedFs 0).sectorsPerBlock = 2 := by decide
      rw [fileTree_deletedFs, show (deletedFs flags).sectorsPerBlock = 2 from hsectors]
      rfl
  have hsize : (deletedFs 0).sbi.sBlocksize ≤ 4096 := by decide
  refine hconsistent.accounted ?_ ?_
  · exact blockGeometry_of_krFillSuper krFillSuper_tinyImage hsize
  · rintro i rfl
    rfl

theorem deletedFs_deleted (flags : UInt32) :
    (deletedFs flags).Deleted quietEvict {12} {12} 12 := by
  have hreg : S_ISREG 0x8000 = true := by decide
  exact ⟨by decide, rfl, rfl, .inl hreg, rfl, rfl, rfl, ⟨tinyFs_rsv_wf, fun _ => rfl⟩, fun _ => rfl,
    fun _ => rfl⟩

/-- The three blocks of the file are given back. -/
theorem krEvictInode_releases_file : StorageReleased (deletedFs 0)
    (krEvictInode Rebalance.plain quietEvict 12 (deletedFs 0)) {12} 12 := by
  refine (krEvictInode_releases_iff krFillSuper_tinyImage (deletedFs_accounted 0)
    (deletedFs_deleted 0)).mpr ⟨.inr ⟨rfl, rfl⟩, fun _ _ => rfl, .inl rfl, by decide +kernel⟩

/-- The inode of an append-only file is freed, and its blocks stay in use. -/
theorem krEvictInode_append : (deletedFs S_APPEND).Accounted {12} {12} ∧
    (deletedFs S_APPEND).Deleted quietEvict {12} {12} 12 ∧
    (krEvictInode Rebalance.plain quietEvict 12 (deletedFs S_APPEND)).inodeBitmap 0 11 = false ∧
    (krEvictInode Rebalance.plain quietEvict 12 (deletedFs S_APPEND)).blockBitmap 0 8 = true ∧
    ¬ StorageReleased (deletedFs S_APPEND)
      (krEvictInode Rebalance.plain quietEvict 12 (deletedFs S_APPEND)) {12} 12 := by
  have hbit : (krEvictInode Rebalance.plain quietEvict 12 (deletedFs S_APPEND)).blockBitmap 0 8 =
      true := by decide +kernel
  refine ⟨deletedFs_accounted _, deletedFs_deleted _, by decide +kernel, hbit, fun h => ?_⟩
  have hclear := h.bits 0 (by decide) 8 (by decide) ?_
  · rw [hbit] at hclear
    cases hclear
  · have hnine : (deletedFs S_APPEND).sbi.groupFirstBlockNo 0 + 8 ∈ ({7, 8, 9} : Multiset Nat) := by
      decide
    rw [Fs.storage, fileTree_deletedFs, Multiset.mem_add]
    exact Or.inl hnine

end KrFs
