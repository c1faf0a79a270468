import KrFs.FileHandles
import KrFs.QuotaFile

/-!
# Calls on the blocks and attributes of an inode

`kr_get_blocks`, `kr_setsize` and `kr_setattr` change an inode in the cache as the runs over
the store of inodes allow: its generation number and its flags stay, and so do all other
inodes. The functions of `dir.c` only clear the flag of an indexed directory.
-/

namespace KrFs

open SearchTree

/-- What a call on the blocks or the attributes of one inode leaves alone. -/
structure Fs.InodeFrame (fs fs' : Fs) (ino : Nat) : Prop where
  sbi : fs'.sbi = fs.sbi
  inodeBitmap : fs'.inodeBitmap = fs.inodeBitmap
  others : ∀ i, i ≠ ino → fs'.inode i = fs.inode i
  generation : (fs'.inode ino).iGeneration = (fs.inode ino).iGeneration
  flags : (fs'.inode ino).iFlags = (fs.inode ino).iFlags
  sFlags : (fs'.inode ino).sFlags = (fs.inode ino).sFlags

namespace Fs.InodeFrame

variable {a b c fs : Fs} {ino : Nat} {inode : Inode}

theorem refl (fs : Fs) (ino : Nat) : fs.InodeFrame fs ino := by
  constructor
  · rfl
  · rfl
  · exact fun _ _ => rfl
  · rfl
  · rfl
  · rfl

theorem trans (h1 : a.InodeFrame b ino) (h2 : b.InodeFrame c ino) : a.InodeFrame c ino := by
  constructor
  · exact h2.sbi.trans h1.sbi
  · exact h2.inodeBitmap.trans h1.inodeBitmap
  · exact fun i hi => (h2.others i hi).trans (h1.others i hi)
  · exact h2.generation.trans h1.generation
  · exact h2.flags.trans h1.flags
  · exact h2.sFlags.trans h1.sFlags

/-- The other parts of the state do not matter. -/
theorem of_inode (hsbi : b.sbi = a.sbi) (hbitmap : b.inodeBitmap = a.inodeBitmap)
    (hinode : b.inode = a.inode) : a.InodeFrame b ino := by
  constructor
  · exact hsbi
  · exact hbitmap
  · exact fun i _ => congrFun hinode i
  · rw [hinode]
  · rw [hinode]
  · rw [hinode]

/-- The inode is stored anew. -/
theorem update (hgeneration : inode.iGeneration = (fs.inode ino).iGeneration)
    (hflags : inode.iFlags = (fs.inode ino).iFlags) (hsFlags : inode.sFlags = (fs.inode ino).sFlags) :
    fs.InodeFrame { fs with inode := Function.update fs.inode ino inode } ino := by
  constructor
  · rfl
  · rfl
  · exact fun i hi => Function.update_of_ne hi _ _
  · simpa using hgeneration
  · simpa using hflags
  · simpa using hsFlags

theorem of_blockFrame (h : a.BlockFrame b) (others : ∀ i, i ≠ ino → b.inode i = a.inode i) :
    a.InodeFrame b ino := by
  obtain ⟨n, hn⟩ := h.inode ino
  constructor
  · exact h.sbi
  · exact h.inodeBitmap
  · exact others
  · rw [hn]
  · rw [hn]
  · rw [hn]

end Fs.InodeFrame

theorem Fs.chargeBlocks_inodeFrame (fs : Fs) (ino : Nat) (n : Int) :
    fs.InodeFrame (fs.chargeBlocks ino n) ino := by
  unfold Fs.chargeBlocks
  exact .update rfl rfl rfl

theorem Fs.setMem_inodeFrame (fs : Fs) (ino : Nat) (m : Mem) :
    fs.InodeFrame (fs.setMem ino m) ino := by
  have hdata : fs.InodeFrame { fs with
      inode := Function.update fs.inode ino { fs.inode ino with iData := m.iData } } ino :=
    .update rfl rfl rfl
  exact hdata.trans (.of_inode rfl rfl rfl)

/-! ## The allocator -/

section New

variable {ops : Rebalance Window} {env : AllocEnv} {ino fuel goal goalGroup : Nat} {fs fs' : Fs}

theorem SearchOk.inodeFrame {count : Nat} {result : GroupSearch} (h : SearchOk fs fs' count result) :
    fs.InodeFrame fs' ino := by
  have same : SameButRsv fs fs' → fs.InodeFrame fs' ino := by
    intro hsame
    rw [hsame]
    exact .of_inode rfl rfl rfl
  cases result with
  | found group first num =>
    have hclaim : Claimed fs fs' group first num count := h
    rw [hclaim.state]
    exact .of_inode rfl rfl rfl
  | missed num => exact same h.1
  | ioError => exact same h

theorem retryAlloc_inodeFrame {result : Except (Errno × Bool) (Nat × Nat × Nat)} (rounds : Nat) :
    ∀ {fs : Fs} {groupNo : Nat} {useRsv : Bool} {windowsz num : Nat},
    0 < fs.sbi.sBlocksPerGroup →
    retryAlloc ops env ino fuel goal goalGroup rounds fs groupNo useRsv windowsz num =
      .done (fs', result) → fs.InodeFrame fs' ino := by
  induction rounds with
  | zero =>
    intro fs groupNo useRsv windowsz num _ hrun
    cases hrun
  | succ rounds ih =>
    intro fs groupNo useRsv windowsz num hbpg hrun
    unfold retryAlloc at hrun
    dsimp only at hrun
    obtain ⟨⟨fs₁, found⟩, hsearch, hrest⟩ := Exec.bind_eq_done.mp hrun
    have hframe : fs.InodeFrame fs₁ ino := (searchFrom_spec ops env ino fuel hbpg hsearch).inodeFrame
    have hbpg₁ : 0 < fs₁.sbi.sBlocksPerGroup := by
      rw [hframe.sbi]
      exact hbpg
    cases found with
    | ioError =>
      cases hrest
      exact hframe
    | missed num₁ =>
      dsimp only at hrest
      split at hrest
      · exact hframe.trans (ih hbpg₁ hrest)
      · cases hrest
        exact hframe
    | found group first num₁ =>
      dsimp only at hrest
      split at hrest
      · exact hframe.trans (ih hbpg₁ hrest)
      · split at hrest
        · cases hrest
          exact hframe
        · cases hrest
          exact hframe

theorem krNewBlocks_inodeFrame {count : Nat} {result : Except Errno (Nat × Nat)}
    (hbpg : 0 < fs.sbi.sBlocksPerGroup)
    (hrun : krNewBlocks ops env ino fuel fs goal count = .done (fs', result)) :
    fs.InodeFrame fs' ino := by
  unfold krNewBlocks at hrun
  dsimp only at hrun
  split at hrun
  · cases hrun
    exact .refl fs ino
  have hcharge := fs.chargeBlocks_inodeFrame ino count
  split at hrun
  · cases hrun
    exact hcharge.trans (Fs.chargeBlocks_inodeFrame _ ino _)
  obtain ⟨⟨fs₁, outcome⟩, hretry, hrest⟩ := Exec.bind_eq_done.mp hrun
  have hloop : fs.InodeFrame fs₁ ino := hcharge.trans (retryAlloc_inodeFrame fuel hbpg hretry)
  cases outcome with
  | error err =>
    cases hrest
    split
    · exact hloop
    · exact hloop.trans (Fs.chargeBlocks_inodeFrame _ ino _)
  | ok val =>
    cases hrest
    have hcount : fs.InodeFrame { fs₁ with
        desc := Function.update fs₁.desc val.1 (groupAdjustBlocks (fs₁.desc val.1) (-val.2.2))
        sFreeblocksCounter := fs₁.sFreeblocksCounter - val.2.2 } ino :=
      hloop.trans (.of_inode rfl rfl rfl)
    split
    · exact hcount.trans (Fs.chargeBlocks_inodeFrame _ ino _)
    · exact hcount

theorem krFreeBlocks_inodeFrame (readBitmap : Nat → Bool) (fs : Fs) (ino block count : Nat) :
    fs.InodeFrame (krFreeBlocks readBitmap fs ino block count) ino :=
  .of_blockFrame (krFreeBlocks_frame readBitmap fs ino block count)
    fun _ hi => krFreeBlocks_other readBitmap block count hi

theorem freeCalls_inodeFrame (readBitmap : Nat → Bool) (fs : Fs) (ino : Nat)
    (calls : List (Nat × Nat)) : fs.InodeFrame (freeCalls readBitmap ino fs calls) ino :=
  .of_blockFrame (freeCalls_frame readBitmap ino calls fs)
    fun _ hi => freeCalls_other readBitmap hi calls fs

end New

/-! ## The block map -/

section Map

variable {ops : Rebalance Window} {env : GetBlocksEnv} {ino fuel : Nat} {fs fs' : Fs}

theorem allocBlocksLoop_inodeFrame {goal indirectBlks : Nat}
    {result : Except (Errno × List Nat) (List Nat × Nat × Nat)} (rounds : Nat) :
    ∀ {k : Nat} {fs : Fs} {target : Nat} {new : List Nat}, 0 < fs.sbi.sBlocksPerGroup →
    allocBlocksLoop ops env ino fuel goal indirectBlks rounds k fs target new =
      .done (fs', result) → fs.InodeFrame fs' ino := by
  induction rounds with
  | zero =>
    intro k fs target new _ hrun
    cases hrun
  | succ rounds ih =>
    intro k fs target new hbpg hrun
    unfold allocBlocksLoop at hrun
    obtain ⟨⟨fs₁, outcome⟩, hcall, hrest⟩ := Exec.bind_eq_done.mp hrun
    have hframe : fs.InodeFrame fs₁ ino := krNewBlocks_inodeFrame hbpg hcall
    cases outcome with
    | error err =>
      cases hrest
      exact hframe
    | ok val =>
      dsimp only at hrest
      split at hrest
      · cases hrest
        exact hframe
      · refine hframe.trans (ih ?_ hrest)
        rw [hframe.sbi]
        exact hbpg

theorem freeEach_inodeFrame (fs : Fs) (blocks : List Nat) :
    fs.InodeFrame (freeEach env ino fs blocks) ino := by
  rw [freeEach_eq]
  exact freeCalls_inodeFrame _ fs ino _

theorem krAllocBranch_inodeFrame (hbpg : 0 < fs.sbi.sBlocksPerGroup) {goal indirectBlks blks : Nat}
    {offsets : List Nat} {result : Except Errno (List Nat × Nat × Nat)}
    (hrun : krAllocBranch ops env ino fuel fs goal indirectBlks blks offsets =
      .done (fs', result)) : fs.InodeFrame fs' ino := by
  unfold krAllocBranch at hrun
  obtain ⟨⟨fs₁, outcome⟩, halloc, hrest⟩ := Exec.bind_eq_done.mp hrun
  have hframe : fs.InodeFrame fs₁ ino := by
    unfold krAllocBlocks at halloc
    obtain ⟨⟨fs₂, taken⟩, hloop, hend⟩ := Exec.bind_eq_done.mp halloc
    have hblocks : fs.InodeFrame fs₂ ino := allocBlocksLoop_inodeFrame _ hbpg hloop
    cases taken with
    | error err =>
      cases hend
      exact hblocks.trans (freeEach_inodeFrame _ _)
    | ok found =>
      cases hend
      exact hblocks
  cases outcome with
  | error err =>
    cases hrest
    exact hframe
  | ok found =>
    obtain ⟨new, data, num⟩ := found
    obtain ⟨ptr, hfill, -⟩ : ∃ ptr, (fillBranch env data num 1 fs₁ new offsets).1 =
        { fs₁ with ptr := ptr } ∧ ∀ c, c ∉ new → ptr c = fs₁.ptr c :=
      fillBranch_frame data num new 1 fs₁ offsets
    have hfilled : fs.InodeFrame (fillBranch env data num 1 fs₁ new offsets).1 ino := by
      rw [hfill]
      exact hframe.trans (.of_inode rfl rfl rfl)
    dsimp only at hrest
    split at hrest
    · cases hrest
      exact hfilled
    · cases hrest
      exact (hfilled.trans (freeEach_inodeFrame _ _)).trans (krFreeBlocks_inodeFrame _ _ _ _ _)

theorem krSpliceBranch_inodeFrame (fs : Fs) (iblock : Nat) (ind : Indirect) (new : List Nat)
    (data blks : Nat) : fs.InodeFrame (krSpliceBranch env ino fs iblock ind new data blks) ino := by
  unfold krSpliceBranch
  exact (Fs.setMem_inodeFrame fs ino _).trans (.update rfl rfl rfl)

theorem allocLocked_inodeFrame (hbpg : 0 < fs.sbi.sBlocksPerGroup) {reservation : Bool}
    {iblock maxblocks : Nat} {offsets : List Nat} {blocksToBoundary : Int} {chain : List Indirect}
    {mapped : Mapped} (hrun : allocLocked ops env ino fuel reservation fs iblock maxblocks offsets
      blocksToBoundary chain = .done (fs', mapped)) : fs.InodeFrame fs' ino := by
  unfold allocLocked at hrun
  obtain ⟨info, rsv, hinit⟩ : ∃ info rsv, initBlockAllocInfo env ino reservation fs = { fs with
      inode := Function.update fs.inode ino { fs.inode ino with iBlockAllocInfo := info }
      rsv := rsv } := initBlockAllocInfo_eq reservation fs
  have hstart : fs.InodeFrame (initBlockAllocInfo env ino reservation fs) ino := by
    have hinfo : fs.InodeFrame { fs with
        inode := Function.update fs.inode ino { fs.inode ino with iBlockAllocInfo := info } } ino :=
      .update rfl rfl rfl
    rw [hinit]
    exact hinfo.trans (.of_inode rfl rfl rfl)
  obtain ⟨⟨fs₁, outcome⟩, halloc, hrest⟩ := Exec.bind_eq_done.mp hrun
  have hbpg₀ : 0 < (initBlockAllocInfo env ino reservation fs).sbi.sBlocksPerGroup := by
    rw [hstart.sbi]
    exact hbpg
  have hbranch := hstart.trans (krAllocBranch_inodeFrame hbpg₀ halloc)
  cases outcome with
  | error err =>
    cases hrest
    exact hbranch
  | ok found =>
    cases hrest
    exact hbranch.trans (krSpliceBranch_inodeFrame _ _ _ _ _ _)

/-- `kr_get_blocks` leaves the flags and the generation number, whatever goes on besides. -/
theorem krGetBlocks_inodeFrame (hbpg : 0 < fs.sbi.sBlocksPerGroup) {reservation create : Bool}
    {iblock maxblocks : Nat} {mapped : Mapped}
    (hrun : krGetBlocks ops env ino fuel reservation fs iblock maxblocks create =
      .done (fs', mapped)) : fs.InodeFrame fs' ino := by
  have same : ∀ {m : Mapped}, Exec.done (fs, m) = .done (fs', mapped) → fs.InodeFrame fs' ino := by
    intro m heq
    cases heq
    exact .refl fs ino
  unfold krGetBlocks at hrun
  generalize fs.path iblock = path at hrun
  dsimp only at hrun
  split at hrun
  · cases hrun
  split at hrun
  · exact same hrun
  generalize krGetBranch env.look env.bread path.1 = first at hrun
  generalize (if first.complete then some Errno.eagain else first.err) = err at hrun
  split at hrun
  · exact same hrun
  split at hrun
  · exact same hrun
  split at hrun
  · exact same hrun
  · exact allocLocked_inodeFrame hbpg hrun

end Map

/-! ## Sizes and attributes -/

section Attributes

variable {ops : Rebalance Window} {ino : Nat} {fs : Fs}

theorem truncateBlocks_inodeFrame (env : TruncEnv) (fs : Fs) (ino : Nat) (offset : Int) :
    fs.InodeFrame (truncateBlocks ops env fs ino offset) ino := by
  unfold truncateBlocks
  dsimp only
  split
  · exact .refl fs ino
  · generalize truncatePtrs env.readPath env.bread fs.addrPerBlock _ (fs.mem ino) = res
    obtain ⟨m, calls⟩ := res
    obtain ⟨rsv, hrsv⟩ :=
      (freeCalls env.readBitmap ino (fs.setMem ino m) calls).discardReservation_rsv ops ino
    have hfreed := (fs.setMem_inodeFrame ino m).trans (freeCalls_inodeFrame env.readBitmap _ ino calls)
    rw [hrsv]
    exact hfreed.trans (.of_inode rfl rfl rfl)

theorem krSetsize_inodeFrame (env : SetattrEnv) (fs : Fs) (ino newsize : Nat) :
    fs.InodeFrame (krSetsize ops env ino fs newsize).1 ino := by
  unfold krSetsize
  split
  · exact .refl fs ino
  · split
    · exact .refl fs ino
    · have hsize : fs.InodeFrame { fs with
          inode := Function.update fs.inode ino { fs.inode ino with iSize := newsize } } ino :=
        .update rfl rfl rfl
      exact (hsize.trans (truncateBlocks_inodeFrame env.trunc _ ino newsize)).trans (.update rfl rfl rfl)

/-- `setattr_copy` sets owners, the mode and the times. -/
def SetattrEnv.CopiesAttributes (env : SetattrEnv) : Prop := ∀ inode attr,
  (env.setattrCopy inode attr).iGeneration = inode.iGeneration ∧
    (env.setattrCopy inode attr).iFlags = inode.iFlags ∧
    (env.setattrCopy inode attr).sFlags = inode.sFlags

theorem krSetattr_inodeFrame {Q : Type} (quota : QuotaOps Q) {env : SetattrEnv}
    (hcopy : env.CopiesAttributes) (q : Q) (fs : Fs) (ino : Nat) :
    fs.InodeFrame (krSetattr quota ops env ino q fs).2.1 ino := by
  unfold krSetattr
  cases hprepare : env.prepare with
  | error err => exact .refl fs ino
  | ok attr =>
    dsimp only
    have hcharge : fs.InodeFrame (setattrCharge quota ops env ino q fs attr).2.1 ino := by
      unfold setattrCharge
      dsimp only
      split
      · exact .refl fs ino
      · split
        · exact .refl fs ino
        · split
          · exact krSetsize_inodeFrame env fs ino attr.iaSize
          · exact .refl fs ino
    rcases hres : setattrCharge quota ops env ino q fs attr with ⟨q₁, fs₁, err⟩
    rw [hres] at hcharge
    cases err with
    | some err => exact hcharge
    | none =>
      obtain ⟨hgeneration, hflags, hsFlags⟩ := hcopy (fs₁.inode ino) attr
      exact hcharge.trans (.update hgeneration hflags hsFlags)

end Attributes

/-! ## Steps of the store -/

namespace InodeStore

variable {ops : Rebalance Window} {st : InodeStore} {ino : Nat} {fs' : Fs}

/-- A call that keeps flags and generation number changes the file of the inode, as long as
the disk format can hold what comes of it. -/
theorem changed_step (held : st.cached ino = true) (frame : st.fs.InodeFrame fs' ino)
    (fits : (fs'.inode ino).Fits st.mount) :
    Step ops st (.edited ino (.changed (fs'.inode ino)))
      { st with
        fs := fs'
        dirty := Function.update st.dirty ino true } := by
  refine .changed held ⟨frame.sbi, frame.inodeBitmap, frame.others, fits, frame.generation,
    Or.inl frame.flags, ?_⟩
  rw [frame.sFlags]

/-- The end of `kr_set_link`, `kr_add_link` and `kr_delete_entry`. -/
def entryChanged (now : Int) (inode : Inode) : Inode :=
  { inode with
    iMtime := now
    iCtime := now
    iFlags := inode.iFlags &&& ~~~KR_BTREE_FL }

/-- A change of an entry, which may have given the directory a block, is a step too. -/
theorem entryChanged_step (held : st.cached ino = true) (frame : st.fs.InodeFrame fs' ino)
    (now : Int) (fits : (entryChanged now (fs'.inode ino)).Fits st.mount) :
    Step ops st (.edited ino (.changed (entryChanged now (fs'.inode ino))))
      { st with
        fs := { fs' with inode := Function.update fs'.inode ino (entryChanged now (fs'.inode ino)) }
        dirty := Function.update st.dirty ino true } := by
  have hchanges : st.Changes ino
      { fs' with inode := Function.update fs'.inode ino (entryChanged now (fs'.inode ino)) } := by
    constructor
    · exact frame.sbi
    · exact frame.inodeBitmap
    · exact fun i hi => (Function.update_of_ne hi _ _).trans (frame.others i hi)
    · simpa using fits
    · simpa [entryChanged] using frame.generation
    · simp [entryChanged, frame.flags]
    · simp [entryChanged, frame.sFlags]
  have hstep : Step ops st _ _ := Step.changed held hchanges
  simpa using hstep

end InodeStore

end KrFs
