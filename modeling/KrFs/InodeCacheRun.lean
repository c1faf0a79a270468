import KrFs.Lib.Trace
import KrFs.InodeCache

/-!
# Runs over the inode cache

Reading, writing back and dropping do not show in the files, and every other call does to
them what it does to the inode in the cache. A number that has been given up is stale until
it is given to a new file.
-/

namespace KrFs

open SearchTree

/-! ## Other inodes -/

section Others

variable {ops : Rebalance Window} {fs : Fs} {ino i : Nat}

theorem krFreeBlocks_other (readBitmap : Nat → Bool) (block count : Nat) (hi : i ≠ ino) :
    (krFreeBlocks readBitmap fs ino block count).inode i = fs.inode i := by
  unfold krFreeBlocks
  split
  · rfl
  · obtain ⟨-, hinode⟩ := freeBlocksLoop_frame readBitmap (count + 1) fs block count 0
    generalize freeBlocksLoop readBitmap (count + 1) fs block count 0 = res at hinode
    obtain ⟨fs', freed⟩ := res
    dsimp only at hinode ⊢
    split
    · rw [settleFreed_inode, if_neg hi, hinode, Inode.addSectors, Int.add_zero]
    · rw [hinode]

theorem freeCalls_other (readBitmap : Nat → Bool) (hi : i ≠ ino) (calls : List (Nat × Nat)) :
    ∀ fs : Fs, (freeCalls readBitmap ino fs calls).inode i = fs.inode i := by
  induction calls with
  | nil => exact fun _ => rfl
  | cons c calls ih =>
    intro fs
    rw [freeCalls, List.foldl_cons]
    exact (ih _).trans (krFreeBlocks_other readBitmap c.1 c.2 hi)

theorem truncateBlocks_other (env : TruncEnv) (offset : Int) (hi : i ≠ ino) :
    (truncateBlocks ops env fs ino offset).inode i = fs.inode i := by
  unfold truncateBlocks
  dsimp only
  split
  · rfl
  · generalize truncatePtrs env.readPath env.bread fs.addrPerBlock _ (fs.mem ino) = res
    obtain ⟨m, calls⟩ := res
    obtain ⟨rsv, hrsv⟩ :=
      (freeCalls env.readBitmap ino (fs.setMem ino m) calls).discardReservation_rsv ops ino
    have hset : (fs.setMem ino m).inode i = fs.inode i := Function.update_of_ne hi _ _
    rw [hrsv]
    exact (freeCalls_other env.readBitmap hi calls _).trans hset

/-- What the eviction of an inode leaves of the others. -/
structure Fs.OthersKept (fs fs' : Fs) (ino : Nat) : Prop where
  sbi : fs'.sbi = fs.sbi
  inode : ∀ i, i ≠ ino → fs'.inode i = fs.inode i
  bits : ∀ g b, g ≠ inodeGroup fs.sbi ino ∨ b ≠ inodeIndex fs.sbi ino →
    fs'.inodeBitmap g b = fs.inodeBitmap g b

theorem Fs.OthersKept.refl (fs : Fs) (ino : Nat) : fs.OthersKept fs ino :=
  ⟨rfl, fun _ _ => rfl, fun _ _ _ => rfl⟩

theorem Fs.OthersKept.trans {a b c : Fs} (h1 : a.OthersKept b ino) (h2 : b.OthersKept c ino) :
    a.OthersKept c ino := by
  constructor
  · exact h2.sbi.trans h1.sbi
  · exact fun i hi => (h2.inode i hi).trans (h1.inode i hi)
  · intro g bit hne
    have hne' := hne
    rw [← h1.sbi] at hne'
    exact (h2.bits g bit hne').trans (h1.bits g bit hne)

/-- A new inode in one place. -/
theorem Fs.othersKept_update (fs : Fs) (ino : Nat) (inode : Inode) :
    fs.OthersKept { fs with inode := Function.update fs.inode ino inode } ino :=
  ⟨rfl, fun _ hi => Function.update_of_ne hi _ _, fun _ _ _ => rfl⟩

theorem evictTruncate_others (env : EvictEnv) :
    fs.OthersKept (evictTruncate ops env ino fs) ino := by
  have hcut : ∀ fs : Fs, fs.OthersKept (krTruncateBlocks ops env ino fs 0) ino := by
    intro fs
    unfold krTruncateBlocks
    dsimp only
    split
    · exact .refl fs ino
    split
    · exact .refl fs ino
    split
    · exact .refl fs ino
    · have hframe : fs.EvictFrame (truncateBlocks ops env.trunc fs ino 0) env.trunc.readBitmap ino :=
        truncateBlocks_frame 0
      constructor
      · exact hframe.sbi
      · exact fun i hi => truncateBlocks_other env.trunc 0 hi
      · exact fun g b _ => congrFun (congrFun hframe.inodeBitmap g) b
  unfold evictTruncate
  dsimp only
  have hset := (fs.othersKept_update ino { fs.inode ino with iDtime := env.now }).trans
    (Fs.othersKept_update _ ino
      { (Function.update fs.inode ino { fs.inode ino with iDtime := env.now }) ino with iSize := 0 })
  split
  · exact hset.trans (hcut _)
  · exact hset

theorem setInodeBit_other {group bit g b : Nat} {v : Bool} (hne : g ≠ group ∨ b ≠ bit) :
    (fs.setInodeBit group bit v).inodeBitmap g b = fs.inodeBitmap g b := by
  unfold Fs.setInodeBit
  by_cases hg : g = group
  · subst hg
    have hb : b ≠ bit := hne.resolve_left fun h => h rfl
    dsimp only
    rw [Function.update_self, Function.update_of_ne hb]
  · dsimp only
    rw [Function.update_of_ne hg]

theorem setInodeBit_mono {group bit g b : Nat} (h : fs.inodeBitmap g b = true) :
    (fs.setInodeBit group bit true).inodeBitmap g b = true := by
  by_cases hplace : g ≠ group ∨ b ≠ bit
  · rw [setInodeBit_other hplace]
    exact h
  · rw [not_or, not_not, not_not] at hplace
    obtain ⟨rfl, rfl⟩ := hplace
    unfold Fs.setInodeBit
    dsimp only
    rw [Function.update_self, Function.update_self]

theorem krFreeInode_others (readBitmap : Nat → Bool) :
    fs.OthersKept (fs.krFreeInode readBitmap ino) ino := by
  have hbits := krFreeInode_bitmap fs readBitmap ino
  cases hfrees : fs.frees readBitmap ino with
  | false =>
    rw [krFreeInode_keeps hfrees]
    exact .refl fs ino
  | true =>
    rw [hfrees, if_pos rfl] at hbits
    have hcall : (fs.krFreeInode readBitmap ino).sbi = fs.sbi ∧
        (fs.krFreeInode readBitmap ino).inode = fs.inode := by
      rw [krFreeInode_frees hfrees]
      unfold Fs.krReleaseInode
      split
      · exact ⟨rfl, rfl⟩
      · exact ⟨rfl, rfl⟩
    constructor
    · exact hcall.1
    · exact fun i _ => congrFun hcall.2 i
    · intro g b hne
      rw [hbits]
      exact setInodeBit_other hne

theorem krEvictInode_others (env : EvictEnv) :
    fs.OthersKept (krEvictInode ops env ino fs) ino := by
  have hdiscard : ∀ fs : Fs, fs.OthersKept (fs.discardReservation ops ino) ino := by
    intro fs
    obtain ⟨rsv, hrsv⟩ := fs.discardReservation_rsv ops ino
    rw [hrsv]
    exact ⟨rfl, fun _ _ => rfl, fun _ _ _ => rfl⟩
  unfold krEvictInode
  dsimp only
  split
  · exact (((evictTruncate_others env).trans (hdiscard _)).trans
      (Fs.othersKept_update _ ino _)).trans (krFreeInode_others env.readInodeBitmap)
  · exact (hdiscard fs).trans (Fs.othersKept_update _ ino _)

/-- The eviction of an inode with links only drops its reservation. -/
theorem krEvictInode_linked (env : EvictEnv) (hlinked : (fs.inode ino).iNlink ≠ 0) :
    (krEvictInode ops env ino fs).inodeBitmap = fs.inodeBitmap := by
  obtain ⟨rsv, hrsv⟩ := fs.discardReservation_rsv ops ino
  have hkeep : ((fs.inode ino).iNlink == 0 && !env.isBadInode) = false := by
    simp [hlinked]
  unfold krEvictInode
  simp only [hkeep, Bool.false_eq_true, if_false]
  rw [hrsv]

end Others

namespace InodeStore

/-! ## Steps -/

/-- The inode that another part of the file system changes, with its flags and generation
number kept. That quotas are turned on, which marks their files in the VFS, is left out. -/
structure Changes (st : InodeStore) (ino : Nat) (fs' : Fs) : Prop where
  sbi : fs'.sbi = st.fs.sbi
  inodeBitmap : fs'.inodeBitmap = st.fs.inodeBitmap
  others : ∀ i, i ≠ ino → fs'.inode i = st.fs.inode i
  fits : (fs'.inode ino).Fits st.mount
  generation : (fs'.inode ino).iGeneration = (st.fs.inode ino).iGeneration
  flags : (fs'.inode ino).iFlags = (st.fs.inode ino).iFlags ∨
    (fs'.inode ino).iFlags = (st.fs.inode ino).iFlags &&& ~~~KR_BTREE_FL
  sFlags : storedSFlags (fs'.inode ino).sFlags = storedSFlags (st.fs.inode ino).sFlags

/-- What a call of `kr_ioctl` does to the files. -/
def ioctlEvent (env : IoctlEnv) (ino : Nat) (cmd : IoctlCmd)
    (res : Except IoctlError (Option UInt32)) : FileEvent :=
  match cmd, res, env.getUser with
  | .setflags, .ok _, some flags => .edited ino (.setflags flags env.capable env.now)
  | .setversion, .ok _, some generation => .edited ino (.setversion generation env.now)
  | _, _, _ => .still

/-- One call on the inodes, or one change of an inode in the cache. An inode is dropped when
it is clean and linked; one without links is deleted. The clock is not at 0 then. -/
inductive Step (ops : Rebalance Window) : InodeStore → FileEvent → InodeStore → Prop
  | iget {st st' : InodeStore} {allocOk : Bool} {ino : Nat} {res : Except Errno Inode}
      (call : st.krIget allocOk ino = (res, st')) : Step ops st .still st'
  | nfs {st st' : InodeStore} {allocOk : Bool} {ino : Nat} {generation : UInt32}
      {res : Except Errno Inode} (call : st.krNfsGetInode allocOk ino generation = (res, st')) :
      Step ops st .still st'
  | changed {st : InodeStore} {ino : Nat} {fs' : Fs} (held : st.cached ino = true)
      (changes : st.Changes ino fs') :
      Step ops st (.edited ino (.changed (fs'.inode ino)))
        { st with
          fs := fs'
          dirty := Function.update st.dirty ino true }
  | wrote {st : InodeStore} {ino : Nat} (syncFails : Bool) (held : st.cached ino = true) :
      Step ops st .still (st.krWriteInode syncFails ino).2
  | dropped {st : InodeStore} {ino : Nat} (evict : EvictEnv) (syncFails : Bool)
      (held : st.cached ino = true) (clean : st.dirty ino = false)
      (linked : (st.fs.inode ino).iNlink ≠ 0) :
      Step ops st .still (st.krEvictInode ops evict syncFails ino)
  | deleted {st : InodeStore} {ino : Nat} {evict : EvictEnv} (syncFails : Bool)
      (held : st.cached ino = true) (unlinked : (st.fs.inode ino).iNlink = 0)
      (good : evict.isBadInode = false) (clock : evict.now ≠ 0) :
      Step ops st (.deleted ino) (st.krEvictInode ops evict syncFails ino)
  | created {st st' : InodeStore} {env : NewInodeEnv} {evict : EvictEnv} {syncFails : Bool}
      {dir ino : Nat} {mode : UInt16} (parent : st.cached dir = true)
      (call : st.krNewInode ops evict syncFails env dir mode = some (.ok ino, st'))
      (fits : (st'.fs.inode ino).Fits st.mount) :
      Step ops st (.created dir ino mode (st'.fs.inode ino)) st'
  | refused {st st' : InodeStore} {env : NewInodeEnv} {evict : EvictEnv} {syncFails : Bool}
      {dir : Nat} {mode : UInt16} {err : Errno} (good : evict.isBadInode = false)
      (clock : evict.now ≠ 0)
      (call : st.krNewInode ops evict syncFails env dir mode = some (.error err, st')) :
      Step ops st (if st'.sNextGeneration = st.sNextGeneration then .still else .drawn) st'
  | ioctl {st st' : InodeStore} {env : IoctlEnv} {alloc : GetBlocksEnv} {ino : Nat}
      {cmd : IoctlCmd} {res : Except IoctlError (Option UInt32)} (held : st.cached ino = true)
      (clock : -2 ^ 31 ≤ env.now ∧ env.now < 2 ^ 31)
      (call : st.krIoctl env alloc ino cmd = (res, st')) :
      Step ops st (ioctlEvent env ino cmd res) st'

section Steps

variable {ops : Rebalance Window} {st st' : InodeStore} {ino : Nat} {inode : Inode}

theorem Frame.refl (st : InodeStore) (ino : Nat) : st.Frame st ino :=
  ⟨.refl _, fun _ _ => rfl, fun _ _ => rfl, fun _ _ => rfl, fun _ _ _ _ => rfl,
    fun _ _ _ h => h⟩

/-- A step that leaves the table and the superblock. -/
theorem frame_of_fs (hmount : st'.mount = st.mount) (htable : st'.table = st.table)
    (hcached : ∀ i, i ≠ ino → st'.cached i = st.cached i)
    (hdirty : ∀ i, i ≠ ino → st'.dirty i = st.dirty i)
    (hinode : ∀ i, i ≠ ino → st'.fs.inode i = st.fs.inode i)
    (hused : ∀ i, i ≠ ino → inodeInRange st.fs.sbi i = true → st.used i = true →
      st'.used i = true) : st.Frame st' ino := by
  constructor
  · rw [hmount]
    exact .refl _
  · exact hcached
  · exact hdirty
  · exact hinode
  · exact fun i slot _ _ => congrFun htable slot
  · exact hused

/-- Nothing changes. -/
theorem Sound.still (h : st.Sound) : st.Sound ∧ st.files = st.files.after .still := ⟨h, rfl⟩

theorem files_eq {file : Nat → Option Inode} (hfile : st'.files.file = file)
    (hnext : st'.sNextGeneration = st.sNextGeneration) :
    st'.files = { st.files with file := file } := by
  have hsplit : st'.files = ⟨st'.files.file, st'.sNextGeneration⟩ := rfl
  rw [hsplit, hfile, hnext]
  rfl

/-- A step that does not show. -/
theorem Sound.unseen (h : st.Sound) (frame : st.Frame st' ino)
    (hcache : st'.cache.Coherent (slotRead st.mount) Inode.image ∧
      st'.cache.contents (slotRead st.mount) Inode.image = st.files.file)
    (hdev : st'.dev = st.dev) (hnext : st'.sNextGeneration = st.sNextGeneration)
    (hrange : st'.cached ino = true → inodeInRange st.fs.sbi ino = true)
    (hfits : ∀ inode, st'.cache.look (slotRead st.mount) ino = some inode →
      inode.Fits st.mount ∧ FlagsAgree inode)
    (hused : st.used ino = true → st'.used ino = true)
    (hstale : inodeInRange st.fs.sbi ino = true → st.files.file ino = none →
      KrFs.krIget st.mount st'.table ino = .error .estale) :
    st'.Sound ∧ st'.files = st.files.after .still := by
  obtain ⟨hsound, hfile⟩ := h.settle frame hcache hdev hrange hfits
    (fun hne => hused (h.used ino hne)) hstale
  exact ⟨hsound, files_eq hfile hnext⟩

/-- A file that is held is not missing. -/
theorem file_of_cached (hheld : st.cached ino = true) :
    st.files.file ino = some (st.fs.inode ino).image := by
  have hlook : st.cache.look (slotRead st.mount) ino = some (st.fs.inode ino) :=
    WriteBack.look_held (cache_held hheld)
  exact congrArg (Option.map Inode.image) hlook

theorem Sound.fits_of_cached (h : st.Sound) (hheld : st.cached ino = true) :
    (st.fs.inode ino).Fits st.mount ∧ FlagsAgree (st.fs.inode ino) :=
  h.fits ino _ (WriteBack.look_held (cache_held hheld))

theorem Sound.iget (h : st.Sound) (allocOk : Bool) (ino : Nat) :
    (st.krIget allocOk ino).2.Sound ∧
      (st.krIget allocOk ino).2.files = st.files.after .still := by
  unfold InodeStore.krIget
  split
  · exact h.still
  split
  · exact h.still
  rename_i hcached _
  have hnone : st.cached ino = false := by simpa using hcached
  cases hread : KrFs.krIget st.mount st.table ino with
  | error err => exact h.still
  | ok inode =>
    dsimp only
    have hslot : slotRead st.mount ino (st.cache.table ino) = some inode := by
      rw [slotRead_table, hread]
      rfl
    have hrange : inodeInRange st.fs.sbi ino = true := by
      apply h.range_of_file
      have hlook : st.cache.look (slotRead st.mount) ino = some inode :=
        (WriteBack.look_table (cache_not_held hnone)).trans hslot
      have hfile : st.files.file ino = some inode.image := congrArg (Option.map Inode.image) hlook
      rw [hfile]
      exact Option.some_ne_none _
    set st' : InodeStore := { st.setInode ino inode with
      cached := Function.update st.cached ino true
      dirty := Function.update st.dirty ino false }
    have frame : st.Frame st' ino := by
      apply frame_of_fs
      · rfl
      · rfl
      · exact fun i hi => Function.update_of_ne hi _ _
      · exact fun i hi => Function.update_of_ne hi _ _
      · exact fun i hi => Function.update_of_ne hi _ _
      · exact fun _ _ _ hused => hused
    have hheld : st'.cache.held ino = some inode := by
      have hcached' : st'.cached ino = true := Function.update_self _ _ _
      rw [cache_held hcached']
      exact congrArg some (Function.update_self _ _ _)
    have hlook : st.cache.look (slotRead st.mount) ino = some inode :=
      (WriteBack.look_table (cache_not_held hnone)).trans hslot
    apply h.unseen frame
    · exact WriteBack.load frame.touches h.coherent (cache_not_held hnone) hslot hheld rfl
    · rfl
    · rfl
    · exact fun _ => hrange
    · intro found hfound
      rw [WriteBack.look_held hheld] at hfound
      obtain rfl := Option.some.inj hfound
      exact h.fits ino _ hlook
    · exact id
    · intro hin hfile
      exact h.stale ino hin hfile

theorem Sound.nfs (h : st.Sound) (allocOk : Bool) (ino : Nat) (generation : UInt32) :
    (st.krNfsGetInode allocOk ino generation).2.Sound ∧
      (st.krNfsGetInode allocOk ino generation).2.files = st.files.after .still := by
  obtain ⟨hsound, hfiles⟩ := h.iget allocOk ino
  unfold krNfsGetInode
  split
  · exact h.still
  split
  · exact h.still
  generalize st.krIget allocOk ino = res at hsound hfiles
  obtain ⟨res, st'⟩ := res
  cases res with
  | error err => exact ⟨hsound, hfiles⟩
  | ok inode =>
    dsimp only
    split
    · exact ⟨hsound, hfiles⟩
    · exact ⟨hsound, hfiles⟩

section SameSuper

variable {fs' : Fs}

/-- With the superblock the mount, the slots and the places of the bits stay. -/
theorem mount_of_sbi (hsbi : fs'.sbi = st.fs.sbi) :
    ({ st with fs := fs' } : InodeStore).mount = st.mount := by
  have hsplit : ({ st with fs := fs' } : InodeStore).mount =
      ⟨fs'.sbi, st.noUid32, st.dax, st.dev, st.bread⟩ := rfl
  rw [hsplit, hsbi]
  rfl

theorem table_of_sbi (hsbi : fs'.sbi = st.fs.sbi) :
    ({ st with fs := fs' } : InodeStore).cache.table = st.cache.table := by
  have hsplit : ({ st with fs := fs' } : InodeStore).cache.table =
      fun i => (krGetInode fs'.sbi st.bread i).toOption.map st.table := rfl
  rw [hsplit, hsbi]
  rfl

theorem used_of_sbi (hsbi : fs'.sbi = st.fs.sbi) (i : Nat) :
    ({ st with fs := fs' } : InodeStore).used i =
      fs'.inodeBitmap (inodeGroup st.fs.sbi i) (inodeIndex st.fs.sbi i) := by
  rw [← hsbi]
  rfl

end SameSuper

/-- An inode in the cache changes and is dirty from now on. -/
theorem Sound.put {fs' : Fs} (h : st.Sound) (hheld : st.cached ino = true)
    (hsbi : fs'.sbi = st.fs.sbi) (hbits : fs'.inodeBitmap = st.fs.inodeBitmap)
    (hothers : ∀ i, i ≠ ino → fs'.inode i = st.fs.inode i)
    (hfits : (fs'.inode ino).Fits st.mount) (hagree : FlagsAgree (fs'.inode ino))
    {edit : FileEdit}
    (himage : (fs'.inode ino).image = edit.apply (st.fs.inode ino).image) :
    let st' : InodeStore := { st with
      fs := fs'
      dirty := Function.update st.dirty ino true }
    st'.Sound ∧ st'.files = st.files.after (.edited ino edit) := by
  intro st'
  have hmount : st'.mount = st.mount := mount_of_sbi hsbi
  have hsame : ∀ i, st'.used i = st.used i := by
    intro i
    have hplace := used_of_sbi hsbi i
    rw [hbits] at hplace
    exact hplace
  have frame : st.Frame st' ino := by
    apply frame_of_fs hmount rfl
    · exact fun _ _ => rfl
    · exact fun i hi => Function.update_of_ne hi _ _
    · exact hothers
    · intro i _ _ hused
      rw [hsame]
      exact hused
  have hheld' : st'.cache.held ino = some (fs'.inode ino) := cache_held hheld
  have hcache := WriteBack.put frame.touches h.coherent hheld' (Function.update_self _ _ _)
  obtain ⟨hsound, hfile⟩ := h.settle frame hcache rfl (fun _ => h.range ino hheld)
    (fun found hfound => by
      rw [WriteBack.look_held hheld'] at hfound
      obtain rfl := Option.some.inj hfound
      exact ⟨hfits, hagree⟩)
    (fun _ => by
      rw [hsame]
      apply h.used
      rw [file_of_cached hheld]
      exact Option.some_ne_none _)
    (fun _ hnone => by
      rw [Function.update_self] at hnone
      cases hnone)
  refine ⟨hsound, ?_⟩
  rw [files_eq hfile rfl, FileTable.after, file_of_cached hheld, Option.map_some, himage]
  rfl

/-- The flag words agree if the flags that both hold are the same as before. -/
theorem flagsAgree_congr {old : Inode} (agree : FlagsAgree old)
    (hflags : inode.iFlags = old.iFlags ∨ inode.iFlags = old.iFlags &&& ~~~KR_BTREE_FL)
    (hsFlags : storedSFlags inode.sFlags = storedSFlags old.sFlags) : FlagsAgree inode := by
  have hword : ∀ bit : UInt32, ~~~KR_BTREE_FL &&& bit = bit →
      inode.iFlags &&& bit = old.iFlags &&& bit := by
    intro bit hbit
    rcases hflags with hsame | hclear
    · rw [hsame]
    · rw [hclear, UInt32.and_assoc, hbit]
  have hvfs : ∀ bit : UInt32, (S_SYNC ||| S_APPEND ||| S_IMMUTABLE ||| S_NOATIME ||| S_DIRSYNC) &&&
      bit = bit → inode.sFlags &&& bit = old.sFlags &&& bit := by
    intro bit hbit
    rw [← hbit, ← UInt32.and_assoc, ← UInt32.and_assoc]
    exact congrArg (· &&& bit) hsFlags
  constructor
  · rw [hword _ (by decide), hvfs _ (by decide)]
    exact agree.sync
  · rw [hword _ (by decide), hvfs _ (by decide)]
    exact agree.append
  · rw [hword _ (by decide), hvfs _ (by decide)]
    exact agree.immutable
  · rw [hword _ (by decide), hvfs _ (by decide)]
    exact agree.noatime
  · rw [hword _ (by decide), hvfs _ (by decide)]
    exact agree.dirsync

theorem Sound.change {fs' : Fs} (h : st.Sound) (hheld : st.cached ino = true)
    (changes : st.Changes ino fs') :
    let st' : InodeStore := { st with
      fs := fs'
      dirty := Function.update st.dirty ino true }
    st'.Sound ∧ st'.files = st.files.after (.edited ino (.changed (fs'.inode ino))) := by
  apply h.put hheld changes.sbi changes.inodeBitmap changes.others changes.fits
  · exact flagsAgree_congr (h.fits_of_cached hheld).2 changes.flags changes.sFlags
  · have hflags : (if (fs'.inode ino).iFlags = (st.fs.inode ino).iFlags then
        (st.fs.inode ino).iFlags else (st.fs.inode ino).iFlags &&& ~~~KR_BTREE_FL) =
        (fs'.inode ino).iFlags := by
      rcases changes.flags with hsame | hclear
      · rw [if_pos hsame, hsame]
      · split
        · rename_i hsame
          exact hsame.symm
        · exact hclear.symm
    show (fs'.inode ino).image = { (fs'.inode ino).image with
      iGeneration := (st.fs.inode ino).iGeneration
      iFlags := if (fs'.inode ino).iFlags = (st.fs.inode ino).iFlags then
        (st.fs.inode ino).iFlags else (st.fs.inode ino).iFlags &&& ~~~KR_BTREE_FL }
    rw [hflags, ← changes.generation]
    rfl

/-- The store after `__kr_write_inode` has found the slot. -/
def stored (st : InodeStore) (ino : Nat) (slot : Nat × Nat) : InodeStore :=
  let inode := st.fs.inode ino
  { st with
    fs := { st.fs with
      sbi := { st.fs.sbi with sEs := largeFileSuper inode st.fs.sbi.sEs }
      inode := Function.update st.fs.inode ino { krGetInodeFlags inode with iStateNew := false } }
    table := fun s =>
      if s = slot then rawOfInode st.mount (krGetInodeFlags inode) (st.table slot) else st.table s
    dirty := Function.update st.dirty ino false }

theorem krWriteInode_stored {slot : Nat × Nat}
    (hslot : krGetInode st.fs.sbi st.bread ino = .ok slot) (syncFails : Bool) :
    (st.krWriteInode syncFails ino).2 = st.stored ino slot := by
  have hget : krGetInode st.mount.sbi st.mount.bread ino = .ok slot := hslot
  unfold krWriteInode KrFs.krWriteInode
  rw [hget]
  rfl

theorem stored_frame (slots : st.mount.Slots) {slot : Nat × Nat}
    (hslot : krGetInode st.fs.sbi st.bread ino = .ok slot) : st.Frame (st.stored ino slot) ino := by
  constructor
  · exact largeFileSuper_alike st.mount (st.fs.inode ino)
  · exact fun _ _ => rfl
  · exact fun i hi => Function.update_of_ne hi _ _
  · exact fun i hi => Function.update_of_ne hi _ _
  · intro i other hi hother
    apply if_neg
    rintro rfl
    exact hi (slots.apart i ino other hother hslot)
  · exact fun _ _ _ hused => hused

/-- The slot that was written. -/
theorem stored_table {slot : Nat × Nat} (hslot : krGetInode st.fs.sbi st.bread ino = .ok slot) :
    (st.stored ino slot).cache.table ino =
      some (rawOfInode st.mount (krGetInodeFlags (st.fs.inode ino)) (st.table slot)) := by
  have hget : krGetInode (st.stored ino slot).fs.sbi (st.stored ino slot).bread ino = .ok slot :=
    (krGetInode_largeFileSuper st.mount (st.fs.inode ino) ino).trans hslot
  rw [cache_table hget]
  exact congrArg some (if_pos rfl)

theorem Sound.wrote (h : st.Sound) (hheld : st.cached ino = true) (syncFails : Bool) :
    (st.krWriteInode syncFails ino).2.Sound ∧
      (st.krWriteInode syncFails ino).2.files = st.files.after .still := by
  obtain ⟨slot, hslot⟩ := h.slots.found ino (h.range ino hheld)
  obtain ⟨hfits, hagree⟩ := h.fits_of_cached hheld
  have frame := stored_frame h.slots hslot
  rw [krWriteInode_stored hslot]
  obtain ⟨after, hread, himage⟩ := hfits.reread hagree h.dev ino (st.table slot)
  have hheld' : (st.stored ino slot).cache.held ino =
      some { st.fs.inode ino with iStateNew := false } := by
    have hcached : (st.stored ino slot).cached ino = true := hheld
    rw [cache_held hcached]
    have hupdate : (st.stored ino slot).fs.inode ino =
        { krGetInodeFlags (st.fs.inode ino) with iStateNew := false } := Function.update_self _ _ _
    rw [hupdate, krGetInodeFlags_of_agree hagree]
  have hslotRead : (slotRead st.mount ino ((st.stored ino slot).cache.table ino)).map Inode.image =
      some (st.fs.inode ino).image := by
    rw [stored_table hslot, krGetInodeFlags_of_agree hagree, slotRead, Option.bind_some, hread,
      ← himage]
    rfl
  apply h.unseen frame
  · exact WriteBack.flush frame.touches h.coherent (cache_held hheld) hheld' rfl hslotRead
  · rfl
  · rfl
  · exact fun _ => h.range ino hheld
  · intro found hfound
    rw [WriteBack.look_held hheld'] at hfound
    obtain rfl := Option.some.inj hfound
    exact ⟨hfits.of_image rfl hfits.dtime, flagsAgree_congr hagree (Or.inl rfl) rfl⟩
  · exact id
  · intro _ hnone
    rw [file_of_cached hheld] at hnone
    cases hnone

theorem inodeInRange_lt {sbi : SbInfo} (h : inodeInRange sbi ino = true) : ino < 2 ^ 32 := by
  have hbound := sbi.sEs.sInodesCount.toNat_lt
  simp only [inodeInRange, Bool.not_eq_true', Bool.or_eq_false_iff, decide_eq_false_iff_not] at h
  omega

theorem Frame.trans {st'' : InodeStore} (h1 : st.Frame st' ino) (h2 : st'.Frame st'' ino) :
    st.Frame st'' ino := by
  have hrange : ∀ i, inodeInRange st'.fs.sbi i = inodeInRange st.fs.sbi i :=
    fun i => h1.mount.inRange
  have hget : ∀ i, krGetInode st'.fs.sbi st'.bread i = krGetInode st.fs.sbi st.bread i :=
    fun i => h1.mount.krGetInode
  constructor
  · exact h1.mount.trans h2.mount
  · exact fun i hi => (h2.cached i hi).trans (h1.cached i hi)
  · exact fun i hi => (h2.dirty i hi).trans (h1.dirty i hi)
  · exact fun i hi => (h2.inode i hi).trans (h1.inode i hi)
  · intro i slot hi hslot
    have hslot' := hslot
    rw [← hget] at hslot'
    exact (h2.table i slot hi hslot').trans (h1.table i slot hi hslot)
  · intro i hi hin hused
    have hin' := hin
    rw [← hrange] at hin'
    exact h2.used i hi hin' (h1.used i hi hin hused)

/-- The store when an inode has left the cache. -/
def forgotten (st : InodeStore) (ino : Nat) (fs' : Fs) : InodeStore :=
  { st with
    fs := fs'
    cached := Function.update st.cached ino false
    dirty := Function.update st.dirty ino false }

theorem forgotten_frame {fs' : Fs} (hothers : st.fs.OthersKept fs' ino)
    (hrange : inodeInRange st.fs.sbi ino = true) : st.Frame (st.forgotten ino fs') ino := by
  apply frame_of_fs
  · exact mount_of_sbi hothers.sbi
  · rfl
  · exact fun i hi => Function.update_of_ne hi _ _
  · exact fun i hi => Function.update_of_ne hi _ _
  · exact hothers.inode
  · intro i hi hin hused
    have hplace : inodeGroup st.fs.sbi i ≠ inodeGroup st.fs.sbi ino ∨
        inodeIndex st.fs.sbi i ≠ inodeIndex st.fs.sbi ino := by
      by_contra hsame
      rw [not_or, not_not, not_not] at hsame
      exact hi (inodePlace_injective (inodeInRange_lt hin) (inodeInRange_lt hrange) hsame.1 hsame.2)
    have hbit := used_of_sbi hothers.sbi i
    rw [hothers.bits _ _ hplace] at hbit
    exact hbit.trans hused

theorem forgotten_held (fs' : Fs) : (st.forgotten ino fs').cache.held ino = none :=
  cache_not_held (Function.update_self _ _ _)

theorem Sound.dropped (h : st.Sound) (ops : Rebalance Window) (evict : EvictEnv) (syncFails : Bool)
    (hheld : st.cached ino = true) (hclean : st.dirty ino = false)
    (hlinked : (st.fs.inode ino).iNlink ≠ 0) :
    (st.krEvictInode ops evict syncFails ino).Sound ∧
      (st.krEvictInode ops evict syncFails ino).files = st.files.after .still := by
  have hkeep : ((st.fs.inode ino).iNlink == 0 && !evict.isBadInode) = false := by
    simp [hlinked]
  have hothers : st.fs.OthersKept (KrFs.krEvictInode ops evict ino st.fs) ino :=
    krEvictInode_others evict
  have hbits : (KrFs.krEvictInode ops evict ino st.fs).inodeBitmap = st.fs.inodeBitmap :=
    krEvictInode_linked evict hlinked
  have hcall : st.krEvictInode ops evict syncFails ino =
      st.forgotten ino (KrFs.krEvictInode ops evict ino st.fs) := by
    unfold krEvictInode
    simp only [hkeep, Bool.false_eq_true, if_false]
    rfl
  rw [hcall]
  generalize KrFs.krEvictInode ops evict ino st.fs = fs' at hothers hbits
  have hrange := h.range ino hheld
  have frame := forgotten_frame hothers hrange
  obtain ⟨hfits, hagree⟩ := h.fits_of_cached hheld
  have htable : (st.forgotten ino fs').cache.table ino = st.cache.table ino :=
    congrFun (table_of_sbi hothers.sbi) ino
  apply h.unseen frame
  · exact WriteBack.drop frame.touches h.coherent (cache_held hheld) hclean (forgotten_held fs')
      htable
  · rfl
  · rfl
  · exact fun _ => hrange
  · intro found hfound
    rw [WriteBack.look_table (forgotten_held fs'), htable, slotRead_table] at hfound
    have himage := h.coherent ino _ (cache_held hheld) hclean
    rw [slotRead_table, hfound, Option.map_some, Option.some.injEq] at himage
    cases hread : KrFs.krIget st.mount st.table ino with
    | error err =>
      rw [hread] at hfound
      cases hfound
    | ok inode =>
      rw [hread] at hfound
      obtain rfl := Option.some.inj hfound
      exact ⟨hfits.of_image himage (krIget_dtime hread), krIget_agree hread⟩
  · intro hused
    have hbit := used_of_sbi hothers.sbi ino
    rw [hbits] at hbit
    exact hbit.trans hused
  · intro _ hnone
    rw [file_of_cached hheld] at hnone
    cases hnone

/-- An inode without links goes, whether or not it has ever been a file. -/
theorem Sound.evicted {st1 : InodeStore} (h : st.Sound) (frame : st.Frame st1 ino)
    (hdev : st1.dev = st.dev) (hrange : inodeInRange st.fs.sbi ino = true)
    (ops : Rebalance Window) {evict : EvictEnv} (syncFails : Bool)
    (hunlinked : (st1.fs.inode ino).iNlink = 0) (hgood : evict.isBadInode = false)
    (hclock : evict.now ≠ 0) :
    (st1.krEvictInode ops evict syncFails ino).Sound ∧
      (st1.krEvictInode ops evict syncFails ino).files =
        ⟨Function.update st.files.file ino none, st1.sNextGeneration⟩ := by
  have hdelete : ((st1.fs.inode ino).iNlink == 0 && !evict.isBadInode) = true := by
    simp [hunlinked, hgood]
  have hslots1 := frame.mount.slots h.slots
  have hrange1 : inodeInRange st1.fs.sbi ino = true := by
    have hsame : inodeInRange st1.fs.sbi ino = inodeInRange st.fs.sbi ino := frame.mount.inRange
    rw [hsame]
    exact hrange
  obtain ⟨slot, hslot⟩ := hslots1.found ino hrange1
  let dead : Inode := { st1.fs.inode ino with iDtime := evict.now }
  have hmark : st1.Frame (st1.setInode ino dead) ino := by
    apply frame_of_fs
    · rfl
    · rfl
    · exact fun _ _ => rfl
    · exact fun _ _ => rfl
    · exact fun i hi => Function.update_of_ne hi _ _
    · exact fun _ _ _ hused => hused
  have hslot' : krGetInode (st1.setInode ino dead).fs.sbi (st1.setInode ino dead).bread ino =
      .ok slot := hslot
  have hslots' : (st1.setInode ino dead).mount.Slots := hslots1
  have hstore := stored_frame hslots' hslot'
  have hwritten := stored_table hslot'
  have hmarked : (st1.setInode ino dead).fs.inode ino = dead := Function.update_self _ _ _
  rw [hmarked] at hwritten
  have hcall : st1.krEvictInode ops evict syncFails ino =
      ((st1.setInode ino dead).stored ino slot).forgotten ino
        (KrFs.krEvictInode ops evict ino ((st1.setInode ino dead).stored ino slot).fs) := by
    unfold krEvictInode
    simp only [hdelete, if_true]
    rw [krWriteInode_stored hslot']
    rfl
  rw [hcall]
  have hothers : ((st1.setInode ino dead).stored ino slot).fs.OthersKept
      (KrFs.krEvictInode ops evict ino ((st1.setInode ino dead).stored ino slot).fs) ino :=
    krEvictInode_others evict
  generalize KrFs.krEvictInode ops evict ino ((st1.setInode ino dead).stored ino slot).fs = fs'
    at hothers
  have hwhole := frame.trans (hmark.trans hstore)
  have hgone : inodeInRange ((st1.setInode ino dead).stored ino slot).fs.sbi ino = true := by
    have hsame : inodeInRange ((st1.setInode ino dead).stored ino slot).fs.sbi ino =
        inodeInRange st.fs.sbi ino := hwhole.mount.inRange
    rw [hsame]
    exact hrange
  have hframe := hwhole.trans (forgotten_frame hothers hgone)
  have hdropped : (((st1.setInode ino dead).stored ino slot).forgotten ino fs').cache.table ino =
      ((st1.setInode ino dead).stored ino slot).cache.table ino :=
    congrFun (table_of_sbi hothers.sbi) ino
  have htable := hdropped.trans hwritten
  have hstale : ∀ raw, inodeOfRaw st.mount ino
      (rawOfInode (st1.setInode ino dead).mount (krGetInodeFlags dead) raw) = .error .estale :=
    fun _ => inodeOfRaw_deleted hunlinked hclock
  obtain ⟨hsound, hfile⟩ := h.settle hframe
    (WriteBack.erase hframe.touches h.coherent (forgotten_held fs') (by
      rw [htable, slotRead, Option.bind_some, hstale]
      rfl))
    hdev (fun _ => hrange)
    (fun found hfound => by
      rw [WriteBack.look_table (forgotten_held fs'), htable, slotRead, Option.bind_some, hstale]
        at hfound
      cases hfound)
    (fun hne => absurd (Function.update_self _ _ _) hne)
    (fun _ _ => by
      have hsame : krGetInode st1.mount.sbi st1.mount.bread ino =
          krGetInode st.mount.sbi st.mount.bread ino := frame.mount.krGetInode
      have hget : krGetInode st.mount.sbi st.mount.bread ino = .ok slot := hsame.symm.trans hslot
      have hraw : (((st1.setInode ino dead).stored ino slot).forgotten ino fs').table slot =
          rawOfInode (st1.setInode ino dead).mount
            (krGetInodeFlags ((st1.setInode ino dead).fs.inode ino)) (st1.table slot) :=
        if_pos rfl
      rw [hmarked] at hraw
      rw [KrFs.krIget, hget]
      dsimp only
      rw [hraw]
      exact hstale _)
  exact ⟨hsound, congrArg (FileTable.mk · st1.sNextGeneration) hfile⟩

theorem Sound.deleted (h : st.Sound) (ops : Rebalance Window) {evict : EvictEnv} (syncFails : Bool)
    (hheld : st.cached ino = true) (hunlinked : (st.fs.inode ino).iNlink = 0)
    (hgood : evict.isBadInode = false) (hclock : evict.now ≠ 0) :
    (st.krEvictInode ops evict syncFails ino).Sound ∧
      (st.krEvictInode ops evict syncFails ino).files = st.files.after (.deleted ino) :=
  h.evicted (.refl st ino) rfl (h.range ino hheld) ops syncFails hunlinked hgood hclock

/-! ### New inodes -/

/-- What a search that finds nothing leaves: at most a bit is set. -/
theorem krNewInode_error {env : NewInodeEnv} {fs fs' : Fs} {dir : Nat} {mode : UInt16} {err : Errno}
    (hinsert : ∀ i, env.insert i = true) (hinit : env.quotaInit = none)
    (halloc : env.quotaAlloc = none)
    (h : KrFs.krNewInode env fs dir mode = some (.error err, fs')) :
    fs'.sbi = fs.sbi ∧ fs'.inode = fs.inode ∧
      ∀ g b, fs.inodeBitmap g b = true → fs'.inodeBitmap g b = true := by
  have hsame : fs.sbi = fs.sbi ∧ fs.inode = fs.inode ∧
      ∀ g b, fs.inodeBitmap g b = true → fs.inodeBitmap g b = true :=
    ⟨rfl, rfl, fun _ _ hbit => hbit⟩
  unfold KrFs.krNewInode at h
  split at h
  · obtain ⟨-, rfl⟩ := Prod.mk.inj (Option.some.inj h)
    exact hsame
  rw [Option.map_eq_some_iff] at h
  obtain ⟨found, -, h⟩ := h
  split at h
  · obtain ⟨-, rfl⟩ := Prod.mk.inj h
    exact hsame
  dsimp only at h
  split at h
  · obtain ⟨-, rfl⟩ := Prod.mk.inj h
    exact hsame
  split at h
  · obtain ⟨-, rfl⟩ := Prod.mk.inj h
    refine ⟨rfl, rfl, ?_⟩
    intro g b hbit
    exact setInodeBit_mono hbit
  rw [hinsert, hinit, halloc] at h
  simp at h

/-- The inode that the search for a number ends with. -/
structure Found (fs fs' : Fs) (env : NewInodeEnv) (dir ino : Nat) (mode : UInt16) : Prop where
  range : inodeInRange fs.sbi ino = true
  sbi : fs'.sbi = fs.sbi
  others : ∀ i, i ≠ ino → fs'.inode i = fs.inode i
  inode : ∃ group, fs'.inode ino = newInode env fs dir mode group
  clear : fs.inodeBitmap (inodeGroup fs.sbi ino) (inodeIndex fs.sbi ino) = false
  set : fs'.inodeBitmap (inodeGroup fs.sbi ino) (inodeIndex fs.sbi ino) = true
  bits : ∀ g b, fs.inodeBitmap g b = true → fs'.inodeBitmap g b = true

theorem krNewInode_found {env : NewInodeEnv} {fs fs' : Fs} {dir : Nat} {mode : UInt16}
    (h : KrFs.krNewInode env fs dir mode = some (.ok ino, fs')) :
    Found fs fs' env dir ino mode := by
  obtain ⟨hrange, -, hclear, hbitmap⟩ := krNewInode_bit h
  obtain ⟨hinit, halloc⟩ := krNewInode_ok h
  rw [← NewInodeEnv.granting_eq hinit halloc] at h
  obtain ⟨group, -, bit, -, -, -, hino, -, -, rfl, -⟩ := krNewInode_took h
  have hnumber : bit + (group * fs.sbi.sInodesPerGroup + 1) = ino := by omega
  have hinode : (createdInode env fs dir mode group bit).inode =
      Function.update fs.inode ino (newInode env fs dir mode group) := by
    rw [← hnumber]
    rfl
  constructor
  · exact hrange
  · rfl
  · intro i hi
    rw [hinode]
    exact Function.update_of_ne hi _ _
  · refine ⟨group, ?_⟩
    rw [hinode]
    exact Function.update_self _ _ _
  · exact hclear
  · rw [hbitmap]
    unfold Fs.setInodeBit
    dsimp only
    rw [Function.update_self, Function.update_self]
  · intro g b hbit
    rw [hbitmap]
    exact setInodeBit_mono hbit

/-- The environment of the search. -/
def searchEnv (env : NewInodeEnv) (generation : UInt32) : NewInodeEnv :=
  { env.granting with
    insert := fun _ => true
    generation := generation }

/-- The store with the new inode in the cache. -/
def entered (st : InodeStore) (ino : Nat) (fs' : Fs) : InodeStore :=
  { st with
    fs := fs'
    cached := Function.update st.cached ino true
    dirty := Function.update st.dirty ino true
    sNextGeneration := st.sNextGeneration + 1 }

/-- How a call ends: it found no number, the quota refused, or there is a new inode. -/
theorem krNewInode_ends {evict : EvictEnv} {syncFails : Bool} {env : NewInodeEnv} {dir : Nat}
    {mode : UInt16} {res : Except Errno Nat} (h : st.Sound)
    (call : st.krNewInode ops evict syncFails env dir mode = some (res, st')) :
    (∃ err fs', res = .error err ∧ st' = { st with fs := fs' } ∧ fs'.sbi = st.fs.sbi ∧
      fs'.inode = st.fs.inode ∧ ∀ g b, st.fs.inodeBitmap g b = true → fs'.inodeBitmap g b = true) ∨
    ∃ ino fs', Found st.fs fs' (searchEnv env st.sNextGeneration) dir ino mode ∧
      st.files.file ino = none ∧
      ((∃ err, res = .error err ∧ st' = (st.entered ino fs').failDrop ops evict syncFails ino) ∨
        res = .ok ino ∧ st' = st.entered ino fs') := by
  unfold InodeStore.krNewInode at call
  dsimp only at call
  rw [Option.map_eq_some_iff] at call
  obtain ⟨⟨found, fs'⟩, hsearch, hend⟩ := call
  dsimp only at hend
  cases found with
  | error err =>
    obtain ⟨rfl, rfl⟩ := Prod.mk.inj hend
    obtain ⟨hsbi, hinode, hbits⟩ := krNewInode_error (fun _ => rfl) rfl rfl hsearch
    exact Or.inl ⟨err, fs', rfl, rfl, hsbi, hinode, hbits⟩
  | ok ino =>
    have hfound : Found st.fs fs' (searchEnv env st.sNextGeneration) dir ino mode :=
      krNewInode_found hsearch
    have hnone : st.files.file ino = none := by
      by_contra hne
      have hused : st.used ino = true := h.used ino hne
      have hclear : st.used ino = false := hfound.clear
      rw [hclear] at hused
      cases hused
    have hcached : st.cached ino = false := by
      cases hheld : st.cached ino with
      | false => rfl
      | true =>
        rw [file_of_cached hheld] at hnone
        cases hnone
    refine Or.inr ⟨ino, fs', hfound, hnone, ?_⟩
    dsimp only at hend
    rw [hcached] at hend
    simp only [Bool.false_eq_true, if_false] at hend
    split at hend
    · obtain ⟨rfl, rfl⟩ := Prod.mk.inj hend
      exact Or.inl ⟨_, rfl, rfl⟩
    · obtain ⟨rfl, rfl⟩ := Prod.mk.inj hend
      exact Or.inl ⟨_, rfl, rfl⟩
    · obtain ⟨rfl, rfl⟩ := Prod.mk.inj hend
      exact Or.inr ⟨rfl, rfl⟩

theorem entered_frame {env : NewInodeEnv} {fs' : Fs} {dir : Nat} {mode : UInt16}
    (found : Found st.fs fs' env dir ino mode) : st.Frame (st.entered ino fs') ino := by
  apply frame_of_fs
  · exact mount_of_sbi found.sbi
  · rfl
  · exact fun i hi => Function.update_of_ne hi _ _
  · exact fun i hi => Function.update_of_ne hi _ _
  · exact found.others
  · exact fun i _ _ hused => (used_of_sbi found.sbi i).trans (found.bits _ _ hused)

theorem Sound.created {env : NewInodeEnv} {fs' : Fs} {dir : Nat} {mode : UInt16} (h : st.Sound)
    (found : Found st.fs fs' (searchEnv env st.sNextGeneration) dir ino mode)
    (hparent : st.cached dir = true) (hfits : (fs'.inode ino).Fits st.mount) :
    (st.entered ino fs').Sound ∧
      (st.entered ino fs').files = st.files.after (.created dir ino mode (fs'.inode ino)) := by
  have frame := entered_frame found
  have hheld : (st.entered ino fs').cache.held ino = some (fs'.inode ino) :=
    cache_held (Function.update_self _ _ _)
  obtain ⟨group, hinode⟩ := found.inode
  obtain ⟨hsound, hfile⟩ := h.settle frame
    (WriteBack.put frame.touches h.coherent hheld (Function.update_self _ _ _)) rfl
    (fun _ => found.range)
    (fun inode hlook => by
      rw [WriteBack.look_held hheld] at hlook
      obtain rfl := Option.some.inj hlook
      refine ⟨hfits, ?_⟩
      rw [hinode]
      exact krSetInodeFlags_agree false _)
    (fun _ => (used_of_sbi found.sbi ino).trans found.set)
    (fun _ hnone => by
      rw [Function.update_self] at hnone
      cases hnone)
  refine ⟨hsound, ?_⟩
  have hflags : st.files.flags dir = (st.fs.inode dir).iFlags := by
    rw [FileTable.flags, file_of_cached hparent]
    rfl
  have himage : (fs'.inode ino).image = { (fs'.inode ino).image with
      iGeneration := st.files.next
      iFlags := krMaskFlags mode (st.files.flags dir &&& KR_FL_INHERITED) } := by
    rw [hflags, hinode]
    rfl
  have hafter : st.files.after (.created dir ino mode (fs'.inode ino)) =
      ⟨Function.update st.files.file ino (some { (fs'.inode ino).image with
        iGeneration := st.files.next
        iFlags := krMaskFlags mode (st.files.flags dir &&& KR_FL_INHERITED) }),
        st.files.next + 1⟩ := rfl
  rw [hafter, ← himage]
  exact congrArg (FileTable.mk · (st.sNextGeneration + 1)) hfile

/-- The inodes in memory stay and no bit is cleared. -/
theorem Sound.sameInodes {fs' : Fs} (h : st.Sound) (hsbi : fs'.sbi = st.fs.sbi)
    (hinode : fs'.inode = st.fs.inode)
    (hbits : ∀ g b, st.fs.inodeBitmap g b = true → fs'.inodeBitmap g b = true) :
    ({ st with fs := fs' } : InodeStore).Sound ∧
      ({ st with fs := fs' } : InodeStore).files = st.files.after .still := by
  set st' : InodeStore := { st with fs := fs' } with hst'
  have hcache : st'.cache = st.cache := by
    have hsplit : st'.cache = ⟨fun i => if st.cached i then some (fs'.inode i) else none, st.dirty,
        st'.cache.table⟩ := rfl
    rw [hsplit, table_of_sbi hsbi, hinode]
    rfl
  have hused : ∀ i, st.used i = true → st'.used i = true := fun i hset =>
    (used_of_sbi hsbi i).trans (hbits _ _ hset)
  have frame : st.Frame st' 0 := by
    apply frame_of_fs (mount_of_sbi hsbi) rfl
    · exact fun _ _ => rfl
    · exact fun _ _ => rfl
    · exact fun i _ => congrFun hinode i
    · exact fun i _ _ hset => hused i hset
  apply h.unseen frame
  · rw [hcache]
    exact ⟨h.coherent, rfl⟩
  · rfl
  · rfl
  · exact h.range 0
  · rw [hcache]
    exact h.fits 0
  · exact hused 0
  · exact h.stale 0

theorem Sound.refused {evict : EvictEnv} {syncFails : Bool} {env : NewInodeEnv} {dir : Nat}
    {mode : UInt16} {err : Errno} (h : st.Sound) (hgood : evict.isBadInode = false)
    (hclock : evict.now ≠ 0)
    (call : st.krNewInode ops evict syncFails env dir mode = some (.error err, st')) :
    st'.Sound ∧ st'.files =
      st.files.after (if st'.sNextGeneration = st.sNextGeneration then .still else .drawn) := by
  rcases krNewInode_ends h call with ⟨-, fs', -, rfl, hsbi, hinode, hbits⟩ |
    ⟨ino, fs', hfound, hnone, ⟨-, -, rfl⟩ | ⟨hres, -⟩⟩
  · rw [if_pos rfl]
    exact h.sameInodes hsbi hinode hbits
  · let dead : Inode := { fs'.inode ino with
      sFlags := (fs'.inode ino).sFlags ||| S_NOQUOTA
      iNlink := 0 }
    have hdead : ((st.entered ino fs').setInode ino dead).fs.inode ino = dead :=
      Function.update_self _ _ _
    have frame : st.Frame ((st.entered ino fs').setInode ino dead) ino := by
      apply (entered_frame hfound).trans
      apply frame_of_fs
      · rfl
      · rfl
      · exact fun _ _ => rfl
      · exact fun _ _ => rfl
      · exact fun i hi => Function.update_of_ne hi _ _
      · exact fun _ _ _ hused => hused
    obtain ⟨hsound, hfiles⟩ := h.evicted frame rfl hfound.range ops syncFails
      (congrArg Inode.iNlink hdead) hgood hclock
    have hnext : ((st.entered ino fs').failDrop ops evict syncFails ino).sNextGeneration =
        st.sNextGeneration + 1 := congrArg FileTable.next hfiles
    have hdrawn : st.sNextGeneration + 1 ≠ st.sNextGeneration := by
      intro hsame
      have hword := congrArg UInt32.toNat hsame
      have hlt := st.sNextGeneration.toNat_lt
      rw [UInt32.toNat_add, UInt32.toNat_one] at hword
      omega
    rw [hnext, if_neg hdrawn]
    refine ⟨hsound, hfiles.trans ?_⟩
    rw [← hnone, Function.update_eq_self]
    rfl
  · cases hres

/-! ### Calls of `kr_ioctl` -/

/-- Only the reservation of an inode in the cache changes. -/
theorem Sound.reserved {fs' : Fs} (h : st.Sound) (hheld : st.cached ino = true)
    (hsbi : fs'.sbi = st.fs.sbi) (hbits : fs'.inodeBitmap = st.fs.inodeBitmap)
    (hothers : ∀ i, i ≠ ino → fs'.inode i = st.fs.inode i) {info : Option BlockAllocInfo}
    (hinode : fs'.inode ino = { st.fs.inode ino with iBlockAllocInfo := info }) :
    ({ st with fs := fs' } : InodeStore).Sound ∧
      ({ st with fs := fs' } : InodeStore).files = st.files.after .still := by
  set st' : InodeStore := { st with fs := fs' } with hst'
  obtain ⟨hfits, hagree⟩ := h.fits_of_cached hheld
  have hused : ∀ i, st.used i = true → st'.used i = true := by
    intro i hset
    have hbit := used_of_sbi hsbi i
    rw [hbits] at hbit
    exact hbit.trans hset
  have frame : st.Frame st' ino := by
    apply frame_of_fs (mount_of_sbi hsbi) rfl
    · exact fun _ _ => rfl
    · exact fun _ _ => rfl
    · exact hothers
    · exact fun i _ _ hset => hused i hset
  have hheld' : st'.cache.held ino = some { st.fs.inode ino with iBlockAllocInfo := info } := by
    rw [← hinode]
    exact cache_held hheld
  apply h.unseen frame
  · exact WriteBack.touch frame.touches h.coherent (cache_held hheld) hheld' rfl rfl
      (congrFun (table_of_sbi hsbi) ino)
  · rfl
  · rfl
  · exact fun _ => h.range ino hheld
  · intro found hfound
    rw [WriteBack.look_held hheld'] at hfound
    obtain rfl := Option.some.inj hfound
    exact ⟨hfits.of_image rfl hfits.dtime, flagsAgree_congr hagree (Or.inl rfl) rfl⟩
  · exact hused ino
  · intro _ hnone
    rw [file_of_cached hheld] at hnone
    cases hnone

theorem ioctlSetrsvsz_inode (env : IoctlEnv) (alloc : GetBlocksEnv) (fs : Fs) (ino : Nat) :
    (ioctlSetrsvsz env alloc fs ino).2.sbi = fs.sbi ∧
      (ioctlSetrsvsz env alloc fs ino).2.inodeBitmap = fs.inodeBitmap ∧
      (∀ i, i ≠ ino → (ioctlSetrsvsz env alloc fs ino).2.inode i = fs.inode i) ∧
      ∃ info, (ioctlSetrsvsz env alloc fs ino).2.inode ino =
        { fs.inode ino with iBlockAllocInfo := info } := by
  have hsame : fs.sbi = fs.sbi ∧ fs.inodeBitmap = fs.inodeBitmap ∧
      (∀ i, i ≠ ino → fs.inode i = fs.inode i) ∧
      ∃ info, fs.inode ino = { fs.inode ino with iBlockAllocInfo := info } :=
    ⟨rfl, rfl, fun _ _ => rfl, _, rfl⟩
  have hinit : (initBlockAllocInfo alloc ino env.reservation fs).sbi = fs.sbi ∧
      (initBlockAllocInfo alloc ino env.reservation fs).inodeBitmap = fs.inodeBitmap ∧
      (∀ i, i ≠ ino → (initBlockAllocInfo alloc ino env.reservation fs).inode i = fs.inode i) ∧
      ∃ info, (initBlockAllocInfo alloc ino env.reservation fs).inode ino =
        { fs.inode ino with iBlockAllocInfo := info } := by
    unfold initBlockAllocInfo
    split
    · exact ⟨rfl, rfl, fun i hi => Function.update_of_ne hi _ _, _, Function.update_self _ _ _⟩
    · exact hsame
  unfold ioctlSetrsvsz
  split
  · exact hsame
  split
  · exact hsame
  split
  · exact hsame
  · exact hsame
  · dsimp only
    split
    · exact hinit
    · exact hinit

theorem ioctlSetflags_ok {env : IoctlEnv} {dax : Bool} {old : Inode}
    (h : ioctlSetflags env dax old = .ok inode) :
    ∃ flags, env.getUser = some flags ∧
      (changesProtected old.iMode old.iFlags flags && !env.capable) = false ∧
      inode = { krSetInodeFlags dax
        { old with iFlags := setflagsWord old.iMode old.iFlags flags } with iCtime := env.now } := by
  unfold ioctlSetflags at h
  split at h
  · cases h
  split at h
  · cases h
  split at h
  · cases h
  rename_i flags hflags
  split at h
  · cases h
  split at h
  · cases h
  rename_i hallowed
  refine ⟨flags, hflags, ?_, (Except.ok.inj h).symm⟩
  simpa only [Bool.not_eq_true] using hallowed

theorem ioctlSetversion_ok {env : IoctlEnv} {old : Inode} (h : ioctlSetversion env old = .ok inode) :
    ∃ generation, env.getUser = some generation ∧
      inode = { old with
        iCtime := env.now
        iGeneration := generation } := by
  unfold ioctlSetversion at h
  split at h
  · cases h
  split at h
  · cases h
  · cases h
  · rename_i generation _ hword
    exact ⟨generation, hword, (Except.ok.inj h).symm⟩

/-- A call that leaves the inode and does not make it dirty. -/
theorem Sound.idle (h : st.Sound) :
    ({ st with dirty := Function.update st.dirty ino (st.dirty ino || false) } : InodeStore).Sound ∧
      ({ st with dirty := Function.update st.dirty ino (st.dirty ino || false) } : InodeStore).files =
        st.files.after .still := by
  rw [Bool.or_false, Function.update_eq_self]
  exact h.still

/-- One inode in the cache is replaced. -/
theorem Sound.set (h : st.Sound) (hheld : st.cached ino = true) (hfits : inode.Fits st.mount)
    (hagree : FlagsAgree inode) {edit : FileEdit}
    (himage : inode.image = edit.apply (st.fs.inode ino).image) :
    let st' : InodeStore := { st with
      fs := { st.fs with inode := Function.update st.fs.inode ino inode }
      dirty := Function.update st.dirty ino true }
    st'.Sound ∧ st'.files = st.files.after (.edited ino edit) := by
  have hself : Function.update st.fs.inode ino inode ino = inode := Function.update_self _ _ _
  apply h.put hheld
  · rfl
  · rfl
  · exact fun i hi => Function.update_of_ne hi _ _
  · dsimp only
    rw [hself]
    exact hfits
  · dsimp only
    rw [hself]
    exact hagree
  · dsimp only
    rw [hself]
    exact himage

theorem Sound.ioctl {env : IoctlEnv} {alloc : GetBlocksEnv} {cmd : IoctlCmd}
    {res : Except IoctlError (Option UInt32)} (h : st.Sound) (hheld : st.cached ino = true)
    (hclock : -2 ^ 31 ≤ env.now ∧ env.now < 2 ^ 31)
    (call : st.krIoctl env alloc ino cmd = (res, st')) :
    st'.Sound ∧ st'.files = st.files.after (ioctlEvent env ino cmd res) := by
  obtain ⟨hfits, hagree⟩ := h.fits_of_cached hheld
  unfold InodeStore.krIoctl KrFs.krIoctl at call
  cases cmd with
  | getflags =>
    obtain ⟨rfl, rfl⟩ := Prod.mk.inj call
    rw [krGetInodeFlags_of_agree hagree, Function.update_eq_self]
    exact h.idle
  | getversion =>
    obtain ⟨rfl, rfl⟩ := Prod.mk.inj call
    exact h.idle
  | unknown =>
    obtain ⟨rfl, rfl⟩ := Prod.mk.inj call
    exact h.idle
  | getrsvsz =>
    dsimp only at call
    split at call
    · obtain ⟨rfl, rfl⟩ := Prod.mk.inj call
      exact h.idle
    · obtain ⟨rfl, rfl⟩ := Prod.mk.inj call
      exact h.idle
  | setrsvsz =>
    obtain ⟨hsbi, hbits, hothers, info, hinode⟩ := ioctlSetrsvsz_inode env alloc st.fs ino
    dsimp only at call
    generalize ioctlSetrsvsz env alloc st.fs ino = ended at hsbi hbits hothers hinode call
    obtain ⟨ended, fs'⟩ := ended
    have hkept := h.reserved hheld hsbi hbits hothers hinode
    cases ended with
    | error err =>
      obtain ⟨rfl, rfl⟩ := Prod.mk.inj call
      rw [Bool.or_false, Function.update_eq_self]
      exact hkept
    | ok u =>
      obtain ⟨rfl, rfl⟩ := Prod.mk.inj call
      rw [Bool.or_false, Function.update_eq_self]
      exact hkept
  | setflags =>
    dsimp only at call
    cases hset : ioctlSetflags env st.dax (st.fs.inode ino) with
    | error err =>
      rw [hset] at call
      obtain ⟨rfl, rfl⟩ := Prod.mk.inj call
      exact h.idle
    | ok inode =>
      rw [hset] at call
      obtain ⟨rfl, rfl⟩ := Prod.mk.inj call
      obtain ⟨flags, hflags, hallowed, rfl⟩ := ioctlSetflags_ok hset
      have hevent : ioctlEvent env ino .setflags (.ok none) =
          .edited ino (.setflags flags env.capable env.now) := by
        unfold ioctlEvent
        rw [hflags]
      rw [Bool.or_true, hevent]
      apply h.set hheld
      · exact { hfits with ctime := hclock }
      · have hset := krSetInodeFlags_agree st.dax { st.fs.inode ino with
          iFlags := setflagsWord (st.fs.inode ino).iMode (st.fs.inode ino).iFlags flags }
        exact flagsAgree_congr hset (Or.inl rfl) rfl
      · have hallowed' : ¬ (changesProtected (st.fs.inode ino).image.iMode
            (st.fs.inode ino).image.iFlags flags && !env.capable) = true := by
          rw [Bool.not_eq_true]
          exact hallowed
        rw [FileEdit.apply, if_neg hallowed']
        rfl
  | setversion =>
    dsimp only at call
    cases hset : ioctlSetversion env (st.fs.inode ino) with
    | error err =>
      rw [hset] at call
      obtain ⟨rfl, rfl⟩ := Prod.mk.inj call
      exact h.idle
    | ok inode =>
      rw [hset] at call
      obtain ⟨rfl, rfl⟩ := Prod.mk.inj call
      obtain ⟨generation, hword, rfl⟩ := ioctlSetversion_ok hset
      have hevent : ioctlEvent env ino .setversion (.ok none) =
          .edited ino (.setversion generation env.now) := by
        unfold ioctlEvent
        rw [hword]
      rw [Bool.or_true, hevent]
      apply h.set hheld
      · exact { hfits with ctime := hclock }
      · exact flagsAgree_congr hagree (Or.inl rfl) rfl
      · rfl

/-! ## Runs -/

theorem Sound.step {e : FileEvent} (h : st.Sound) (step : Step ops st e st') :
    st'.Sound ∧ st'.files = st.files.after e := by
  cases step with
  | @iget st' allocOk ino res call =>
    obtain ⟨hsound, hfiles⟩ := h.iget allocOk ino
    rw [call] at hsound hfiles
    exact ⟨hsound, hfiles⟩
  | @nfs st' allocOk ino generation res call =>
    obtain ⟨hsound, hfiles⟩ := h.nfs allocOk ino generation
    rw [call] at hsound hfiles
    exact ⟨hsound, hfiles⟩
  | changed held changes => exact h.change held changes
  | wrote syncFails held => exact h.wrote held syncFails
  | dropped evict syncFails held clean linked =>
    exact h.dropped ops evict syncFails held clean linked
  | deleted syncFails held unlinked good clock =>
    exact h.deleted ops syncFails held unlinked good clock
  | created parent call fits =>
    rcases krNewInode_ends h call with ⟨err, -, hres, -⟩ |
      ⟨i, fs', hfound, -, ⟨err, hres, -⟩ | ⟨hres, rfl⟩⟩
    · cases hres
    · cases hres
    · obtain rfl := Except.ok.inj hres
      exact h.created hfound parent fits
  | refused good clock call => exact h.refused good clock call
  | ioctl held clock call => exact h.ioctl held clock call

/-- A run does to the files what its events say. -/
theorem Sound.run {es : List FileEvent} (h : st.Sound) (run : Trace (Step ops) st es st') :
    st'.Sound ∧ st'.files = es.foldl FileTable.after st.files := by
  induction run with
  | done st => exact ⟨h, rfl⟩
  | cons first _ ih =>
    obtain ⟨hsound, hfiles⟩ := h.step first
    rw [List.foldl_cons, ← hfiles]
    exact ih hsound

/-- An inode with links can leave the cache once it is stored. -/
theorem Sound.forget (h : st.Sound) (hheld : st.cached ino = true)
    (hlinked : (st.fs.inode ino).iNlink ≠ 0) :
    ∃ st', Trace (Step ops) st [.still, .still] st' ∧ st'.cached ino = false := by
  have hstored : Step ops st .still (st.krWriteInode false ino).2 := .wrote false hheld
  obtain ⟨hsound, hfiles⟩ := h.step hstored
  have hsame : (st.krWriteInode false ino).2.cached = st.cached ∧
      (st.krWriteInode false ino).2.dirty ino = false := by
    unfold InodeStore.krWriteInode
    split
    · exact ⟨rfl, Function.update_self _ _ _⟩
    · exact ⟨rfl, Function.update_self _ _ _⟩
  have hheld' : (st.krWriteInode false ino).2.cached ino = true := by
    rw [hsame.1]
    exact hheld
  have himage : ((st.krWriteInode false ino).2.fs.inode ino).image = (st.fs.inode ino).image := by
    have hfile := file_of_cached hheld'
    rw [hfiles, FileTable.after, file_of_cached hheld, Option.some.injEq] at hfile
    exact hfile.symm
  have hlinked' : ((st.krWriteInode false ino).2.fs.inode ino).iNlink ≠ 0 := by
    have hnlink : ((st.krWriteInode false ino).2.fs.inode ino).iNlink = (st.fs.inode ino).iNlink :=
      (congrArg Inode.iNlink himage :)
    rw [hnlink]
    exact hlinked
  exact ⟨_, .cons hstored (.cons (.dropped quietEvict false hheld' hsame.2 hlinked') (.done _)),
    Function.update_self _ _ _⟩

theorem krIget_uncached (hcached : st.cached ino = false) :
    (st.krIget true ino).1 = KrFs.krIget st.mount st.table ino := by
  unfold InodeStore.krIget
  rw [hcached]
  cases KrFs.krIget st.mount st.table ino with
  | error err => rfl
  | ok inode => rfl

/-- What `kr_iget` returns when there is memory. -/
theorem Sound.krIget_eq (h : st.Sound) (hrange : inodeInRange st.fs.sbi ino = true) :
    match st.files.file ino with
    | some file => ∃ inode, (st.krIget true ino).1 = .ok inode ∧ inode.image = file ∧
        FlagsAgree inode
    | none => (st.krIget true ino).1 = .error .estale := by
  cases hcached : st.cached ino with
  | true =>
    have hread : (st.krIget true ino).1 = .ok (st.fs.inode ino) := by
      unfold InodeStore.krIget
      rw [if_pos hcached]
    rw [file_of_cached hcached]
    exact ⟨_, hread, rfl, (h.fits_of_cached hcached).2⟩
  | false =>
    have hread := krIget_uncached hcached
    have hlook : st.cache.look (slotRead st.mount) ino =
        (KrFs.krIget st.mount st.table ino).toOption :=
      (WriteBack.look_table (cache_not_held hcached)).trans slotRead_table
    have hfile : st.files.file ino =
        (KrFs.krIget st.mount st.table ino).toOption.map Inode.image :=
      congrArg (Option.map Inode.image) hlook
    cases htable : KrFs.krIget st.mount st.table ino with
    | error err =>
      rw [htable] at hfile
      have hstale := h.stale ino hrange hfile
      rw [hfile]
      exact hread.trans hstale
    | ok inode =>
      rw [htable] at hfile
      rw [hfile]
      exact ⟨inode, hread.trans htable, rfl, krIget_agree htable⟩

end Steps

end InodeStore

/-- The cache with its inode table is one table of files: in every run reading, writing back
and dropping do not show, every other call does what it does to the files, and at any time
`kr_iget` finds the file of a number, with both flag words in agreement, or says that the
number is stale. -/
theorem inodeStore_refines {ops : Rebalance Window} {st st' : InodeStore} {es : List FileEvent}
    (sound : st.Sound) (run : Trace (InodeStore.Step ops) st es st') :
    st'.files = es.foldl FileTable.after st.files ∧
      ∀ ino, inodeInRange st'.fs.sbi ino = true →
        match st'.files.file ino with
        | some file => ∃ inode, (st'.krIget true ino).1 = .ok inode ∧ inode.image = file ∧
            FlagsAgree inode
        | none => (st'.krIget true ino).1 = .error .estale := by
  obtain ⟨hsound, hfiles⟩ := sound.run run
  exact ⟨hfiles, fun ino hrange => hsound.krIget_eq hrange⟩

section Witness

open InodeStore

/-- A new inode can be stored when its mode, the clock and its owner can. -/
theorem newInode_fits {env : NewInodeEnv} {fs : Fs} {m : Mount} {dir group : Nat} {mode : UInt16}
    (hmode : (newInode env fs dir mode group).iMode ≠ 0)
    (hnow : -2 ^ 31 ≤ env.now ∧ env.now < 2 ^ 31)
    (huid : m.noUid32 = true → (newInode env fs dir mode group).iUid.toNat < 65535 ∧
      (newInode env fs dir mode group).iGid.toNat < 65535) :
    (newInode env fs dir mode group).Fits m := by
  constructor
  · exact hmode
  · exact (by decide : 1 ≤ 65535)
  · rfl
  · change 0 < ite _ _ _
    split
    · decide
    · decide
  · exact hnow
  · exact hnow
  · exact hnow
  · exact (by decide : (0 : Int) ≤ 0 ∧ (0 : Int) < 2 ^ 32)
  · exact Or.inl rfl
  · intro _
    exact (by decide : 0 ≤ 59 ∧ dataByte (fun _ => 0) 0 = 0)
  · exact huid

/-- `countedFs` with its root directory in the cache, and a table of empty slots. -/
def rootStore : InodeStore where
  fs := countedFs
  noUid32 := false
  dax := false
  dev := kernelDevCodec
  bread := fun _ => true
  table := fun _ => RawInode.zero
  cached := fun ino => ino == KR_ROOT_INO
  dirty := fun ino => ino == KR_ROOT_INO
  sNextGeneration := 7

theorem rootStore_slots : rootStore.mount.Slots :=
  slots_of_krFillSuper krFillSuper_inodeImage (by decide) (by decide) (by decide) fun _ => rfl

theorem rootStore_table (ino : Nat) (file : Inode) :
    KrFs.krIget rootStore.mount rootStore.table ino ≠ .ok file := by
  intro h
  unfold KrFs.krIget at h
  split at h
  · cases h
  · cases h

theorem rootStore_look {ino : Nat} {inode : Inode}
    (h : rootStore.cache.look (slotRead rootStore.mount) ino = some inode) :
    ino = KR_ROOT_INO ∧ inode = { Inode.blank with iMode := 0x41ED } := by
  cases hcached : rootStore.cached ino with
  | true =>
    obtain rfl : ino = KR_ROOT_INO := by simpa [rootStore] using hcached
    rw [WriteBack.look_held (cache_held hcached)] at h
    exact ⟨rfl, (Option.some.inj h).symm⟩
  | false =>
    rw [WriteBack.look_table (cache_not_held hcached), slotRead_table] at h
    cases hread : KrFs.krIget rootStore.mount rootStore.table ino with
    | error err =>
      rw [hread] at h
      cases h
    | ok file => exact absurd hread (rootStore_table ino file)

theorem rootStore_sound : rootStore.Sound := by
  constructor
  · exact rootStore_slots
  · exact kernelDevCodec_inverse
  · intro ino hcached
    obtain rfl : ino = KR_ROOT_INO := by simpa [rootStore] using hcached
    decide
  · intro ino inode hlook
    obtain ⟨-, rfl⟩ := rootStore_look hlook
    constructor
    · constructor
      · decide
      · decide
      · rfl
      · decide
      · decide
      · decide
      · decide
      · decide
      · exact Or.inl rfl
      · intro hlink
        exact absurd hlink (by decide)
      · intro huid
        cases huid
    · constructor <;> decide
  · intro ino inode hheld hclean
    have hcached := (cached_of_held hheld).1
    have hsame : rootStore.cache.dirty ino = rootStore.cached ino := rfl
    rw [hsame, hcached] at hclean
    cases hclean
  · intro ino hfile
    cases hlook : rootStore.cache.look (slotRead rootStore.mount) ino with
    | none => exact absurd (congrArg (Option.map Inode.image) hlook) hfile
    | some inode =>
      obtain ⟨rfl, -⟩ := rootStore_look hlook
      decide
  · intro ino hrange hfile
    obtain ⟨slot, hslot⟩ := rootStore_slots.found ino hrange
    rw [KrFs.krIget, hslot]
    rfl

theorem rootStore_created : ∃ inode st', Step Rebalance.plain rootStore
    (.created KR_ROOT_INO 12 0x8180 inode) st' ∧ st'.cached 12 = true ∧
    (st'.fs.inode 12).iNlink ≠ 0 := by
  have hino : (rootStore.krNewInode Rebalance.plain quietEvict false inodeEnv KR_ROOT_INO
      0x8180).map (fun r => r.1.toOption) = some (some 12) := by decide +kernel
  rw [Option.map_eq_some_iff] at hino
  obtain ⟨⟨res, st'⟩, hcall, hres⟩ := hino
  obtain rfl : res = .ok 12 := by
    cases res with
    | error err => cases hres
    | ok ino => exact congrArg Except.ok (Option.some.inj hres)
  rcases krNewInode_ends rootStore_sound hcall with ⟨err, -, herr, -⟩ |
    ⟨i, fs', found, -, ⟨err, herr, -⟩ | ⟨hok, rfl⟩⟩
  · cases herr
  · cases herr
  · obtain rfl := Except.ok.inj hok
    obtain ⟨group, hinode⟩ := found.inode
    have hfits : (fs'.inode 12).Fits rootStore.mount := by
      rw [hinode]
      exact newInode_fits (by decide : (0x8180 : UInt16) ≠ 0) (by decide) nofun
    have hheld : (rootStore.entered 12 fs').cached 12 = true := rfl
    refine ⟨_, _, .created (by decide) hcall hfits, hheld, ?_⟩
    change (fs'.inode 12).iNlink ≠ 0
    rw [hinode]
    exact Nat.one_ne_zero

/-- A file is made in the root directory, stored and dropped, and found again. -/
theorem inodeStore_refines_created : ∃ st' : InodeStore, st'.cached 12 = false ∧
    ∃ inode, (st'.krIget true 12).1 = .ok inode ∧ inode.iGeneration = 7 := by
  obtain ⟨inode, st, first, hheld, hlinked⟩ := rootStore_created
  obtain ⟨st', rest, hforgot⟩ := (rootStore_sound.step first).1.forget hheld hlinked
  obtain ⟨hfiles, hread⟩ := inodeStore_refines rootStore_sound (.cons first rest)
  refine ⟨st', hforgot, ?_⟩
  have hfile : st'.files.file 12 = some { inode.image with
      iGeneration := 7
      iFlags := krMaskFlags 0x8180 (rootStore.files.flags KR_ROOT_INO &&& KR_FL_INHERITED) } := by
    rw [hfiles]
    simp only [List.foldl_cons, List.foldl_nil, FileTable.after, Function.update_self]
    rfl
  have hrange : inodeInRange st'.fs.sbi 12 = true := by
    apply Sound.range_of_file
    · exact (rootStore_sound.run (.cons first rest)).1
    · rw [hfile]
      exact Option.some_ne_none _
  have hfound := hread 12 hrange
  rw [hfile] at hfound
  obtain ⟨found, hget, himage, -⟩ := hfound
  exact ⟨found, hget, congrArg Inode.iGeneration himage⟩

end Witness

end KrFs
