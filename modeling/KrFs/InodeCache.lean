import KrFs.Lib.WriteBack
import KrFs.EvictInode
import KrFs.InodeImage

/-!
# The inodes in memory and on disk

`kr_iget` takes an inode from the cache or from the inode table, `__kr_write_inode` stores
it, and the kernel may drop it in between. Inodes are made, changed and deleted in the
cache. What a caller sees is one table of files.
-/

namespace KrFs

open SearchTree

def KR_BTREE_FL : UInt32 := 0x00001000

/-- A mounted file system with its inode cache and inode table. -/
structure InodeStore where
  fs : Fs
  noUid32 : Bool
  dax : Bool
  dev : DevCodec
  bread : Nat → Bool
  table : Nat × Nat → RawInode
  cached : Nat → Bool
  dirty : Nat → Bool
  sNextGeneration : UInt32

namespace InodeStore

def mount (st : InodeStore) : Mount := ⟨st.fs.sbi, st.noUid32, st.dax, st.dev, st.bread⟩

def setInode (st : InodeStore) (ino : Nat) (inode : Inode) : InodeStore :=
  { st with fs := { st.fs with inode := Function.update st.fs.inode ino inode } }

/-- `kr_iget`; `allocOk` says whether `iget_locked` finds memory for a new inode. -/
def krIget (allocOk : Bool) (st : InodeStore) (ino : Nat) : Except Errno Inode × InodeStore :=
  if st.cached ino then (.ok (st.fs.inode ino), st)
  else if !allocOk then (.error .enomem, st)
  else
    match KrFs.krIget st.mount st.table ino with
    | .error err => (.error err, st)
    | .ok inode =>
      (.ok inode, { st.setInode ino inode with
        cached := Function.update st.cached ino true
        dirty := Function.update st.dirty ino false })

/-- `kr_nfs_get_inode`. -/
def krNfsGetInode (allocOk : Bool) (st : InodeStore) (ino : Nat) (generation : UInt32) :
    Except Errno Inode × InodeStore :=
  if ino < st.fs.sbi.sFirstIno && ino != KR_ROOT_INO then (.error .estale, st)
  else if st.fs.sbi.sEs.sInodesCount.toNat < ino then (.error .estale, st)
  else
    match st.krIget allocOk ino with
    | (.error err, st) => (.error err, st)
    | (.ok inode, st) =>
      if generation != 0 && inode.iGeneration != generation then (.error .estale, st)
      else (.ok inode, st)

/-- `kr_write_inode`. The inode is clean afterwards, whatever the outcome. -/
def krWriteInode (syncFails : Bool) (st : InodeStore) (ino : Nat) : Option Errno × InodeStore :=
  match KrFs.krWriteInode st.mount st.table ino (st.fs.inode ino) syncFails with
  | .error err => (some err, { st with dirty := Function.update st.dirty ino false })
  | .ok (inode, m, table, err) =>
    (err, { st with
      fs := { st.fs with
        sbi := m.sbi
        inode := Function.update st.fs.inode ino inode }
      table := table
      dirty := Function.update st.dirty ino false })

section Calls

variable (ops : Rebalance Window) (evict : EvictEnv) (syncFails : Bool)

/-- `kr_evict_inode`. An inode without links is stored with its time of deletion first. -/
def krEvictInode (st : InodeStore) (ino : Nat) : InodeStore :=
  let wantDelete := (st.fs.inode ino).iNlink == 0 && !evict.isBadInode
  let st :=
    if wantDelete then
      ((st.setInode ino { st.fs.inode ino with iDtime := evict.now }).krWriteInode syncFails ino).2
    else st
  { st with
    fs := KrFs.krEvictInode ops evict ino st.fs
    cached := Function.update st.cached ino false
    dirty := Function.update st.dirty ino false }

/-- The label `fail_drop` of `kr_new_inode`. -/
def failDrop (st : InodeStore) (ino : Nat) : InodeStore :=
  let inode := st.fs.inode ino
  (st.setInode ino { inode with
    sFlags := inode.sFlags ||| S_NOQUOTA
    iNlink := 0 }).krEvictInode ops evict syncFails ino

/-- `kr_new_inode`: the search, the draw of a generation number, the cache and the quota. -/
def krNewInode (env : NewInodeEnv) (st : InodeStore) (dir : Nat) (mode : UInt16) :
    Option (Except Errno Nat × InodeStore) :=
  let search := { env.granting with
    insert := fun _ => true
    generation := st.sNextGeneration }
  (KrFs.krNewInode search st.fs dir mode).map fun (res, fs) =>
    match res with
    | .error err => (.error err, { st with fs := fs })
    | .ok ino =>
      let drawn := { st with sNextGeneration := st.sNextGeneration + 1 }
      if st.cached ino then
        (.error .eio, { drawn with fs := { fs with inode := st.fs.inode } })
      else
        let st := { drawn with
          fs := fs
          cached := Function.update st.cached ino true
          dirty := Function.update st.dirty ino true }
        match env.quotaInit, env.quotaAlloc with
        | some err, _ => (.error err, st.failDrop ops evict syncFails ino)
        | none, some err => (.error err, st.failDrop ops evict syncFails ino)
        | none, none => (.ok ino, st)

end Calls

/-- `kr_ioctl` on an open file. -/
def krIoctl (env : IoctlEnv) (alloc : GetBlocksEnv) (st : InodeStore) (ino : Nat)
    (cmd : IoctlCmd) : Except IoctlError (Option UInt32) × InodeStore :=
  let (res, fs, dirtied) := KrFs.krIoctl env st.dax alloc st.fs ino cmd
  (res, { st with
    fs := fs
    dirty := Function.update st.dirty ino (st.dirty ino || dirtied) })

end InodeStore

/-! ## The table of files -/

/-- The files by number, and the generation number of the next one. -/
structure FileTable where
  file : Nat → Option Inode
  next : UInt32

/-- A change of a file: by some part of the file system, or by a user, who has the capability
for the protected flags or does not. -/
inductive FileEdit where
  | changed (inode : Inode)
  | setflags (flags : UInt32) (capable : Bool) (now : Int)
  | setversion (generation : UInt32) (now : Int)

/-- The file after the change. What is no call of `kr_ioctl` keeps the generation number and
the flags, save that of an indexed directory, which it may clear. -/
def FileEdit.apply (old : Inode) : FileEdit → Inode
  | .changed inode => { inode.image with
      iGeneration := old.iGeneration
      iFlags := if inode.iFlags = old.iFlags then old.iFlags else old.iFlags &&& ~~~KR_BTREE_FL }
  | .setflags flags capable now =>
    if changesProtected old.iMode old.iFlags flags && !capable then old
    else { old with
      iFlags := setflagsWord old.iMode old.iFlags flags
      iCtime := now }
  | .setversion generation now => { old with
      iGeneration := generation
      iCtime := now }

/-- What a step does to the files. -/
inductive FileEvent where
  | still
  | edited (ino : Nat) (edit : FileEdit)
  | created (dir ino : Nat) (mode : UInt16) (inode : Inode)
  | drawn
  | deleted (ino : Nat)

namespace FileTable

/-- The flags of a file. -/
def flags (t : FileTable) (ino : Nat) : UInt32 := ((t.file ino).map (·.iFlags)).getD 0

/-- A new file takes some flags of its directory and the next number. -/
def after (t : FileTable) : FileEvent → FileTable
  | .still => t
  | .edited ino edit =>
    { t with file := Function.update t.file ino ((t.file ino).map edit.apply) }
  | .created dir ino mode inode =>
    { file := Function.update t.file ino (some { inode.image with
        iGeneration := t.next
        iFlags := krMaskFlags mode (t.flags dir &&& KR_FL_INHERITED) })
      next := t.next + 1 }
  | .drawn => { t with next := t.next + 1 }
  | .deleted ino => { t with file := Function.update t.file ino none }

end FileTable

/-! ## The cache over the inode table -/

/-- What `kr_iget` makes of a slot. -/
def slotRead (m : Mount) (ino : Nat) (slot : Option RawInode) : Option Inode :=
  slot.bind fun raw => (inodeOfRaw m ino raw).toOption

namespace InodeStore

def cache (st : InodeStore) : WriteBack Nat Inode (Option RawInode) where
  held ino := if st.cached ino then some (st.fs.inode ino) else none
  dirty := st.dirty
  table ino := (krGetInode st.fs.sbi st.bread ino).toOption.map st.table

/-- The files as callers see them. -/
def files (st : InodeStore) : FileTable :=
  ⟨st.cache.contents (slotRead st.mount) Inode.image, st.sNextGeneration⟩

/-- The bit of a number. -/
def used (st : InodeStore) (ino : Nat) : Bool :=
  st.fs.inodeBitmap (inodeGroup st.fs.sbi ino) (inodeIndex st.fs.sbi ino)

/-- Inodes in the cache can be stored, those that are clean have been, each file has its bit,
and the slots of the other numbers are stale. -/
structure Sound (st : InodeStore) : Prop where
  slots : st.mount.Slots
  dev : st.dev.Inverse
  range : ∀ ino, st.cached ino = true → inodeInRange st.fs.sbi ino = true
  fits : ∀ ino inode, st.cache.look (slotRead st.mount) ino = some inode →
    inode.Fits st.mount ∧ FlagsAgree inode
  coherent : st.cache.Coherent (slotRead st.mount) Inode.image
  used : ∀ ino, st.files.file ino ≠ none → st.used ino = true
  stale : ∀ ino, inodeInRange st.fs.sbi ino = true → st.files.file ino = none →
    KrFs.krIget st.mount st.table ino = .error .estale

/-- What a step on one inode leaves alone. -/
structure Frame (st st' : InodeStore) (ino : Nat) : Prop where
  mount : st.mount.Alike st'.mount
  cached : ∀ i, i ≠ ino → st'.cached i = st.cached i
  dirty : ∀ i, i ≠ ino → st'.dirty i = st.dirty i
  inode : ∀ i, i ≠ ino → st'.fs.inode i = st.fs.inode i
  table : ∀ i slot, i ≠ ino → krGetInode st.fs.sbi st.bread i = .ok slot →
    st'.table slot = st.table slot
  used : ∀ i, i ≠ ino → inodeInRange st.fs.sbi i = true → st.used i = true → st'.used i = true

section Sound

variable {st st' : InodeStore} {ino : Nat} {inode : Inode}

theorem cache_held (h : st.cached ino = true) : st.cache.held ino = some (st.fs.inode ino) :=
  if_pos h

theorem cache_not_held (h : st.cached ino = false) : st.cache.held ino = none :=
  if_neg (by rw [h]; exact Bool.false_ne_true)

theorem cached_of_held (h : st.cache.held ino = some inode) :
    st.cached ino = true ∧ st.fs.inode ino = inode := by
  cases hcached : st.cached ino with
  | true =>
    rw [cache_held hcached] at h
    exact ⟨rfl, Option.some.inj h⟩
  | false =>
    rw [cache_not_held hcached] at h
    cases h

theorem cache_table {slot : Nat × Nat} (h : krGetInode st.fs.sbi st.bread ino = .ok slot) :
    st.cache.table ino = some (st.table slot) := by
  have hmap : st.cache.table ino =
      (krGetInode st.fs.sbi st.bread ino).toOption.map st.table := rfl
  rw [hmap, h]
  rfl

theorem slotRead_table : slotRead st.mount ino (st.cache.table ino) =
    (KrFs.krIget st.mount st.table ino).toOption := by
  have hmap : st.cache.table ino =
      (krGetInode st.fs.sbi st.bread ino).toOption.map st.table := rfl
  have hget : krGetInode st.mount.sbi st.mount.bread ino = krGetInode st.fs.sbi st.bread ino := rfl
  rw [slotRead, hmap, KrFs.krIget, hget]
  cases krGetInode st.fs.sbi st.bread ino with
  | error err => rfl
  | ok slot => rfl

theorem Frame.slotRead (h : st.Frame st' ino) : slotRead st'.mount = slotRead st.mount := by
  funext i slot
  cases slot with
  | none => rfl
  | some raw => exact congrArg Except.toOption (h.mount.inodeOfRaw raw)

theorem Frame.touches (h : st.Frame st' ino) : st.cache.Touches st'.cache ino := by
  have hget : ∀ i, krGetInode st'.fs.sbi st'.bread i = krGetInode st.fs.sbi st.bread i :=
    fun i => h.mount.krGetInode
  constructor
  · intro i hi
    have heq : st'.cache.held i = if st'.cached i then some (st'.fs.inode i) else none := rfl
    rw [heq, h.cached i hi, h.inode i hi]
    rfl
  · exact h.dirty
  · intro i hi
    have heq : st'.cache.table i =
        (krGetInode st'.fs.sbi st'.bread i).toOption.map st'.table := rfl
    rw [heq, hget]
    cases hslot : krGetInode st.fs.sbi st.bread i with
    | error err =>
      have hmap : st.cache.table i =
          (krGetInode st.fs.sbi st.bread i).toOption.map st.table := rfl
      rw [hmap, hslot]
      rfl
    | ok slot =>
      rw [cache_table hslot, ← h.table i slot hi hslot]
      rfl

theorem inodeInRange_of_krGetInode {sbi : SbInfo} {bread : Nat → Bool} {slot : Nat × Nat}
    (h : krGetInode sbi bread ino = .ok slot) : inodeInRange sbi ino = true := by
  obtain ⟨block, offset⟩ := slot
  obtain ⟨-, -, hrange, -⟩ := krGetInode_ok h
  exact hrange

theorem krIget_range {m : Mount} {table : Nat × Nat → RawInode}
    (h : KrFs.krIget m table ino = .ok inode) : inodeInRange m.sbi ino = true := by
  unfold KrFs.krIget at h
  split at h
  · cases h
  · rename_i hslot
    exact inodeInRange_of_krGetInode hslot

/-- A number with a file is in range. -/
theorem Sound.range_of_file (h : st.Sound) (hfile : st.files.file ino ≠ none) :
    inodeInRange st.fs.sbi ino = true := by
  cases hcached : st.cached ino with
  | true => exact h.range ino hcached
  | false =>
    cases hslot : krGetInode st.fs.sbi st.bread ino with
    | ok slot => exact inodeInRange_of_krGetInode hslot
    | error err =>
      exfalso
      apply hfile
      have hlook : st.cache.look (KrFs.slotRead st.mount) ino =
          KrFs.slotRead st.mount ino (st.cache.table ino) :=
        WriteBack.look_table (cache_not_held hcached)
      have htable : st.cache.table ino = none := by
        have hmap : st.cache.table ino =
            (krGetInode st.fs.sbi st.bread ino).toOption.map st.table := rfl
        rw [hmap, hslot]
        rfl
      rw [htable] at hlook
      exact congrArg (Option.map Inode.image) hlook

/-- What a step does to the files is settled at one number. -/
theorem Sound.settle (h : st.Sound) (frame : st.Frame st' ino) {file : Nat → Option Inode}
    (hcache : st'.cache.Coherent (KrFs.slotRead st.mount) Inode.image ∧
      st'.cache.contents (KrFs.slotRead st.mount) Inode.image = file)
    (hdev : st'.dev = st.dev)
    (hrange : st'.cached ino = true → inodeInRange st.fs.sbi ino = true)
    (hfits : ∀ inode, st'.cache.look (KrFs.slotRead st.mount) ino = some inode →
      inode.Fits st.mount ∧ FlagsAgree inode)
    (hused : file ino ≠ none → st'.used ino = true)
    (hstale : inodeInRange st.fs.sbi ino = true → file ino = none →
      KrFs.krIget st.mount st'.table ino = .error .estale) :
    st'.Sound ∧ st'.files.file = file := by
  obtain ⟨hcoherent, hfile⟩ := hcache
  have hread := frame.slotRead
  have hfiles : st'.files.file = file := by
    rw [← hfile, ← hread]
    rfl
  have hother : ∀ i, i ≠ ino → file i = st.files.file i := by
    intro i hi
    rw [← hfile]
    exact frame.touches.contents_of_ne hi
  refine ⟨?_, hfiles⟩
  constructor
  · exact frame.mount.slots h.slots
  · rw [hdev]
    exact h.dev
  · intro i hcached
    have hsame : inodeInRange st'.fs.sbi i = inodeInRange st.fs.sbi i := frame.mount.inRange
    rw [hsame]
    by_cases hi : i = ino
    · subst hi
      exact hrange hcached
    · rw [frame.cached i hi] at hcached
      exact h.range i hcached
  · intro i inode hlook
    rw [hread] at hlook
    have hold : inode.Fits st.mount ∧ FlagsAgree inode := by
      by_cases hi : i = ino
      · subst hi
        exact hfits inode hlook
      · rw [frame.touches.look hi] at hlook
        exact h.fits i inode hlook
    exact ⟨frame.mount.fits hold.1, hold.2⟩
  · rw [hread]
    exact hcoherent
  · intro i hi
    rw [hfiles] at hi
    by_cases hne : i = ino
    · subst hne
      exact hused hi
    · rw [hother i hne] at hi
      exact frame.used i hne (h.range_of_file hi) (h.used i hi)
  · intro i hin hnone
    have hsame : inodeInRange st'.fs.sbi i = inodeInRange st.fs.sbi i := frame.mount.inRange
    rw [hsame] at hin
    rw [hfiles] at hnone
    rw [frame.mount.krIget]
    by_cases hne : i = ino
    · subst hne
      exact hstale hin hnone
    · rw [hother i hne] at hnone
      obtain ⟨slot, hslot⟩ := h.slots.found i hin
      have hold := h.stale i hin hnone
      have htable := frame.table i slot hne hslot
      rw [KrFs.krIget, hslot] at hold ⊢
      dsimp only at hold ⊢
      rw [htable]
      exact hold

/-- A file system whose slots are good or stale is sound when it is mounted. -/
theorem mounted_sound {k : MountEnv} {es : SuperBlock} (accepted : krFillSuper k es = .ok st.fs.sbi)
    (hwhole : st.fs.sbi.sInodesPerBlock ∣ st.fs.sbi.sInodesPerGroup)
    (hcount : st.fs.sbi.sEs.sInodesCount.toNat ≤
      st.fs.sbi.sGroupsCount * st.fs.sbi.sInodesPerGroup)
    (hfirst : 0 < st.fs.sbi.sFirstIno) (hread : ∀ b, st.bread b = true) (hdev : st.dev.Inverse)
    (hempty : ∀ ino, st.cached ino = false)
    (hgood : ∀ ino, inodeInRange st.fs.sbi ino = true →
      (∃ inode, KrFs.krIget st.mount st.table ino = .ok inode ∧ inode.Fits st.mount ∧
        st.used ino = true) ∨ KrFs.krIget st.mount st.table ino = .error .estale) : st.Sound := by
  have hlook : ∀ ino, st.cache.look (KrFs.slotRead st.mount) ino =
      (KrFs.krIget st.mount st.table ino).toOption := fun ino =>
    (WriteBack.look_table (cache_not_held (hempty ino))).trans slotRead_table
  have hfound : ∀ ino inode, st.cache.look (KrFs.slotRead st.mount) ino = some inode →
      KrFs.krIget st.mount st.table ino = .ok inode ∧ inode.Fits st.mount ∧
        st.used ino = true := by
    intro ino inode h
    rw [hlook] at h
    cases hslot : KrFs.krIget st.mount st.table ino with
    | error err =>
      rw [hslot] at h
      cases h
    | ok found =>
      rw [hslot] at h
      obtain rfl := Option.some.inj h
      have hrange : inodeInRange st.fs.sbi ino = true := krIget_range hslot
      rcases hgood ino hrange with ⟨inode, hok, hfits, hused⟩ | hstale
      · obtain rfl := Except.ok.inj (hslot.symm.trans hok)
        exact ⟨rfl, hfits, hused⟩
      · rw [hslot] at hstale
        cases hstale
  constructor
  · exact slots_of_krFillSuper accepted hwhole hcount hfirst hread
  · exact hdev
  · intro ino hcached
    rw [hempty] at hcached
    cases hcached
  · intro ino inode h
    obtain ⟨hslot, hfits, -⟩ := hfound ino inode h
    exact ⟨hfits, krIget_agree hslot⟩
  · intro ino inode hheld
    rw [cache_not_held (hempty ino)] at hheld
    cases hheld
  · intro ino hfile
    cases h : st.cache.look (KrFs.slotRead st.mount) ino with
    | none => exact absurd (congrArg (Option.map Inode.image) h) hfile
    | some inode => exact (hfound ino inode h).2.2
  · intro ino hrange hnone
    rcases hgood ino hrange with ⟨inode, hok, -⟩ | hstale
    · have hfile : st.files.file ino = some inode.image := by
        have h := hlook ino
        rw [hok] at h
        exact congrArg (Option.map Inode.image) h
      rw [hfile] at hnone
      cases hnone
    · exact hstale

end Sound

end InodeStore

end KrFs
