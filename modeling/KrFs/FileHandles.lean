import KrFs.InodeCacheRun

/-!
# The life of a file

What holds of a file from one run to the next: a property that the changes of a file keep
stays until the file is deleted, and one that new files have holds of whatever file has the
number then. File handles of `kr_nfs_get_inode` and the flags that need a capability are two
cases.
-/

namespace KrFs

open SearchTree

/-- The events that take a generation number. -/
def FileEvent.draws : FileEvent → Bool
  | .created .. => true
  | .drawn => true
  | _ => false

/-- How many generation numbers a run takes. -/
def draws (es : List FileEvent) : Nat := es.countP FileEvent.draws

section After

variable {t : FileTable} {e : FileEvent} {ino : Nat} {P : Inode → Prop}

theorem after_next (t : FileTable) (e : FileEvent) :
    (t.after e).next = if e.draws then t.next + 1 else t.next := by
  cases e with
  | still => rfl
  | edited i edit => rfl
  | created dir i mode inode => rfl
  | drawn => rfl
  | deleted i => rfl

/-- The file a new inode becomes. -/
def newFile (generation flags : UInt32) (mode : UInt16) (inode : Inode) : Inode :=
  { inode.image with
    iGeneration := generation
    iFlags := krMaskFlags mode (flags &&& KR_FL_INHERITED) }

/-- A file after a step was there before and has kept what the change keeps, or it is new. -/
theorem after_file {file' : Inode} (h : (t.after e).file ino = some file') :
    (∃ file, t.file ino = some file ∧ e ≠ .deleted ino ∧
      (file' = file ∨ ∃ edit, e = .edited ino edit ∧ file' = edit.apply file)) ∨
    ∃ dir mode inode, e = .created dir ino mode inode ∧
      file' = newFile t.next (t.flags dir) mode inode := by
  cases e with
  | still => exact Or.inl ⟨file', h, by simp, Or.inl rfl⟩
  | drawn => exact Or.inl ⟨file', h, by simp, Or.inl rfl⟩
  | edited i edit =>
    by_cases hi : ino = i
    · subst hi
      simp only [FileTable.after, Function.update_self, Option.map_eq_some_iff] at h
      obtain ⟨file, hfile, rfl⟩ := h
      exact Or.inl ⟨file, hfile, by simp, Or.inr ⟨edit, rfl, rfl⟩⟩
    · simp only [FileTable.after, Function.update_of_ne hi] at h
      exact Or.inl ⟨file', h, by simp, Or.inl rfl⟩
  | created dir i mode inode =>
    by_cases hi : ino = i
    · subst hi
      simp only [FileTable.after, Function.update_self, Option.some.injEq] at h
      exact Or.inr ⟨dir, mode, inode, rfl, h.symm⟩
    · simp only [FileTable.after, Function.update_of_ne hi] at h
      exact Or.inl ⟨file', h, by simp, Or.inl rfl⟩
  | deleted i =>
    by_cases hi : ino = i
    · subst hi
      simp only [FileTable.after, Function.update_self] at h
      cases h
    · simp only [FileTable.after, Function.update_of_ne hi] at h
      refine Or.inl ⟨file', h, ?_, Or.inl rfl⟩
      intro heq
      exact hi (FileEvent.deleted.inj heq).symm

/-- A file that is neither deleted nor made anew is still there. -/
theorem after_lives {file : Inode} (h : t.file ino = some file) (hdeleted : e ≠ .deleted ino)
    (hcreated : ∀ dir mode inode, e ≠ .created dir ino mode inode) :
    ∃ file', (t.after e).file ino = some file' ∧
      (file' = file ∨ ∃ edit, e = .edited ino edit ∧ file' = edit.apply file) := by
  cases e with
  | still => exact ⟨file, h, Or.inl rfl⟩
  | drawn => exact ⟨file, h, Or.inl rfl⟩
  | edited i edit =>
    by_cases hi : ino = i
    · subst hi
      refine ⟨edit.apply file, ?_, Or.inr ⟨edit, rfl, rfl⟩⟩
      simp only [FileTable.after, Function.update_self, h, Option.map_some]
    · refine ⟨file, ?_, Or.inl rfl⟩
      simp only [FileTable.after, Function.update_of_ne hi, h]
  | created dir i mode inode =>
    have hi : ino ≠ i := by
      rintro rfl
      exact hcreated dir mode inode rfl
    refine ⟨file, ?_, Or.inl rfl⟩
    simp only [FileTable.after, Function.update_of_ne hi, h]
  | deleted i =>
    have hi : ino ≠ i := by
      rintro rfl
      exact hdeleted rfl
    refine ⟨file, ?_, Or.inl rfl⟩
    simp only [FileTable.after, Function.update_of_ne hi, h]

end After

open InodeStore

section Life

variable {ops : Rebalance Window} {st st' : InodeStore} {e : FileEvent} {es : List FileEvent}
  {ino : Nat} {P : Inode → Prop}

/-- A number that is given to a new file had no file. -/
theorem InodeStore.Step.fresh {dir : Nat} {mode : UInt16} {inode : Inode} (h : st.Sound)
    (step : InodeStore.Step ops st (.created dir ino mode inode) st') :
    st.files.file ino = none := by
  generalize he : FileEvent.created dir ino mode inode = e at step
  cases step with
  | created parent call fits =>
    obtain ⟨-, rfl, -, -⟩ := FileEvent.created.inj he
    rcases InodeStore.krNewInode_ends h call with ⟨err, -, hres, -⟩ |
      ⟨i, fs', -, hnone, ⟨err, hres, -⟩ | ⟨hres, -⟩⟩
    · cases hres
    · cases hres
    · obtain rfl := Except.ok.inj hres
      exact hnone
  | refused good clock call =>
    split at he
    · cases he
    · cases he
  | ioctl held clock call =>
    unfold InodeStore.ioctlEvent at he
    split at he
    · cases he
    · cases he
    · cases he
  | _ => cases he

/-- What the changes of a file keep stays as long as the file lives. -/
theorem InodeStore.Sound.life (h : st.Sound) (run : Trace (InodeStore.Step ops) st es st')
    (hedit : ∀ edit, .edited ino edit ∈ es → ∀ file, P file → P (edit.apply file))
    (hdeleted : .deleted ino ∉ es) {file : Inode} (hfile : st.files.file ino = some file)
    (hP : P file) : ∃ file', st'.files.file ino = some file' ∧ P file' := by
  induction run generalizing file with
  | done st => exact ⟨file, hfile, hP⟩
  | @cons st st1 st' e es first rest ih =>
    obtain ⟨hsound, hfiles⟩ := h.step first
    have hcreated : ∀ dir mode inode, e ≠ .created dir ino mode inode := by
      rintro dir mode inode rfl
      rw [first.fresh h] at hfile
      cases hfile
    obtain ⟨file1, hfile1, hkeep⟩ := after_lives hfile
      (fun heq => hdeleted (by rw [heq]; exact List.mem_cons_self)) hcreated
    rw [← hfiles] at hfile1
    have hP1 : P file1 := by
      rcases hkeep with rfl | ⟨edit, rfl, rfl⟩
      · exact hP
      · exact hedit edit List.mem_cons_self file hP
    exact ih hsound (fun edit hmem => hedit edit (List.mem_cons_of_mem _ hmem))
      (fun hmem => hdeleted (List.mem_cons_of_mem _ hmem)) hfile1 hP1

/-- What new files have and changes keep holds of the file of a number, once the number has
been given up or if it held before. -/
theorem InodeStore.Sound.renewed (h : st.Sound) (run : Trace (InodeStore.Step ops) st es st')
    (hedit : ∀ edit, .edited ino edit ∈ es → ∀ file, P file → P (edit.apply file))
    (hnew : ∀ before dir mode inode after, es = before ++ .created dir ino mode inode :: after →
      ∀ flags, P (newFile (st.sNextGeneration + UInt32.ofNat (draws before)) flags mode inode))
    (hfirst : .deleted ino ∈ es ∨ ∀ file, st.files.file ino = some file → P file) {file' : Inode}
    (hfile' : st'.files.file ino = some file') : P file' := by
  induction run with
  | done st =>
    rcases hfirst with hmem | hfirst
    · cases hmem
    · exact hfirst file' hfile'
  | @cons st st1 st' e es first rest ih =>
    obtain ⟨hsound, hfiles⟩ := h.step first
    apply ih hsound (fun edit hmem => hedit edit (List.mem_cons_of_mem _ hmem))
    · intro before dir mode inode after hsplit flags
      have hnext : st1.sNextGeneration = if e.draws then st.sNextGeneration + 1
          else st.sNextGeneration := (congrArg FileTable.next hfiles).trans (after_next _ _)
      have hcount : st1.sNextGeneration + UInt32.ofNat (draws before) =
          st.sNextGeneration + UInt32.ofNat (draws (e :: before)) := by
        rw [hnext, draws, draws, List.countP_cons]
        cases e.draws with
        | true =>
          rw [if_pos rfl, if_pos rfl, UInt32.ofNat_add, UInt32.add_assoc,
            UInt32.add_comm 1]
          rfl
        | false => rfl
      rw [hcount]
      exact hnew (e :: before) dir mode inode after (by rw [hsplit]; rfl) flags
    · have hkept : ∀ file, st1.files.file ino = some file →
          (∀ old, st.files.file ino = some old → e ≠ .deleted ino → P old) → P file := by
        intro file hfile hold
        rw [hfiles] at hfile
        rcases after_file hfile with ⟨old, hfound, hne, rfl | ⟨edit, rfl, rfl⟩⟩ |
          ⟨dir, mode, inode, rfl, rfl⟩
        · exact hold file hfound hne
        · exact hedit edit List.mem_cons_self old (hold old hfound hne)
        · have hmade := hnew [] dir mode inode es rfl (st.files.flags dir)
          have hzero : st.sNextGeneration + UInt32.ofNat (draws []) = st.files.next :=
            UInt32.add_zero _
          rwa [hzero] at hmade
      rcases hfirst with hmem | hfirst
      · rcases List.mem_cons.mp hmem with rfl | hlater
        · exact Or.inr fun file hfile => hkept file hfile fun _ _ hne => absurd rfl hne
        · exact Or.inl hlater
      · exact Or.inr fun file hfile => hkept file hfile fun old hfound _ => hfirst old hfound
    · exact hfile'

end Life

section Found

variable {st : InodeStore} {ino : Nat} {file inode : Inode}

/-- `kr_iget` finds a file that is there. -/
theorem InodeStore.Sound.krIget_file (h : st.Sound) (hfile : st.files.file ino = some file) :
    ∃ inode, (st.krIget true ino).1 = .ok inode ∧ inode.image = file ∧ FlagsAgree inode := by
  have hread := h.krIget_eq (h.range_of_file (by rw [hfile]; exact Option.some_ne_none _))
  rwa [hfile] at hread

/-- What `kr_iget` returns is the file. -/
theorem InodeStore.Sound.krIget_ok (h : st.Sound) (hget : (st.krIget true ino).1 = .ok inode) :
    st.files.file ino = some inode.image ∧ FlagsAgree inode := by
  have hrange : inodeInRange st.fs.sbi ino = true := by
    cases hcached : st.cached ino with
    | true => exact h.range ino hcached
    | false => exact krIget_range ((krIget_uncached hcached).symm.trans hget)
  have hread := h.krIget_eq hrange
  cases hfile : st.files.file ino with
  | none =>
    rw [hfile] at hread
    dsimp only at hread
    rw [hget] at hread
    cases hread
  | some file =>
    rw [hfile] at hread
    obtain ⟨found, hfound, rfl, hagree⟩ := hread
    obtain rfl := Except.ok.inj (hget.symm.trans hfound)
    exact ⟨rfl, hagree⟩

end Found

/-! ## File handles -/

section Handles

variable {ops : Rebalance Window} {st : InodeStore} {ino : Nat} {generation : UInt32} {file : Inode}

theorem InodeStore.krNfsGetInode_result (st : InodeStore) (ino : Nat) (generation : UInt32) :
    (st.krNfsGetInode true ino generation).1 =
      if inodeInRange st.fs.sbi ino then
        match (st.krIget true ino).1 with
        | .error err => .error err
        | .ok inode =>
          if generation != 0 && inode.iGeneration != generation then .error .estale else .ok inode
      else .error .estale := by
  unfold krNfsGetInode inodeInRange
  rw [Bool.and_comm]
  cases ino != KR_ROOT_INO && decide (ino < st.fs.sbi.sFirstIno) with
  | true => rfl
  | false =>
    by_cases hlast : st.fs.sbi.sEs.sInodesCount.toNat < ino
    · rw [if_pos hlast, decide_eq_true hlast]
      rfl
    · rw [if_neg hlast, decide_eq_false hlast]
      generalize st.krIget true ino = call
      obtain ⟨res, st'⟩ := call
      cases res with
      | error err => rfl
      | ok inode =>
        dsimp only
        cases generation != 0 && inode.iGeneration != generation with
        | true => rfl
        | false => rfl

/-- A handle whose number has no file of its generation is stale. -/
theorem InodeStore.Sound.handle_stale (h : st.Sound) (hne : generation ≠ 0)
    (hother : ∀ file, st.files.file ino = some file → file.iGeneration ≠ generation) :
    (st.krNfsGetInode true ino generation).1 = .error .estale := by
  rw [krNfsGetInode_result]
  split
  · rename_i hrange
    have hread := h.krIget_eq hrange
    cases hfile : st.files.file ino with
    | none =>
      rw [hfile] at hread
      dsimp only at hread
      rw [hread]
    | some file =>
      rw [hfile] at hread
      obtain ⟨inode, hget, himage, -⟩ := hread
      have hsame : inode.iGeneration = file.iGeneration := (congrArg Inode.iGeneration himage :)
      have hdiffers := hother _ hfile
      rw [hget]
      simp [hne, hsame, hdiffers]
  · rfl

theorem InodeStore.Sound.handle_found (h : st.Sound) (hfile : st.files.file ino = some file)
    (hsame : file.iGeneration = generation) :
    ∃ inode, (st.krNfsGetInode true ino generation).1 = .ok inode ∧ inode.image = file := by
  obtain ⟨inode, hget, himage, -⟩ := h.krIget_file hfile
  have hrange := h.range_of_file (by rw [hfile]; exact Option.some_ne_none _)
  have hgeneration : inode.iGeneration = generation :=
    (congrArg Inode.iGeneration himage).trans hsame
  refine ⟨inode, ?_, himage⟩
  rw [krNfsGetInode_result, if_pos hrange, hget]
  simp [hgeneration]

/-- Only `KR_IOC_SETVERSION` gives a file another generation number. -/
theorem apply_generation {edit : FileEdit} (h : ∀ generation now, edit ≠ .setversion generation now)
    (file : Inode) : (edit.apply file).iGeneration = file.iGeneration := by
  cases edit with
  | changed inode => rfl
  | setflags flags capable now =>
    unfold FileEdit.apply
    dsimp only
    split
    · rfl
    · rfl
  | setversion generation now => exact absurd rfl (h generation now)

/-- The numbers drawn after `generation` are others for 2^32 - 1 draws. -/
theorem drawn_ne {n : Nat} (hn : n + 1 < 2 ^ 32) (generation : UInt32) :
    generation + 1 + UInt32.ofNat n ≠ generation := by
  intro heq
  have hnat := congrArg UInt32.toNat heq
  have hlt := generation.toNat_lt
  rw [UInt32.toNat_add, UInt32.toNat_add, UInt32.toNat_ofNat'] at hnat
  have hone : (1 : UInt32).toNat = 1 := rfl
  rw [hone] at hnat
  omega

/-- A held file can lose its links and be deleted. -/
theorem InodeStore.Sound.unlink (h : st.Sound) (hheld : st.cached ino = true) :
    ∃ inode st', Trace (Step ops) st [.edited ino (.changed inode), .deleted ino] st' := by
  have hfits := (h.fits_of_cached hheld).1
  have hself : Function.update st.fs.inode ino { st.fs.inode ino with iNlink := 0 } ino =
      { st.fs.inode ino with iNlink := 0 } := Function.update_self _ _ _
  have hchanges : st.Changes ino { st.fs with
      inode := Function.update st.fs.inode ino { st.fs.inode ino with iNlink := 0 } } := by
    constructor
    · rfl
    · rfl
    · exact fun i hi => Function.update_of_ne hi _ _
    · dsimp only
      rw [hself]
      exact { hfits with nlink := Nat.zero_le _ }
    · exact (congrArg Inode.iGeneration hself :)
    · exact Or.inl (congrArg Inode.iFlags hself :)
    · exact congrArg (fun inode => storedSFlags inode.sFlags) hself
  have hgood : ({ quietEvict with now := 1 } : EvictEnv).isBadInode = false := rfl
  exact ⟨_, _, .cons (.changed hheld hchanges)
    (.cons (.deleted false hheld (congrArg Inode.iNlink hself) hgood (by decide)) (.done _))⟩

end Handles

/-- A file handle, made of the number and the generation of a file, is good for that file
as long as it lives, through stores, drops and reads. From its deletion on the handle is stale,
also when the number belongs to another file, until 2^32 generation numbers have been drawn; a
generation number of 0 says nothing. -/
theorem nfsHandle_valid {ops : Rebalance Window} {st st1 st' : InodeStore} {es : List FileEvent}
    {dir ino : Nat} {mode : UInt16} {inode : Inode} (sound : st.Sound)
    (first : InodeStore.Step ops st (.created dir ino mode inode) st1)
    (run : Trace (InodeStore.Step ops) st1 es st')
    (kept : ∀ generation now, .edited ino (.setversion generation now) ∉ es) :
    (.deleted ino ∉ es → ∃ found, (st'.krNfsGetInode true ino st.sNextGeneration).1 = .ok found ∧
      st'.files.file ino = some found.image) ∧
    (.deleted ino ∈ es → st.sNextGeneration ≠ 0 → draws es < 2 ^ 32 →
      (st'.krNfsGetInode true ino st.sNextGeneration).1 = .error .estale) := by
  obtain ⟨hsound1, hfiles1⟩ := sound.step first
  have hsound := (hsound1.run run).1
  have hedit : ∀ edit, .edited ino edit ∈ es → ∀ file : Inode,
      (edit.apply file).iGeneration = file.iGeneration := by
    intro edit hmem
    apply apply_generation
    rintro generation now rfl
    exact kept generation now hmem
  constructor
  · intro hlives
    have hfile : st1.files.file ino =
        some (newFile st.sNextGeneration (st.files.flags dir) mode inode) := by
      rw [hfiles1]
      exact Function.update_self _ _ _
    obtain ⟨file, hfile', hsame⟩ := hsound1.life run
      (P := fun file => file.iGeneration = st.sNextGeneration)
      (fun edit hmem file hP => (hedit edit hmem file).trans hP) hlives hfile rfl
    obtain ⟨found, hget, himage⟩ := hsound.handle_found hfile' hsame
    rw [← himage] at hfile'
    exact ⟨found, hget, hfile'⟩
  · intro hdeleted nonzero few
    apply hsound.handle_stale nonzero
    intro file hfile
    apply hsound1.renewed run (P := fun file => file.iGeneration ≠ st.sNextGeneration) _ _
      (Or.inl hdeleted) hfile
    · intro edit hmem file hP
      rw [hedit edit hmem file]
      exact hP
    · intro before dir mode inode after hsplit flags
      have hnext : st1.sNextGeneration = st.sNextGeneration + 1 := congrArg FileTable.next hfiles1
      have hcount : draws before + 1 ≤ draws es := by
        rw [hsplit, draws, draws, List.countP_append, List.countP_cons_of_pos rfl]
        omega
      change st1.sNextGeneration + _ ≠ _
      rw [hnext]
      exact drawn_ne (by omega) _

/-- A file made in the root directory is unlinked and deleted; then its handle is stale. -/
theorem nfsHandle_valid_deleted : ∃ inode st st',
    Step Rebalance.plain rootStore (.created KR_ROOT_INO 12 0x8180 inode) st ∧
    (∃ last, Trace (Step Rebalance.plain) st [.edited 12 (.changed last), .deleted 12] st') ∧
    (st'.krNfsGetInode true 12 7).1 = .error .estale := by
  obtain ⟨inode, st, first, hheld, -⟩ := rootStore_created
  obtain ⟨last, st', run⟩ := (rootStore_sound.step first).1.unlink hheld
  obtain ⟨-, hstale⟩ := nfsHandle_valid rootStore_sound first run (by simp)
  exact ⟨inode, st, st', first, ⟨last, run⟩,
    hstale (by simp) (by decide) (by simp [draws, FileEvent.draws])⟩

/-! ## Flags -/

/-- The flags that no user changes; that of an indexed directory goes when its index does. -/
def fixedFlags : UInt32 := ~~~KR_FL_USER_MODIFIABLE &&& ~~~KR_BTREE_FL

section Flags

variable {mask x : UInt32} {edit : FileEdit} {file inode : Inode}

/-- Flags that `KR_IOC_SETFLAGS` leaves stay; the rest of the file system may clear one. -/
theorem apply_flags (hbtree : ∀ inode, edit = .changed inode → ~~~KR_BTREE_FL &&& mask = mask)
    (hset : ∀ flags capable now, edit = .setflags flags capable now →
      changesProtected file.iMode file.iFlags flags = false ∨ capable = true →
      setflagsWord file.iMode file.iFlags flags &&& mask = file.iFlags &&& mask) :
    (edit.apply file).iFlags &&& mask = file.iFlags &&& mask := by
  cases edit with
  | changed inode =>
    unfold FileEdit.apply
    dsimp only
    split
    · rfl
    · rw [UInt32.and_assoc, hbtree inode rfl]
  | setversion generation now => rfl
  | setflags flags capable now =>
    unfold FileEdit.apply
    dsimp only
    split
    · rfl
    · rename_i hallowed
      apply hset flags capable now rfl
      cases hsame : changesProtected file.iMode file.iFlags flags with
      | false => exact Or.inl rfl
      | true =>
        rw [hsame] at hallowed
        simpa using hallowed

theorem apply_protected (h : ∀ flags now, edit ≠ .setflags flags true now) :
    (edit.apply file).iFlags &&& protectedFlags = file.iFlags &&& protectedFlags := by
  apply apply_flags
  · exact fun _ _ => by decide
  · rintro flags capable now rfl (hsame | rfl)
    · exact setflagsWord_protected hsame
    · exact absurd rfl (h flags now)

theorem apply_fixed (edit : FileEdit) (file : Inode) :
    (edit.apply file).iFlags &&& fixedFlags = file.iFlags &&& fixedFlags := by
  apply apply_flags
  · exact fun _ _ => by decide
  · intro flags capable now _ _
    rw [fixedFlags, ← UInt32.and_assoc, setflagsWord_fixed, UInt32.and_assoc]

/-- No call of `kr_ioctl` changes a flag that is not for users. -/
theorem apply_unmodifiable (h : ∀ inode, edit ≠ .changed inode) :
    (edit.apply file).iFlags &&& ~~~KR_FL_USER_MODIFIABLE =
      file.iFlags &&& ~~~KR_FL_USER_MODIFIABLE := by
  apply apply_flags
  · exact fun inode hchanged => absurd hchanged (h inode)
  · exact fun flags capable now _ _ => setflagsWord_fixed _ _ _

/-- An index is not marked where there was none. -/
theorem apply_btree (edit : FileEdit) (h : file.iFlags &&& KR_BTREE_FL = 0) :
    (edit.apply file).iFlags &&& KR_BTREE_FL = 0 := by
  by_cases hchanged : ∃ inode, edit = .changed inode
  · obtain ⟨inode, rfl⟩ := hchanged
    unfold FileEdit.apply
    dsimp only
    split
    · exact h
    · rw [UInt32.and_assoc, UInt32.and_comm (~~~KR_BTREE_FL), ← UInt32.and_assoc, h, UInt32.zero_and]
  · have hinside : ~~~KR_FL_USER_MODIFIABLE &&& KR_BTREE_FL = KR_BTREE_FL := by decide
    rw [not_exists] at hchanged
    rw [← hinside, ← UInt32.and_assoc, apply_unmodifiable hchanged, UInt32.and_assoc, hinside]
    exact h

/-- A new file inherits no protected flag. -/
theorem newFile_protected (generation flags : UInt32) (mode : UInt16) (inode : Inode) :
    (newFile generation flags mode inode).iFlags &&& protectedFlags = 0 := by
  change krMaskFlags mode (flags &&& KR_FL_INHERITED) &&& protectedFlags = 0
  have hmasked : ∀ mask, KR_FL_INHERITED &&& (mask &&& protectedFlags) = 0 →
      flags &&& KR_FL_INHERITED &&& mask &&& protectedFlags = 0 := by
    intro mask h
    rw [UInt32.and_assoc, UInt32.and_assoc, h, UInt32.and_zero]
  unfold krMaskFlags
  split
  · rw [UInt32.and_assoc, (by decide : KR_FL_INHERITED &&& protectedFlags = 0), UInt32.and_zero]
  split
  · exact hmasked _ (by decide)
  · exact hmasked _ (by decide)

/-- The two protected flags as the VFS has them. -/
theorem FlagsAgree.protected_iff (h : FlagsAgree inode)
    (hsame : inode.iFlags &&& protectedFlags = x &&& protectedFlags) :
    (inode.sFlags &&& S_IMMUTABLE ≠ 0 ↔ x &&& KR_IMMUTABLE_FL ≠ 0) ∧
      (inode.sFlags &&& S_APPEND ≠ 0 ↔ x &&& KR_APPEND_FL ≠ 0) := by
  have hbit : ∀ bit, protectedFlags &&& bit = bit → inode.iFlags &&& bit = x &&& bit := by
    intro bit hinside
    rw [← hinside, ← UInt32.and_assoc, hsame, UInt32.and_assoc]
  rw [← h.immutable, ← h.append, hbit _ (by decide), hbit _ (by decide)]
  exact ⟨Iff.rfl, Iff.rfl⟩

end Flags

/-- Flags that are not for users to change stay in every run, whoever calls `kr_ioctl`, as long
as the file lives. That of an indexed directory may go, but it does not come, and `kr_ioctl`
leaves it too. -/
theorem fixedFlags_kept {ops : Rebalance Window} {st st' : InodeStore} {es : List FileEvent}
    {ino : Nat} {file : Inode} (sound : st.Sound) (run : Trace (InodeStore.Step ops) st es st')
    (found : st.files.file ino = some file) (lives : .deleted ino ∉ es) :
    ∃ inode, (st'.krIget true ino).1 = .ok inode ∧
      inode.iFlags &&& fixedFlags = file.iFlags &&& fixedFlags ∧
      (file.iFlags &&& KR_BTREE_FL = 0 → inode.iFlags &&& KR_BTREE_FL = 0) ∧
      ((∀ changed, .edited ino (.changed changed) ∉ es) →
        inode.iFlags &&& ~~~KR_FL_USER_MODIFIABLE = file.iFlags &&& ~~~KR_FL_USER_MODIFIABLE) := by
  have hlife : ∀ {P : Inode → Prop}, P file → (∀ edit, .edited ino edit ∈ es → ∀ old, P old →
      P (edit.apply old)) → ∀ file', st'.files.file ino = some file' → P file' := by
    intro P hfirst hedit file' hfile'
    obtain ⟨last, hlast, hP⟩ := sound.life run hedit lives found hfirst
    rw [hlast] at hfile'
    cases hfile'
    exact hP
  obtain ⟨file', hfile', -⟩ := sound.life run (P := fun _ => True) (fun _ _ _ _ => trivial) lives
    found trivial
  obtain ⟨inode, hget, rfl, -⟩ := (sound.run run).1.krIget_file hfile'
  refine ⟨inode, hget, ?_, ?_, ?_⟩
  · exact (hlife (P := fun old => old.iFlags &&& fixedFlags = file.iFlags &&& fixedFlags) rfl
      (fun edit _ old hP => (apply_fixed edit old).trans hP) _ hfile' :)
  · intro hunset
    exact (hlife (P := fun old => old.iFlags &&& KR_BTREE_FL = 0) hunset
      (fun edit _ old hP => apply_btree edit hP) _ hfile' :)
  · intro hnone
    have hedit : ∀ edit, .edited ino edit ∈ es → ∀ old : Inode,
        old.iFlags &&& ~~~KR_FL_USER_MODIFIABLE = file.iFlags &&& ~~~KR_FL_USER_MODIFIABLE →
        (edit.apply old).iFlags &&& ~~~KR_FL_USER_MODIFIABLE =
          file.iFlags &&& ~~~KR_FL_USER_MODIFIABLE := by
      intro edit hmem old hP
      refine (apply_unmodifiable ?_).trans hP
      rintro changed rfl
      exact hnone changed hmem
    exact (hlife (P := fun old => old.iFlags &&& ~~~KR_FL_USER_MODIFIABLE =
      file.iFlags &&& ~~~KR_FL_USER_MODIFIABLE) rfl hedit _ hfile' :)

/-- A user with the capability makes the root directory immutable. -/
def immutableEnv : IoctlEnv := ⟨none, true, true, some KR_IMMUTABLE_FL, true, false, 0⟩

def immutableStore : InodeStore :=
  (rootStore.krIoctl immutableEnv tinyGetEnv KR_ROOT_INO .setflags).2

theorem immutableStore_made : Step Rebalance.plain rootStore
    (.edited KR_ROOT_INO (.setflags KR_IMMUTABLE_FL true 0)) immutableStore := by
  have hcall : rootStore.krIoctl immutableEnv tinyGetEnv KR_ROOT_INO .setflags =
      (.ok none, immutableStore) := rfl
  exact .ioctl (by decide) (by decide) hcall

theorem fixedFlags_kept_immutable : ∃ inode,
    (immutableStore.krIget true KR_ROOT_INO).1 = .ok inode ∧
      inode.iFlags &&& ~~~KR_FL_USER_MODIFIABLE = 0 := by
  have hroot : rootStore.cached KR_ROOT_INO = true := rfl
  obtain ⟨inode, hget, -, -, hcalls⟩ := fixedFlags_kept rootStore_sound
    (.cons immutableStore_made (.done _)) (file_of_cached hroot) (by simp)
  exact ⟨inode, hget, hcalls (by simp)⟩

/-- Unless a user with the capability sets its flags, a file stays immutable or append-only, or
neither, as the VFS sees it after any stores, drops and reads, and a file that was made in the
run is neither. -/
theorem protectedFlags_kept {ops : Rebalance Window} {st st' : InodeStore} {es : List FileEvent}
    {ino : Nat} (sound : st.Sound) (run : Trace (InodeStore.Step ops) st es st')
    (incapable : ∀ flags now, .edited ino (.setflags flags true now) ∉ es) :
    (∀ file, st.files.file ino = some file → .deleted ino ∉ es →
      ∃ inode, (st'.krIget true ino).1 = .ok inode ∧
        (inode.sFlags &&& S_IMMUTABLE ≠ 0 ↔ file.iFlags &&& KR_IMMUTABLE_FL ≠ 0) ∧
        (inode.sFlags &&& S_APPEND ≠ 0 ↔ file.iFlags &&& KR_APPEND_FL ≠ 0)) ∧
    (.deleted ino ∈ es ∨ st.files.file ino = none →
      ∀ inode, (st'.krIget true ino).1 = .ok inode →
        inode.sFlags &&& S_IMMUTABLE = 0 ∧ inode.sFlags &&& S_APPEND = 0) := by
  have hsound := (sound.run run).1
  have hedit : ∀ edit, .edited ino edit ∈ es → ∀ file : Inode,
      (edit.apply file).iFlags &&& protectedFlags = file.iFlags &&& protectedFlags := by
    intro edit hmem file
    apply apply_protected
    rintro flags now rfl
    exact incapable flags now hmem
  constructor
  · intro file hfile hlives
    obtain ⟨file', hfile', hprotected⟩ := sound.life run
      (P := fun file' => file'.iFlags &&& protectedFlags = file.iFlags &&& protectedFlags)
      (fun edit hmem old hP => (hedit edit hmem old).trans hP) hlives hfile rfl
    obtain ⟨inode, hget, rfl, hagree⟩ := hsound.krIget_file hfile'
    exact ⟨inode, hget, hagree.protected_iff hprotected⟩
  · intro hgone inode hget
    obtain ⟨hfile, hagree⟩ := hsound.krIget_ok hget
    have hnone : inode.iFlags &&& protectedFlags = 0 := by
      apply sound.renewed run (P := fun file => file.iFlags &&& protectedFlags = 0) _ _ _ hfile
      · intro edit hmem file hP
        exact (hedit edit hmem file).trans hP
      · intro before dir mode inode after _ flags
        exact newFile_protected _ _ _ _
      · refine hgone.imp_right fun hfirst file hold => ?_
        rw [hfirst] at hold
        cases hold
    obtain ⟨himmutable, happend⟩ := hagree.protected_iff (hnone.trans UInt32.zero_and.symm)
    exact ⟨not_not.mp fun h => himmutable.mp h UInt32.zero_and,
      not_not.mp fun h => happend.mp h UInt32.zero_and⟩

/-- It is immutable after it was dropped and read again. -/
theorem protectedFlags_kept_immutable : ∃ st' : InodeStore, st'.cached KR_ROOT_INO = false ∧
    ∃ inode, (st'.krIget true KR_ROOT_INO).1 = .ok inode ∧ inode.sFlags &&& S_IMMUTABLE ≠ 0 := by
  have hsound := (rootStore_sound.step immutableStore_made).1
  have hheld : immutableStore.cached KR_ROOT_INO = true := rfl
  have hleaves : ∃ st', Trace (Step Rebalance.plain) immutableStore [.still, .still] st' ∧
      st'.cached KR_ROOT_INO = false := hsound.forget hheld (by decide)
  obtain ⟨st', run, hforgot⟩ := hleaves
  obtain ⟨hlives, -⟩ := protectedFlags_kept hsound run (by simp)
  obtain ⟨inode, hget, himmutable, -⟩ := hlives _ (file_of_cached hheld) (by simp)
  exact ⟨st', hforgot, inode, hget, himmutable.mpr (by decide)⟩

end KrFs
