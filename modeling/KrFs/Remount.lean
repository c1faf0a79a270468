import KrFs.SuperState

/-!
# Remounts that fail

`kr_remount` with all of the fields that it may change: the options are set one by one
until one of them is refused, `MS_POSIXACL` follows the options, and a file system that
becomes read-only is marked with `s_mount_state` and the time before `dquot_suspend` is
asked. The label `restore_opts` gives back the options and the flags only.
-/

namespace KrFs

open Flags

/-- `MS_POSIXACL`. -/
def MS_POSIXACL : BitVec 64 := 0x10000

/-- The superblock with the flags of `sb->s_flags` other than `MS_RDONLY`, and with the
time of the last mount. -/
structure MountedSb extends Super where
  sFlags : BitVec 64
  sMtime : UInt32
deriving DecidableEq

/-- The rounds of the loop of `parse_options`: whether it returns 1, and the options as
it leaves them. -/
def applyOptions (config : KrConfig) : List (List Char) → MountOptions → Bool × MountOptions
  | [], o => (true, o)
  | p :: rest, o =>
    match parseOption config o p with
    | none => (false, o)
    | some o => applyOptions config rest o

namespace MountedSb

/-- The label `restore_opts`. -/
def restoreOpts (s old : MountedSb) : MountedSb :=
  { s with
    toSuper := { s.toSuper with options := old.options, rdonly := old.rdonly }
    sFlags := old.sFlags }

def setOptions (s : MountedSb) (options : MountOptions) : MountedSb :=
  { s with toSuper := { s.toSuper with options := options } }

/-- `MS_POSIXACL` as the options have it. -/
def setPosixAcl (s : MountedSb) : MountedSb :=
  { s with sFlags := s.sFlags &&& ~~~ MS_POSIXACL |||
      if s.options.testOpt .posixAcl then MS_POSIXACL else 0 }

/-- `sync_filesystem`. -/
def syncFilesystem (r : RemountCall) (s : MountedSb) : Option MountedSb :=
  (s.toSuper.syncFilesystem r).map fun t => { s with toSuper := t }

/-- The branch that makes a writable file system read-only. -/
def remountRdonly (r : RemountCall) (now : UInt32) (s old : MountedSb) :
    Option (Bool × MountedSb) :=
  if fsState.test s.sState .valid || !fsState.test s.sMountState .valid then some (true, s)
  else (s.storeState.reports r.suspend).map fun t =>
    let s := { s with toSuper := t, sMtime := now }
    if r.suspendFails then (false, s.restoreOpts old)
    else (true, { s with toSuper := t.krSyncSuper })

/-- The branch that makes a read-only file system writable. -/
def remountRdwr (r : RemountCall) (s old : MountedSb) : Option (Bool × MountedSb) :=
  if s.unsupportedRoCompat then some (false, s.restoreOpts old)
  else
    let setup := s.readState.krSetupSuper false
    ((setup.2.setRdonly (s.rdonly && setup.1)).krWriteSuper r.quota).bind fun t =>
      (t.reports r.resume).map fun t => (true, { s with toSuper := t })

/-- `kr_remount` at the time `now`. -/
def krRemount (config : KrConfig) (r : RemountCall) (now : UInt32) (s : MountedSb) :
    Option (Bool × MountedSb) :=
  (s.syncFilesystem r).bind fun s =>
    match applyOptions config (r.data.splitOn ',') s.options with
    | (false, options) => some (false, (s.setOptions options).restoreOpts s)
    | (true, options) =>
      let t := (s.setOptions options).setPosixAcl
      if r.rdonly = t.rdonly then some (true, t)
      else if r.rdonly then t.remountRdonly r now s
      else t.remountRdwr r s

end MountedSb

section Options

variable {config : KrConfig}

/-- The loop stops at an option that is refused, and else has set them all. -/
theorem applyOptions_eq (ps : List (List Char)) (o : MountOptions) :
    ps.foldlM (parseOption config) o =
      if (applyOptions config ps o).1 then some (applyOptions config ps o).2 else none := by
  induction ps generalizing o with
  | nil => rfl
  | cons p ps ih =>
    rw [List.foldlM_cons, applyOptions]
    cases parseOption config o p with
    | none => rfl
    | some o' => exact ih o'

theorem parseOptions_of_apply {data : List Char} {o o' : MountOptions}
    (h : applyOptions config (data.splitOn ',') o = (true, o')) :
    parseOptions config o data = some o' := by
  unfold parseOptions
  rw [applyOptions_eq, h]
  rfl

theorem parseOptions_of_refused {data : List Char} {o o' : MountOptions}
    (h : applyOptions config (data.splitOn ',') o = (false, o')) :
    parseOptions config o data = none := by
  unfold parseOptions
  rw [applyOptions_eq, h]
  rfl

end Options

namespace MountedSb

section Refines

variable {config : KrConfig} {r : RemountCall} {now : UInt32} {s old : MountedSb}

theorem remountRdonly_toSuper :
    (s.remountRdonly r now old).map (fun result => (result.1, result.2.toSuper)) =
      s.toSuper.remountRdonly r old.toSuper := by
  unfold remountRdonly Super.remountRdonly
  split
  · rfl
  · rw [Option.map_map]
    congr 1
    funext t
    dsimp only [Function.comp]
    split
    · rfl
    · rfl

theorem remountRdwr_toSuper :
    (s.remountRdwr r old).map (fun result => (result.1, result.2.toSuper)) =
      s.toSuper.remountRdwr r old.toSuper := by
  unfold remountRdwr Super.remountRdwr
  split
  · rfl
  · rw [Option.map_bind]
    congr 1
    funext t
    rw [Function.comp_apply, Option.map_map]
    rfl

/-- Without the flags and the time this is `kr_remount` as it acts on the state. -/
theorem krRemount_toSuper (config : KrConfig) (r : RemountCall) (now : UInt32) (s : MountedSb) :
    (s.krRemount config r now).map (fun result => (result.1, result.2.toSuper)) =
      s.toSuper.krRemount config r := by
  unfold krRemount Super.krRemount syncFilesystem
  rw [Option.map_bind, Option.bind_map]
  congr 1
  funext t
  dsimp only [Function.comp]
  rcases happly : applyOptions config (r.data.splitOn ',') t.options with ⟨ok, options⟩
  cases ok with
  | false =>
    rw [parseOptions_of_refused happly]
    rfl
  | true =>
    rw [parseOptions_of_apply happly]
    dsimp only
    have hrdonly : ((({ s with toSuper := t } : MountedSb).setOptions options).setPosixAcl).rdonly =
        t.rdonly := rfl
    rw [hrdonly]
    split
    · rfl
    · split
      · exact remountRdonly_toSuper
      · exact remountRdwr_toSuper

end Refines

/-- The fields that a failed remount is to leave alone. -/
structure Kept (s t : MountedSb) : Prop where
  options : t.options = s.options
  flags : t.sFlags = s.sFlags ∧ t.rdonly = s.rdonly
  sMountState : t.sMountState = s.sMountState
  sState : t.sState = s.sState
  sMtime : t.sMtime = s.sMtime
  sMntCount : t.sMntCount = s.sMntCount

/-- The call gets to `dquot_suspend`, and this fails and does not panic. -/
def SuspendFails (config : KrConfig) (r : RemountCall) (s : MountedSb) : Prop :=
  ∃ options, parseOptions config s.options r.data = some options ∧ r.rdonly = true ∧
    s.rdonly = false ∧ fsState.test s.sState .valid = false ∧
    fsState.test s.sMountState .valid = true ∧ r.suspendFails = true ∧
    (r.suspend = 0 ∨ options.testOpt .errorsPanic = false)

end MountedSb

section Reports

variable {s t : Super}

theorem Super.krError_valid (h : s.krError = some t) :
    fsState.test t.sState .valid = fsState.test s.sState .valid ∧ t.options = s.options := by
  have hrecord : fsState.test s.recordError.sState .valid = fsState.test s.sState .valid ∧
      s.recordError.options = s.options := by
    unfold Super.recordError
    split
    · exact ⟨rfl, rfl⟩
    · refine ⟨?_, rfl⟩
      simp [Super.krSyncSuper, Super.record, Super.raiseError]
  unfold Super.krError at h
  dsimp only at h
  split at h
  · cases h
  · split at h
    · cases h
      exact hrecord
    · cases h
      exact hrecord

/-- Errors do not change the valid bit. -/
theorem Super.reports_valid {n : Nat} (h : s.reports n = some t) :
    fsState.test t.sState .valid = fsState.test s.sState .valid := by
  induction n generalizing s with
  | zero =>
    cases h
    rfl
  | succ n ih =>
    obtain ⟨u, herror, hrest⟩ := Option.bind_eq_some_iff.mp h
    exact (ih hrest).trans (Super.krError_valid herror).1

theorem Super.krError_isSome :
    s.krError.isSome = true ↔ s.options.testOpt .errorsPanic = false := by
  have hoptions : s.recordError.options = s.options := by
    unfold Super.recordError
    split
    · rfl
    · rfl
  unfold Super.krError
  dsimp only
  rw [hoptions]
  cases s.options.testOpt .errorsPanic with
  | true => exact iff_of_false (fun h => nomatch h) (fun h => nomatch h)
  | false =>
    refine iff_of_true ?_ rfl
    rw [if_neg (by simp)]
    split
    · rfl
    · rfl

/-- They end in a panic if there are any and the options say so. -/
theorem Super.reports_isSome {n : Nat} :
    (s.reports n).isSome = true ↔ n = 0 ∨ s.options.testOpt .errorsPanic = false := by
  induction n generalizing s with
  | zero => exact iff_of_true rfl (Or.inl rfl)
  | succ n ih =>
    cases herror : s.krError with
    | none =>
      have hpanic : ¬ s.options.testOpt .errorsPanic = false := by
        rw [← Super.krError_isSome, herror]
        exact Bool.false_ne_true
      simp [Super.reports, herror, hpanic]
    | some u =>
      have hkept : u.options = s.options := (Super.krError_valid herror).2
      have hok : s.options.testOpt .errorsPanic = false := by
        rw [← Super.krError_isSome, herror]
        rfl
      have hrest : (u.reports n).isSome = true := ih.mpr (Or.inr (by rw [hkept]; exact hok))
      simp [Super.reports, herror, hrest, hok]

end Reports

namespace MountedSb

section Failed

variable {config : KrConfig} {r : RemountCall} {now : UInt32} {s old t : MountedSb}

/-- What the branch to read-only leaves behind when it fails: the valid bit. -/
theorem remountRdonly_failed (h : s.remountRdonly r now old = some (false, t)) :
    fsState.test s.sState .valid = false ∧ fsState.test s.sMountState .valid = true ∧
      r.suspendFails = true ∧ (s.storeState.reports r.suspend).isSome = true ∧
      fsState.test t.sState .valid = true := by
  unfold remountRdonly at h
  split at h
  · cases h
  · rename_i hstate
    obtain ⟨u, hreports, heq⟩ := Option.map_eq_some_iff.mp h
    have hstate' : fsState.test s.sState .valid = false ∧
        fsState.test s.sMountState .valid = true := by simpa using hstate
    dsimp only at heq
    split at heq
    · rename_i hfails
      cases heq
      refine ⟨hstate'.1, hstate'.2, hfails, ?_, ?_⟩
      · rw [hreports]
        rfl
      · exact (Super.reports_valid hreports).trans hstate'.2
    · cases heq

theorem remountRdonly_fails (now : UInt32) (s old : MountedSb)
    (hdisk : fsState.test s.sState .valid = false)
    (hmount : fsState.test s.sMountState .valid = true) (hfails : r.suspendFails = true)
    (hreports : (s.storeState.reports r.suspend).isSome = true) :
    ∃ t, s.remountRdonly r now old = some (false, t) := by
  obtain ⟨u, hu⟩ := Option.isSome_iff_exists.mp hreports
  unfold remountRdonly
  rw [hdisk, hmount, hu]
  dsimp only
  rw [if_neg (by decide), Option.map_some, if_pos hfails]
  exact ⟨_, rfl⟩

theorem remountRdwr_failed (h : s.remountRdwr r old = some (false, t)) :
    t = s.restoreOpts old := by
  unfold remountRdwr at h
  split at h
  · cases h
    rfl
  · obtain ⟨u, -, hrest⟩ := Option.bind_eq_some_iff.mp h
    obtain ⟨v, -, heq⟩ := Option.map_eq_some_iff.mp hrest
    cases heq

/-- Giving back the options and the flags is enough as long as nothing else has changed. -/
theorem kept_restoreOpts (options : MountOptions) :
    s.Kept (((s.setOptions options).setPosixAcl).restoreOpts s) :=
  ⟨rfl, ⟨rfl, rfl⟩, rfl, rfl, rfl, rfl⟩

end Failed

/-- A remount that fails leaves the mount as it was after `sync_filesystem`, just when it
does not fail in `dquot_suspend`. -/
theorem krRemount_kept_iff (config : KrConfig) (r : RemountCall) (now : UInt32) (s : MountedSb) :
    (∀ s₁ t, s.syncFilesystem r = some s₁ → s.krRemount config r now = some (false, t) →
        s₁.Kept t) ↔
      ∀ s₁, s.syncFilesystem r = some s₁ → ¬ s₁.SuspendFails config r := by
  constructor
  · rintro hkept s₁ hsync ⟨options, hparse, hrdonly, hold, hdisk, hmount, hfails, hreports⟩
    have happly : applyOptions config (r.data.splitOn ',') s₁.options = (true, options) := by
      rcases happly : applyOptions config (r.data.splitOn ',') s₁.options with ⟨ok, left⟩
      cases ok with
      | false =>
        rw [parseOptions_of_refused happly] at hparse
        cases hparse
      | true =>
        rw [parseOptions_of_apply happly] at hparse
        cases hparse
        rfl
    obtain ⟨t, ht⟩ := remountRdonly_fails now ((s₁.setOptions options).setPosixAcl) s₁ hdisk hmount
      hfails (Super.reports_isSome.mpr hreports)
    have hcall : s.krRemount config r now = some (false, t) := by
      unfold krRemount
      rw [hsync, Option.bind_some, happly]
      dsimp only
      rw [if_neg ?_, if_pos hrdonly]
      · exact ht
      · rw [hrdonly]
        exact fun heq => Bool.false_ne_true (hold.symm.trans heq.symm)
    have hstate := (hkept s₁ t hsync hcall).sState
    have hvalid := (remountRdonly_failed ht).2.2.2.2
    rw [hstate, hdisk] at hvalid
    cases hvalid
  · intro hno s₁ t hsync hcall
    unfold krRemount at hcall
    rw [hsync, Option.bind_some] at hcall
    rcases happly : applyOptions config (r.data.splitOn ',') s₁.options with ⟨ok, options⟩
    rw [happly] at hcall
    cases ok with
    | false =>
      cases hcall
      exact ⟨rfl, ⟨rfl, rfl⟩, rfl, rfl, rfl, rfl⟩
    | true =>
      dsimp only at hcall
      split at hcall
      · cases hcall
      · rename_i hdiffer
        split at hcall
        · rename_i hrdonly
          obtain ⟨hdisk, hmount, hfails, hreports, -⟩ := remountRdonly_failed hcall
          refine absurd ⟨options, parseOptions_of_apply happly, hrdonly, ?_, hdisk, hmount, hfails,
            Super.reports_isSome.mp hreports⟩ (hno s₁ hsync)
          rw [hrdonly] at hdiffer
          exact Bool.eq_false_iff.mpr fun htrue => hdiffer htrue.symm
        · rw [remountRdwr_failed hcall]
          exact kept_restoreOpts options

/-- A writable file system that was clean when it was mounted. -/
def cleanSb : MountedSb :=
  { sState := 0, sRevLevel := 1, sFeatureRoCompat := 3, sMntCount := 5, sMaxMntCount := 20,
    sMountState := 1, options := ⟨0x80010, 0, 0⟩, rdonly := false, mounted := true, log := [],
    sFlags := 0, sMtime := 7 }

/-- When `dquot_suspend` fails the file system is still writable and marked as clean. -/
theorem krRemount_marked :
    let r : RemountCall := ⟨true, [], 0, 0, 0, 0, 0, true, 0, 0, false⟩
    ∃ s₁ t, cleanSb.syncFilesystem r = some s₁ ∧
      cleanSb.krRemount ⟨true, true⟩ r 9 = some (false, t) ∧ ¬ s₁.Kept t ∧
      t.rdonly = false ∧ s₁.sState = 0 ∧ t.sState = 1 ∧ s₁.sMtime = 7 ∧ t.sMtime = 9 := by
  intro r
  obtain ⟨s₁, hsync⟩ : ∃ s₁, cleanSb.syncFilesystem r = some s₁ :=
    Option.isSome_iff_exists.mp (by decide +kernel)
  obtain ⟨⟨ok, t⟩, hcall⟩ : ∃ result, cleanSb.krRemount ⟨true, true⟩ r 9 = some result :=
    Option.isSome_iff_exists.mp (by decide +kernel)
  have hbefore : (cleanSb.syncFilesystem r).map (fun s => (s.sState, s.sMtime)) = some (0, 7) := by
    decide +kernel
  have hafter : (cleanSb.krRemount ⟨true, true⟩ r 9).map (fun result =>
      (result.1, result.2.rdonly, result.2.sState, result.2.sMtime)) =
      some (false, false, 1, 9) := by decide +kernel
  rw [hsync, Option.map_some, Option.some_inj, Prod.mk.injEq] at hbefore
  rw [hcall, Option.map_some, Option.some_inj, Prod.mk.injEq, Prod.mk.injEq, Prod.mk.injEq] at hafter
  obtain ⟨hstate, htime⟩ := hbefore
  obtain ⟨rfl, hrdonly, hstate', htime'⟩ := hafter
  refine ⟨s₁, t, hsync, hcall, fun hkept => ?_, hrdonly, hstate, hstate', htime, htime'⟩
  have heq := hkept.sMtime
  rw [htime, htime'] at heq
  cases heq

end MountedSb

end KrFs
