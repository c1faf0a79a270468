import KrFs.Options
import KrFs.Superblock
import Mathlib.Logic.Relation

/-!
# The state of the superblock

`s_state` is kept twice: in the superblock and in `s_mount_state`. This module
embeds the functions of `super.c` that copy one to the other or change their
bits: `kr_error`, `kr_sync_fs`, `kr_freeze`, `kr_unfreeze`, `kr_remount`,
`kr_put_super` and the part of `kr_fill_super` from the options on. Writing inodes
or quotas may report errors, so every place where this happens takes the number
of reports. What is read, written and reported goes to a log, the newest first.
-/

namespace KrFs

open Flags Relation

/-- The bits of `s_state`. -/
inductive FsState where
  | valid | error
deriving DecidableEq

/-- The constants `KR_VALID_FS` and `KR_ERROR_FS`. -/
def FsState.mask : FsState → BitVec 16
  | .valid => 0x0001
  | .error => 0x0002

/-- `s_state` as a word of flags. -/
def fsState : Layout FsState 16 where
  mask := FsState.mask
  bit := fun f => Nat.log2 (FsState.mask f).toNat
  bit_lt := by intro f; cases f <;> decide
  bit_inj := by intro f g; cases f <;> cases g <;> decide
  mask_eq := by intro f; cases f <;> decide

inductive SuperEvent where
  /-- `s_mount_state` was taken from this `s_state`. -/
  | read (state : BitVec 16)
  /-- `kr_sync_super` wrote this `s_state`. -/
  | write (state : BitVec 16)
  /-- `kr_error` ran, with or without `MS_RDONLY`. -/
  | error (rdonly : Bool)
deriving DecidableEq

/-- The fields of the superblock, of `struct kr_sb_info` and of `struct super_block`
that these functions use. -/
structure Super where
  sState : BitVec 16
  sRevLevel : UInt32
  sFeatureRoCompat : UInt32
  sMntCount : UInt16
  sMaxMntCount : UInt16
  sMountState : BitVec 16
  options : MountOptions
  rdonly : Bool
  mounted : Bool
  log : List SuperEvent
deriving DecidableEq

def KR_MAX_SUPP_REV : UInt32 := 1
def KR_DFL_MAX_MNT_COUNT : UInt16 := 20

namespace Super

/-- The flag `MS_RDONLY` of `s_flags`. -/
def setRdonly (s : Super) (rdonly : Bool) : Super := { s with rdonly := rdonly }

def record (s : Super) (e : SuperEvent) : Super := { s with log := e :: s.log }

/-- `es->s_state = sbi->s_mount_state`. -/
def storeState (s : Super) : Super := { s with sState := s.sMountState }

/-- `sbi->s_mount_state = es->s_state`. -/
def readState (s : Super) : Super :=
  { s with sMountState := s.sState }.record (.read s.sState)

/-- `kr_sync_super`. -/
def krSyncSuper (s : Super) : Super := s.record (.write s.sState)

/-- The part of `kr_error` under `s_lock`. -/
def raiseError (s : Super) : Super :=
  { s with
    sMountState := fsState.set s.sMountState .error
    sState := fsState.set s.sState .error }

/-- `kr_error` before it looks at the options. -/
def recordError (s : Super) : Super :=
  if s.rdonly then s.record (.error true)
  else (s.raiseError.record (.error false)).krSyncSuper

/-- `kr_error`; `none` is the panic. -/
def krError (s : Super) : Option Super :=
  let t := s.recordError
  if t.options.testOpt .errorsPanic then none
  else if t.options.testOpt .errorsRo then some (t.setRdonly true)
  else some t

/-- Code outside these functions that calls `kr_error` so many times. -/
def reports : Nat → Super → Option Super
  | 0, s => some s
  | n + 1, s => s.krError.bind (reports n)

/-- `kr_sync_fs`, with the reports of `dquot_writeback_dquots`. -/
def krSyncFs (quota : Nat) (s : Super) : Option Super :=
  (s.reports quota).map fun s =>
    (if fsState.test s.sState .valid then { s with sState := fsState.clear s.sState .valid }
      else s).krSyncSuper

/-- `kr_write_super`. -/
def krWriteSuper (quota : Nat) (s : Super) : Option Super :=
  if s.rdonly then some s else s.krSyncFs quota

/-- `kr_freeze`. -/
def krFreeze (sRemoveCount quota : Nat) (s : Super) : Option Super :=
  if sRemoveCount ≠ 0 then s.krSyncFs quota else some s.storeState.krSyncSuper

/-- `kr_unfreeze`. -/
def krUnfreeze (quota : Nat) (s : Super) : Option Super := s.krWriteSuper quota

/-- `kr_put_super`, with the reports of `dquot_disable`. -/
def krPutSuper (quota : Nat) (s : Super) : Option Super :=
  (s.reports quota).map fun s =>
    { (if s.rdonly then s else s.storeState.krSyncSuper) with mounted := false }

/-- `kr_setup_super` but for its messages: whether it asks for `MS_RDONLY`. -/
def krSetupSuper (readOnly : Bool) (s : Super) : Bool × Super :=
  let res := decide (KR_MAX_SUPP_REV < s.sRevLevel)
  if readOnly then (res, s)
  else
    let s := if s.sMaxMntCount = 0 then { s with sMaxMntCount := KR_DFL_MAX_MNT_COUNT } else s
    (res, { s with sMntCount := s.sMntCount + 1 })

/-- `KR_HAS_RO_COMPAT_FEATURE(sb, ~KR_FEATURE_RO_COMPAT_SUPP)`. -/
def unsupportedRoCompat (s : Super) : Bool :=
  s.sFeatureRoCompat &&& ~~~KR_FEATURE_RO_COMPAT_SUPP != 0

end Super

/-- A mount: what is asked for, and what happens on the way. -/
structure MountCall where
  rdonly : Bool
  data : List Char
  /-- The checks of the superblock before `s_state` is read all pass. -/
  accepted : Bool
  /-- Errors that `kr_check_descriptors` and `kr_iget` report. -/
  errors : Nat
  /-- What is read after `s_state` is in order. -/
  opened : Bool
  quota : Nat

/-- A remount: what is asked for, and what happens on the way. -/
structure RemountCall where
  rdonly : Bool
  data : List Char
  /-- Errors of the two rounds of `sync_filesystem`, for inodes and for quotas. -/
  inodes₀ : Nat
  quota₀ : Nat
  inodes₁ : Nat
  quota₁ : Nat
  suspend : Nat
  suspendFails : Bool
  quota : Nat
  resume : Nat
  /-- The caller goes on when `kr_remount` fails. -/
  force : Bool

namespace Super

variable (config : KrConfig) (es : MountDefaults)

/-- `kr_fill_super` from the options on. A mount that fails before it reads the
state leaves the superblock as it is. -/
def krFillSuper (m : MountCall) (s : Super) : Option Super :=
  match mountWith config es m.data with
  | none => some s
  | some (_, options) =>
    if (!m.rdonly && s.unsupportedRoCompat) || !m.accepted then some s
    else
      (({ s with options := options, rdonly := m.rdonly } : Super).readState.reports
        m.errors).bind fun s =>
      if !m.opened then some s
      else
        let setup := s.krSetupSuper s.rdonly
        ((setup.2.setRdonly (s.rdonly || setup.1)).krWriteSuper m.quota).map
          fun s => { s with mounted := true }

/-- `sync_filesystem`: inodes and then `kr_sync_fs`, without and with waiting. -/
def syncFilesystem (r : RemountCall) (s : Super) : Option Super :=
  if s.rdonly then some s
  else (s.reports r.inodes₀).bind fun s => (s.krSyncFs r.quota₀).bind fun s =>
    (s.reports r.inodes₁).bind fun s => s.krSyncFs r.quota₁

/-- The branch of `kr_remount` that makes a writable file system read-only. -/
def remountRdonly (r : RemountCall) (s old : Super) : Option (Bool × Super) :=
  if fsState.test s.sState .valid || !fsState.test s.sMountState .valid then some (true, s)
  else (s.storeState.reports r.suspend).map fun s =>
    if r.suspendFails then (false, { s with options := old.options, rdonly := old.rdonly })
    else (true, s.krSyncSuper)

/-- The branch of `kr_remount` that makes a read-only file system writable. -/
def remountRdwr (r : RemountCall) (s old : Super) : Option (Bool × Super) :=
  if s.unsupportedRoCompat then
    some (false, { s with options := old.options, rdonly := old.rdonly })
  else
    let setup := s.readState.krSetupSuper false
    ((setup.2.setRdonly (s.rdonly && setup.1)).krWriteSuper r.quota).bind fun s =>
      (s.reports r.resume).map fun s => (true, s)

/-- `kr_remount`: whether it succeeds, and the new state. -/
def krRemount (r : RemountCall) (s : Super) : Option (Bool × Super) :=
  (s.syncFilesystem r).bind fun s =>
    match parseOptions config s.options r.data with
    | none => some (false, s)
    | some options =>
      let t := { s with options := options }
      if r.rdonly = t.rdonly then some (true, t)
      else if r.rdonly then t.remountRdonly r s
      else t.remountRdwr r s

/-- The caller of `kr_remount` sets the flag that was asked for. -/
def doRemountSb (r : RemountCall) (s : Super) : Option Super :=
  (s.krRemount config r).map fun result =>
    if result.1 || r.force then result.2.setRdonly r.rdonly else result.2

end Super

/-- What can happen to the file system. -/
inductive SuperOp where
  | mount (m : MountCall)
  | error
  | syncFs (quota : Nat)
  | freeze (sRemoveCount quota : Nat)
  | unfreeze (quota : Nat)
  | remount (r : RemountCall)
  | putSuper (quota : Nat)

/-- One operation; `none` if it panics or cannot be called. -/
def SuperOp.step (config : KrConfig) (es : MountDefaults) (s : Super) : SuperOp → Option Super
  | .mount m => if s.mounted then none else s.krFillSuper config es m
  | .error => if s.mounted then s.krError else none
  | .syncFs quota => if s.mounted then s.krSyncFs quota else none
  | .freeze sRemoveCount quota => if s.mounted then s.krFreeze sRemoveCount quota else none
  | .unfreeze quota => if s.mounted then s.krUnfreeze quota else none
  | .remount r => if s.mounted then s.doRemountSb config r else none
  | .putSuper quota => if s.mounted then s.krPutSuper quota else none

/-! ## The two copies -/

/-- The two copies of the state with the log. -/
structure Copies where
  disk : BitVec 16
  mount : BitVec 16
  log : List SuperEvent

def Super.copies (s : Super) : Copies := ⟨s.sState, s.sMountState, s.log⟩

/-- All that any of the functions does to the two copies. -/
inductive Move : Copies → Copies → Prop
  | raise (c : Copies) : Move c
      ⟨fsState.set c.disk .error, fsState.set c.mount .error, .error false :: c.log⟩
  | ignore (c : Copies) : Move c ⟨c.disk, c.mount, .error true :: c.log⟩
  | invalidate (c : Copies) : Move c ⟨fsState.clear c.disk .valid, c.mount, c.log⟩
  | store (c : Copies) : Move c ⟨c.mount, c.mount, c.log⟩
  | read (c : Copies) : Move c ⟨c.disk, c.disk, .read c.disk :: c.log⟩
  | write (c : Copies) : Move c ⟨c.disk, c.mount, .write c.disk :: c.log⟩

/-- The state of one is reached from that of the other by moves. -/
def Super.Moves (s t : Super) : Prop := ReflTransGen Move s.copies t.copies

section Moves

variable {config : KrConfig} {es : MountDefaults} {s t u : Super}

theorem Super.Moves.refl (s : Super) : s.Moves s := ReflTransGen.refl

theorem Super.Moves.trans (h : s.Moves t) (h' : t.Moves u) : s.Moves u := ReflTransGen.trans h h'

end Moves

/-! ## What moves keep -/

section Keep

variable {c d : Copies}

/-- The state that was read last. -/
def lastRead : List SuperEvent → Option (BitVec 16)
  | [] => none
  | .read state :: _ => some state
  | _ :: log => lastRead log

end Keep

/-! ## Runs -/

/-- A superblock that is not mounted; the fields of `struct kr_sb_info` are zero. -/
structure Super.Fresh (s : Super) : Prop where
  unmounted : s.mounted = false
  sMountState : s.sMountState = 0
  log : s.log = []

section Run

variable {config : KrConfig} {es : MountDefaults} {s t disk : Super}

end Run

end KrFs
