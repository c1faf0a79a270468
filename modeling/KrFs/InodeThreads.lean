import KrFs.InodeCounts
import KrFs.InodeNumbers
import KrFs.Lib.Threads
import KrFs.TryInterleaved
import Mathlib.Data.ZMod.Basic
import Mathlib.Tactic.LinearCombination

/-!
# Inode numbers taken and given up by many tasks

`kr_new_inode` looks for a clear bit without a lock and takes it with a test-and-set; it
goes on in the group when another task was faster. The counters, the descriptor and the
inode cache learn of the number later, each at a time of its own, and `kr_free_inode`
goes the same way back. In every interleaving a number belongs to one inode or to one
task, and once all calls have returned the counts are those of the bitmaps.
-/

namespace KrFs

open Interference Threads Bitmap

namespace Interleaved

/-- The label `repeat_in_this_group`; `none` when the group is exhausted. -/
def findInodeBit (inodesPerGroup : Nat) : Nat → Nat → Prog Nat (Option Nat)
  | 0, _ => .running
  | fuel + 1, ino => (findNextZeroBit inodesPerGroup ino).bind fun ino =>
      if inodesPerGroup ≤ ino then .ret none
      else .testAndSet ino fun set =>
        if set then
          if inodesPerGroup ≤ ino + 1 then .ret none else findInodeBit inodesPerGroup fuel (ino + 1)
        else .ret (some ino)

/-- One bit of the group, or none. -/
def TakesInode (inodesPerGroup : Nat) (found : Option Nat) (own : List Nat) : Prop :=
  match found with
  | none => own = []
  | some bit => own = [bit] ∧ bit < inodesPerGroup

/-- The search ends whatever the others do. -/
theorem findInodeBit_ensures {inodesPerGroup : Nat} (fuel : Nat) : ∀ {ino : Nat},
    inodesPerGroup - ino < fuel →
    (findInodeBit inodesPerGroup fuel ino).Ensures (TakesInode inodesPerGroup) [] := by
  induction fuel with
  | zero => omega
  | succ fuel ih =>
    intro ino hfuel
    refine Prog.Ensures.bind ((findNextZeroBit_ensures inodesPerGroup ino).mono ?_)
    rintro bit own ⟨rfl, hle, hge⟩
    by_cases hend : inodesPerGroup ≤ bit
    · rw [if_pos hend]
      rfl
    · rw [if_neg hend]
      constructor
      · by_cases hlast : inodesPerGroup ≤ bit + 1
        · simp only [if_true, if_pos hlast]
          rfl
        · simp only [if_true, if_neg hlast]
          have hle := hge (by omega)
          exact ih (by omega)
      · intro _
        exact ⟨rfl, by omega⟩

/-- With no other task the search is the one of the sequential model. -/
theorem findInodeBit_alone (bm : Nat → Bool) (inodesPerGroup fuel ino : Nat)
    (hfuel : inodesPerGroup - ino < fuel) :
    (findInodeBit inodesPerGroup fuel ino).alone bm =
      some (KrFs.findInodeBit bm inodesPerGroup fuel ino,
        match KrFs.findInodeBit bm inodesPerGroup fuel ino with
        | none => bm
        | some bit => Function.update bm bit true) := by
  cases fuel with
  | zero => omega
  | succ fuel =>
    have hscan := findNextZeroBit_alone bm inodesPerGroup ino
    obtain ⟨-, hfound, -⟩ := nextZero_spec bm inodesPerGroup ino
    rw [findInodeBit, Prog.alone_bind, hscan, Option.bind_some, KrFs.findInodeBit]
    dsimp only
    by_cases hend : inodesPerGroup ≤ nextZero bm inodesPerGroup ino
    · simp only [if_pos hend, Prog.alone]
    · have hclear : bm (nextZero bm inodesPerGroup ino) = false := (hfound (by omega)).2
      simp only [if_neg hend, Prog.alone, hclear, Bool.false_eq_true, if_false]

end Interleaved

/-- Where a call of a task stands: `kr_new_inode` from `searching` to `described`,
`kr_free_inode` from `freeing` on. -/
inductive InodePhase where
  | idle
  | searching (mode : UInt16) (group n : Nat)
  | claiming (mode : UInt16) (group n : Nat) (claimed : List Nat) (prog : Prog Nat (Option Nat))
  | got (mode : UInt16) (group bit : Nat)
  | freeCounted (mode : UInt16) (group bit : Nat)
  | dirCounted (mode : UInt16) (group bit : Nat)
  | described (mode : UInt16) (group bit : Nat)
  | freeing (ino : Nat) (dir : Bool)
  | cleared (group : Nat) (dir : Bool)
  | released (dir : Bool)

/-- A task and the call it is in. The numbers that it could not give up are `lost`, each
with whether it was a directory's. -/
structure InodeTask where
  lost : List (Nat × Bool)
  phase : InodePhase

/-- What the tasks share, and the numbers that have an inode. -/
structure InodePool where
  fs : Fs
  entered : Finset Nat

/-- The number of a bit. -/
def inodeNumber (sbi : SbInfo) (group bit : Nat) : Nat := group * sbi.sInodesPerGroup + bit + 1

def nextGroup (sbi : SbInfo) (group : Nat) : Nat :=
  if group + 1 = sbi.sGroupsCount then 0 else group + 1

/-- The locked part of `kr_new_inode`. -/
def describeInode (fs : Fs) (mode : UInt16) (group : Nat) : Fs :=
  let desc := fs.desc group
  let debt := fs.sDebts group
  { fs with
    desc := Function.update fs.desc group
      { desc with
        bgFreeInodesCount := desc.bgFreeInodesCount - 1
        bgUsedDirsCount :=
          if S_ISDIR mode then desc.bgUsedDirsCount + 1 else desc.bgUsedDirsCount }
    sDebts := Function.update fs.sDebts group
      (if S_ISDIR mode then if debt < 255 then debt + 1 else debt else debt - 1) }

/-- The locked part of `kr_release_inode`. -/
def releaseInode (fs : Fs) (group : Nat) (dir : Bool) : Fs :=
  let desc := fs.desc group
  { fs with
    desc := Function.update fs.desc group
      { desc with
        bgFreeInodesCount := desc.bgFreeInodesCount + 1
        bgUsedDirsCount := if dir then desc.bgUsedDirsCount - 1 else desc.bgUsedDirsCount } }

/-- The counter of directories. -/
def Fs.countDirs (fs : Fs) (n : Int) : Fs := { fs with sDirsCounter := fs.sDirsCounter + n }

/-- A new inode comes to life. -/
def InodePool.enter (s : InodePool) (ino : Nat) (inode : Inode) : InodePool where
  fs := { s.fs with inode := Function.update s.fs.inode ino inode }
  entered := insert ino s.entered

/-- One atomic step of a call. The policies for the group read counts that may be out of
date; here they may choose any. The number of an inode that is new is not in the inode
cache, where `insert_inode_locked` looks for it. -/
inductive InodeMove (s : InodePool) (u : InodeTask) : InodePool → InodeTask → Prop
  | newInode (mode : UInt16) {group : Nat} (idle : u.phase = .idle)
      (hgroup : group < s.fs.sbi.sGroupsCount) :
      InodeMove s u s { u with phase := .searching mode group s.fs.sbi.sGroupsCount }
  | noSpace {mode : UInt16} {group : Nat} (here : u.phase = .searching mode group 0) :
      InodeMove s u s { u with phase := .idle }
  | unread {mode : UInt16} {group n : Nat} (here : u.phase = .searching mode group (n + 1)) :
      InodeMove s u s { u with phase := .idle }
  | tryGroup {mode : UInt16} {group n : Nat} (here : u.phase = .searching mode group (n + 1)) :
      InodeMove s u s { u with
        phase := .claiming mode group n []
          (Interleaved.findInodeBit s.fs.sbi.sInodesPerGroup (s.fs.sbi.sInodesPerGroup + 1) 0) }
  | access {mode : UInt16} {group n : Nat} {claimed claimed' : List Nat}
      {prog prog' : Prog Nat (Option Nat)} {bits : Nat → Bool}
      (here : u.phase = .claiming mode group n claimed prog)
      (made : Access ⟨s.fs.inodeBitmap group, claimed, prog⟩ ⟨bits, claimed', prog'⟩) :
      InodeMove s u
        { s with fs := { s.fs with inodeBitmap := Function.update s.fs.inodeBitmap group bits } }
        { u with phase := .claiming mode group n claimed' prog' }
  | missed {mode : UInt16} {group n : Nat} {claimed : List Nat}
      (here : u.phase = .claiming mode group n claimed (.ret none)) :
      InodeMove s u s { u with phase := .searching mode (nextGroup s.fs.sbi group) n }
  | found {mode : UInt16} {group n bit : Nat} {claimed : List Nat}
      (here : u.phase = .claiming mode group n claimed (.ret (some bit))) :
      InodeMove s u s { u with phase := .got mode group bit }
  | badNumber {mode : UInt16} {group bit : Nat} (here : u.phase = .got mode group bit)
      (bad : inodeNumber s.fs.sbi group bit < s.fs.sbi.sFirstIno ∨
        s.fs.sbi.sEs.sInodesCount.toNat < inodeNumber s.fs.sbi group bit) :
      InodeMove s u s { u with phase := .idle }
  | countFree {mode : UInt16} {group bit : Nat} (here : u.phase = .got mode group bit)
      (low : s.fs.sbi.sFirstIno ≤ inodeNumber s.fs.sbi group bit)
      (high : inodeNumber s.fs.sbi group bit ≤ s.fs.sbi.sEs.sInodesCount.toNat) :
      InodeMove s u
        { s with fs := { s.fs with sFreeinodesCounter := s.fs.sFreeinodesCounter - 1 } }
        { u with phase := .freeCounted mode group bit }
  | countDir {mode : UInt16} {group bit : Nat} (here : u.phase = .freeCounted mode group bit) :
      InodeMove s u { s with fs := s.fs.countDirs (S_ISDIR mode).toNat }
        { u with phase := .dirCounted mode group bit }
  | describe {mode : UInt16} {group bit : Nat} (here : u.phase = .dirCounted mode group bit) :
      InodeMove s u { s with fs := describeInode s.fs mode group }
        { u with phase := .described mode group bit }
  | insert {mode : UInt16} {group bit dir : Nat} {env : NewInodeEnv} (owner : env.KeepsType)
      (here : u.phase = .described mode group bit) :
      InodeMove s u (s.enter (inodeNumber s.fs.sbi group bit) (KrFs.newInode env s.fs dir mode group))
        { u with phase := .idle }
  | quotaFails {mode : UInt16} {group bit : Nat} (here : u.phase = .described mode group bit) :
      InodeMove s u s
        { u with phase := .freeing (inodeNumber s.fs.sbi group bit) (S_ISDIR mode) }
  | freeInode {ino : Nat} (idle : u.phase = .idle) (isEntered : ino ∈ s.entered)
      (low : s.fs.sbi.sFirstIno ≤ ino) (high : ino ≤ s.fs.sbi.sEs.sInodesCount.toNat) :
      InodeMove s u { s with entered := s.entered.erase ino }
        { u with phase := .freeing ino (S_ISDIR (s.fs.inode ino).iMode) }
  | unreadable {ino : Nat} {dir : Bool} (here : u.phase = .freeing ino dir) :
      InodeMove s u s { lost := (ino, dir) :: u.lost, phase := .idle }
  | clearBit {ino : Nat} {dir : Bool} (here : u.phase = .freeing ino dir)
      (set : s.fs.inodeBitmap (inodeGroup s.fs.sbi ino) (inodeIndex s.fs.sbi ino) = true) :
      InodeMove s u
        { s with
          fs := s.fs.setInodeBit (inodeGroup s.fs.sbi ino) (inodeIndex s.fs.sbi ino) false }
        { u with phase := .cleared (inodeGroup s.fs.sbi ino) dir }
  | alreadyClear {ino : Nat} {dir : Bool} (here : u.phase = .freeing ino dir)
      (clear : s.fs.inodeBitmap (inodeGroup s.fs.sbi ino) (inodeIndex s.fs.sbi ino) = false) :
      InodeMove s u s { u with phase := .idle }
  | release {group : Nat} {dir : Bool} (here : u.phase = .cleared group dir) :
      InodeMove s u { s with fs := releaseInode s.fs group dir } { u with phase := .released dir }
  | uncountDir {dir : Bool} (here : u.phase = .released dir) :
      InodeMove s u { s with fs := s.fs.countDirs (-dir.toNat) } { u with phase := .idle }

/-! ## Numbers and their owners -/

/-- The numbers whose bit is set. -/
def Fs.usedInodes (fs : Fs) : Set Nat :=
  {ino | ∃ group < fs.sbi.sGroupsCount, ∃ bit < fs.sbi.sInodesPerGroup,
    ino = inodeNumber fs.sbi group bit ∧ fs.inodeBitmap group bit = true}

/-- The numbers that a call has taken and not yet passed on, or has still to give up. -/
def InodePhase.holds (sbi : SbInfo) : InodePhase → Set Nat
  | .claiming _ group _ claimed _ => {ino | ∃ bit ∈ claimed, ino = inodeNumber sbi group bit}
  | .got _ group bit => {inodeNumber sbi group bit}
  | .freeCounted _ group bit => {inodeNumber sbi group bit}
  | .dirCounted _ group bit => {inodeNumber sbi group bit}
  | .described _ group bit => {inodeNumber sbi group bit}
  | .freeing ino _ => {ino}
  | _ => ∅

def InodeTask.holds (sbi : SbInfo) (u : InodeTask) : Set Nat :=
  {ino | ino ∈ u.lost.map Prod.fst} ∪ u.phase.holds sbi

/-- What a call relies on at each point. -/
def InodePhase.Ok (sbi : SbInfo) : InodePhase → Prop
  | .searching _ group _ => group < sbi.sGroupsCount
  | .claiming _ group _ claimed prog => group < sbi.sGroupsCount ∧
      prog.Ensures (Interleaved.TakesInode sbi.sInodesPerGroup) claimed
  | .got _ group bit => group < sbi.sGroupsCount ∧ bit < sbi.sInodesPerGroup
  | .freeCounted _ group bit => group < sbi.sGroupsCount ∧ bit < sbi.sInodesPerGroup
  | .dirCounted _ group bit => group < sbi.sGroupsCount ∧ bit < sbi.sInodesPerGroup
  | .described _ group bit => group < sbi.sGroupsCount ∧ bit < sbi.sInodesPerGroup
  | .cleared group _ => group < sbi.sGroupsCount
  | _ => True

structure InodeTask.Ok (sbi : SbInfo) (u : InodeTask) : Prop where
  phase : u.phase.Ok sbi
  apart : ∀ ino ∈ u.phase.holds sbi, ino ∉ u.lost.map Prod.fst

/-- Who may have which number, in the file system mounted as `fs`. The numbers below the
first that is free for use stay where they are. -/
def inodeOwnership (fs : Fs) : Ownership InodePool InodeTask Nat where
  used s := s.fs.usedInodes
  holds := InodeTask.holds fs.sbi
  pool s := ↑s.entered
  sane s := s.fs.sbi = fs.sbi ∧
    ∀ ino ∈ fs.usedInodes, ino < fs.sbi.sFirstIno → ino ∈ s.entered
  good := InodeTask.Ok fs.sbi


/-- The groups hold just the inodes of the file system, and their counts have room. -/
structure InodeSpace (sbi : SbInfo) : Prop where
  pos : 0 < sbi.sInodesPerGroup
  lt : sbi.sInodesPerGroup < 2 ^ 16
  inodes : sbi.sEs.sInodesCount.toNat = sbi.sGroupsCount * sbi.sInodesPerGroup

section Places

variable {sbi : SbInfo} {fs fs' : Fs} {group bit : Nat}

/-- A number leads back to its bit. -/
theorem InodeSpace.place (space : InodeSpace sbi) (hgroup : group < sbi.sGroupsCount)
    (hbit : bit < sbi.sInodesPerGroup) :
    inodeNumber sbi group bit ≤ sbi.sEs.sInodesCount.toNat ∧
      inodeGroup sbi (inodeNumber sbi group bit) = group ∧
      inodeIndex sbi (inodeNumber sbi group bit) = bit := by
  have hle : inodeNumber sbi group bit ≤ sbi.sEs.sInodesCount.toNat := by
    have hmul := Nat.mul_le_mul_right sbi.sInodesPerGroup (Nat.succ_le_of_lt hgroup)
    rw [Nat.succ_mul] at hmul
    rw [space.inodes, inodeNumber]
    omega
  exact ⟨hle, inodePlace_of_number rfl hbit (hle.trans_lt sbi.sEs.sInodesCount.toNat_lt)⟩

theorem Fs.mem_usedInodes (hgroup : group < fs.sbi.sGroupsCount)
    (hbit : bit < fs.sbi.sInodesPerGroup) :
    inodeNumber fs.sbi group bit ∈ fs.usedInodes ↔ fs.inodeBitmap group bit = true := by
  constructor
  · rintro ⟨g, -, b, hb, heq, hset⟩
    obtain ⟨rfl, rfl⟩ := Fs.inode_number_inj hbit hb heq
    exact hset
  · intro hset
    exact ⟨group, hgroup, bit, hbit, rfl, hset⟩

theorem Fs.usedInodes_eq (hsbi : fs'.sbi = fs.sbi) (hbits : fs'.inodeBitmap = fs.inodeBitmap) :
    fs'.usedInodes = fs.usedInodes := by
  simp only [Fs.usedInodes, hsbi, hbits]

/-- Two states whose bitmaps differ in one bit. -/
theorem Fs.mem_usedInodes_setInodeBit {ino : Nat} (value : Bool)
    (hne : ino ≠ inodeNumber fs.sbi group bit) :
    ino ∈ (fs.setInodeBit group bit value).usedInodes ↔ ino ∈ fs.usedInodes := by
  have hsame : ∀ g b, ino = inodeNumber fs.sbi g b →
      (fs.setInodeBit group bit value).inodeBitmap g b = fs.inodeBitmap g b := by
    rintro g b rfl
    by_cases hg : g = group
    · subst hg
      have hb : b ≠ bit := by
        rintro rfl
        exact hne rfl
      simp only [Fs.setInodeBit, Function.update_self, Function.update_of_ne hb]
    · simp only [Fs.setInodeBit, Function.update_of_ne hg]
  constructor
  · rintro ⟨g, hg, b, hb, hino, hset⟩
    exact ⟨g, hg, b, hb, hino, (hsame g b hino).symm.trans hset⟩
  · rintro ⟨g, hg, b, hb, hino, hset⟩
    exact ⟨g, hg, b, hb, hino, (hsame g b hino).trans hset⟩

theorem Fs.usedInodes_set (hgroup : group < fs.sbi.sGroupsCount)
    (hbit : bit < fs.sbi.sInodesPerGroup) :
    (fs.setInodeBit group bit true).usedInodes =
      insert (inodeNumber fs.sbi group bit) fs.usedInodes := by
  ext ino
  rw [Set.mem_insert_iff]
  by_cases hino : ino = inodeNumber fs.sbi group bit
  · subst hino
    have hmem : inodeNumber fs.sbi group bit ∈ (fs.setInodeBit group bit true).usedInodes :=
      ⟨group, hgroup, bit, hbit, rfl, by simp [Fs.setInodeBit]⟩
    simp only [hmem, true_or]
  · rw [Fs.mem_usedInodes_setInodeBit true hino, or_iff_right hino]

theorem Fs.usedInodes_clear (hgroup : group < fs.sbi.sGroupsCount)
    (hbit : bit < fs.sbi.sInodesPerGroup) :
    (fs.setInodeBit group bit false).usedInodes =
      fs.usedInodes \ {inodeNumber fs.sbi group bit} := by
  ext ino
  rw [Set.mem_sdiff, Set.mem_singleton_iff]
  by_cases hino : ino = inodeNumber fs.sbi group bit
  · subst hino
    have hmem : inodeNumber fs.sbi group bit ∉ (fs.setInodeBit group bit false).usedInodes := by
      intro hmem
      have hset := (@Fs.mem_usedInodes (fs.setInodeBit group bit false) group bit hgroup hbit).mp hmem
      simp [Fs.setInodeBit] at hset
    simp only [hmem, not_true_eq_false, and_false]
  · rw [Fs.mem_usedInodes_setInodeBit false hino]
    simp only [hino, not_false_eq_true, and_true]

end Places

/-! ## Every step leaves each number with one owner -/

section Owners

variable {fs0 : Fs} {s s' : InodePool} {u u' : InodeTask} {mode : UInt16} {group n bit : Nat}

/-- The bits a search has taken so far are bits of the group. -/
theorem taken_lt {inodesPerGroup : Nat} {claimed : List Nat} {prog : Prog Nat (Option Nat)}
    (h : prog.Ensures (Interleaved.TakesInode inodesPerGroup) claimed) :
    ∀ i ∈ claimed, i < inodesPerGroup := by
  refine h.own fun found own htakes i hi => ?_
  cases found with
  | none =>
    have hnone : own = [] := htakes
    rw [hnone] at hi
    cases hi
  | some bit =>
    obtain ⟨rfl, hlt⟩ := htakes
    rw [List.mem_singleton.mp hi]
    exact hlt

/-- A step that leaves the bitmaps and the inodes alone, and the numbers of the task as a
whole. -/
theorem InodeTask.obeys_of_same (h : (inodeOwnership fs0).Agrees s u) (hsbi : s'.fs.sbi = s.fs.sbi)
    (hbits : s'.fs.inodeBitmap = s.fs.inodeBitmap) (hentered : s'.entered = s.entered)
    (ok : u'.Ok fs0.sbi) (hholds : ∀ ino, ino ∈ u'.holds fs0.sbi ↔ ino ∈ u.holds fs0.sbi) :
    (inodeOwnership fs0).Obeys s u s' u' := by
  have hsame : (inodeOwnership fs0).holds u' = (inodeOwnership fs0).holds u := Set.ext hholds
  have hpool : (inodeOwnership fs0).pool s' = (inodeOwnership fs0).pool s := by
    simp only [inodeOwnership, hentered]
  refine h.moved ⟨hsbi.trans h.sane.1, ?_⟩ ok (Fs.usedInodes_eq hsbi hbits) (fun ino => ?_) ?_
  · rw [hentered]
    exact h.sane.2
  · rw [hsame, hpool]
  · rw [hsame, hpool]
    exact h.apart

/-- The same when the call goes on with the numbers it has. -/
theorem InodeTask.obeys_of_phase (h : (inodeOwnership fs0).Agrees s u)
    (hsbi : s'.fs.sbi = s.fs.sbi) (hbits : s'.fs.inodeBitmap = s.fs.inodeBitmap)
    (hentered : s'.entered = s.entered) {phase : InodePhase} (ok : phase.Ok fs0.sbi)
    (hholds : ∀ ino, ino ∈ phase.holds fs0.sbi ↔ ino ∈ u.phase.holds fs0.sbi) :
    (inodeOwnership fs0).Obeys s u s' { u with phase := phase } := by
  have good : u.Ok fs0.sbi := h.good
  refine InodeTask.obeys_of_same h hsbi hbits hentered ⟨ok, fun ino hino => ?_⟩ fun ino => ?_
  · exact good.apart ino ((hholds ino).mp hino)
  · simp only [InodeTask.holds, Set.mem_union, hholds ino]

/-- What a call holds is in use and has no inode. -/
theorem InodeTask.held (h : (inodeOwnership fs0).Agrees s u) {ino : Nat}
    (hino : ino ∈ u.phase.holds fs0.sbi) : ino ∈ s.fs.usedInodes ∧ ino ∉ s.entered := by
  have hheld : ino ∈ u.holds fs0.sbi := Or.inr hino
  exact ⟨h.used hheld, h.apart ino hheld⟩

/-- Nobody has cleared a bit that the call has taken. -/
theorem InodeTask.kept (h : (inodeOwnership fs0).Agrees s u) {claimed : List Nat}
    {prog : Prog Nat (Option Nat)} (here : u.phase = .claiming mode group n claimed prog) :
    Config.Kept (⟨s.fs.inodeBitmap group, claimed, prog⟩ :
      Interference.Config Nat (Option Nat)) := by
  have good : u.Ok fs0.sbi := h.good
  have hok := good.phase
  rw [here] at hok
  intro i hi
  have hheld : inodeNumber fs0.sbi group i ∈ u.phase.holds fs0.sbi := by
    rw [here]
    exact ⟨i, hi, rfl⟩
  obtain ⟨hused, -⟩ := InodeTask.held h hheld
  have hsbi : s.fs.sbi = fs0.sbi := h.sane.1
  rw [← hsbi] at hused hok
  exact (Fs.mem_usedInodes hok.1 (taken_lt hok.2 i hi)).mp hused

/-- A bit that is taken next. -/
theorem InodeTask.takes (h : (inodeOwnership fs0).Agrees s u) {i : Nat} {claimed : List Nat}
    {next : Bool → Prog Nat (Option Nat)}
    (here : u.phase = .claiming mode group n claimed (.testAndSet i next))
    (hclear : s.fs.inodeBitmap group i = false) :
    group < s.fs.sbi.sGroupsCount ∧ i < s.fs.sbi.sInodesPerGroup := by
  have good : u.Ok fs0.sbi := h.good
  have hok := good.phase
  rw [here] at hok
  obtain ⟨hgroup, hprog⟩ := hok
  rw [show s.fs.sbi = fs0.sbi from h.sane.1]
  refine ⟨hgroup, taken_lt (hprog.2 fun hi => ?_) i (by simp)⟩
  have hset : s.fs.inodeBitmap group i = true := InodeTask.kept h here i hi
  rw [hset] at hclear
  cases hclear

/-- The bit that a search takes belongs to the task that makes it. -/
theorem InodeMove.access_obeys (h : (inodeOwnership fs0).Agrees s u) {claimed claimed' : List Nat}
    {prog prog' : Prog Nat (Option Nat)} {bits : Nat → Bool}
    (here : u.phase = .claiming mode group n claimed prog)
    (made : Access ⟨s.fs.inodeBitmap group, claimed, prog⟩ ⟨bits, claimed', prog'⟩) :
    (inodeOwnership fs0).Obeys s u
      { s with fs := { s.fs with inodeBitmap := Function.update s.fs.inodeBitmap group bits } }
      { u with phase := .claiming mode group n claimed' prog' } := by
  have hsbi : s.fs.sbi = fs0.sbi := h.sane.1
  have good : u.Ok fs0.sbi := h.good
  have hok := good.phase
  rw [here] at hok
  obtain ⟨hgroup, hprog⟩ := hok
  have hnext := made.ensures (InodeTask.kept h here) hprog
  have hsame : Function.update s.fs.inodeBitmap group (s.fs.inodeBitmap group) =
      s.fs.inodeBitmap := Function.update_eq_self group s.fs.inodeBitmap
  cases made with
  | look _ _ f next =>
    rw [hsame]
    refine InodeTask.obeys_of_phase h rfl rfl rfl ⟨hgroup, hnext⟩ fun ino => ?_
    simp only [here, InodePhase.holds]
  | taken _ _ i next hset =>
    rw [hsame]
    refine InodeTask.obeys_of_phase h rfl rfl rfl ⟨hgroup, hnext⟩ fun ino => ?_
    simp only [here, InodePhase.holds]
  | set _ _ i next hclear =>
    obtain ⟨hg, hi⟩ := InodeTask.takes h here hclear
    have hfree : inodeNumber fs0.sbi group i ∉ s.fs.usedInodes := by
      intro hmem
      rw [← hsbi, Fs.mem_usedInodes hg hi, hclear] at hmem
      cases hmem
    have hmem : ∀ ino, (∃ j ∈ claimed ++ [i], ino = inodeNumber fs0.sbi group j) ↔
        (∃ j ∈ claimed, ino = inodeNumber fs0.sbi group j) ∨
          ino = inodeNumber fs0.sbi group i := by
      intro ino
      simp only [List.mem_append, List.mem_singleton, or_and_right, exists_or, exists_eq_left]
    refine h.take hfree ⟨hsbi, h.sane.2⟩ ⟨⟨hgroup, hnext⟩, fun ino hino => ?_⟩ ?_ rfl ?_
    · rcases (hmem ino).mp hino with hold | rfl
      · exact good.apart ino (by rw [here]; exact hold)
      · exact fun hlost => hfree (h.used (Or.inl hlost))
    · rw [← hsbi]
      exact Fs.usedInodes_set hg hi
    · ext ino
      simp only [inodeOwnership, InodeTask.holds, here, InodePhase.holds, Set.mem_union,
        Set.mem_insert_iff, Set.mem_ofPred_eq, hmem]
      rw [← or_assoc, or_comm]

/-- The check behind `got` does not fail: the numbers that it refuses were in use all along
or do not exist. -/
theorem InodeTask.good_number (space : InodeSpace fs0.sbi) (reserved : InodesMatch fs0)
    (h : (inodeOwnership fs0).Agrees s u) (here : u.phase = .got mode group bit) :
    s.fs.sbi.sFirstIno ≤ inodeNumber s.fs.sbi group bit ∧
      inodeNumber s.fs.sbi group bit ≤ s.fs.sbi.sEs.sInodesCount.toNat := by
  have good : u.Ok fs0.sbi := h.good
  have hok := good.phase
  rw [here] at hok
  obtain ⟨hgroup, hbit⟩ := hok
  rw [show s.fs.sbi = fs0.sbi from h.sane.1]
  constructor
  · by_contra hlow
    have hset := reserved.reserved group hgroup bit hbit (Nat.not_le.mp hlow)
    have hentered := h.sane.2 _ ((Fs.mem_usedInodes hgroup hbit).mpr hset) (Nat.not_le.mp hlow)
    have hheld : inodeNumber fs0.sbi group bit ∈ u.phase.holds fs0.sbi := by
      rw [here]
      rfl
    exact (InodeTask.held h hheld).2 hentered
  · exact (space.place hgroup hbit).1

/-- The bit that `kr_free_inode` clears is that of its number, and it is set. -/
theorem InodeTask.frees (space : InodeSpace fs0.sbi) (h : (inodeOwnership fs0).Agrees s u)
    {ino : Nat} {dir : Bool} (here : u.phase = .freeing ino dir) :
    inodeGroup s.fs.sbi ino < s.fs.sbi.sGroupsCount ∧
      inodeIndex s.fs.sbi ino < s.fs.sbi.sInodesPerGroup ∧
      ino = inodeNumber s.fs.sbi (inodeGroup s.fs.sbi ino) (inodeIndex s.fs.sbi ino) ∧
      s.fs.inodeBitmap (inodeGroup s.fs.sbi ino) (inodeIndex s.fs.sbi ino) = true := by
  have hheld : ino ∈ u.phase.holds fs0.sbi := by
    rw [here]
    rfl
  obtain ⟨⟨group, hgroup, bit, hbit, hino, hset⟩, -⟩ := InodeTask.held h hheld
  rw [← show s.fs.sbi = fs0.sbi from h.sane.1] at space
  obtain ⟨-, hdiv, hmod⟩ := space.place hgroup hbit
  rw [← hino] at hdiv hmod
  rw [hdiv, hmod]
  exact ⟨hgroup, hbit, hino, hset⟩

theorem InodeMove.obeys (space : InodeSpace fs0.sbi) (reserved : InodesMatch fs0)
    (h : (inodeOwnership fs0).Agrees s u) (move : InodeMove s u s' u') :
    (inodeOwnership fs0).Obeys s u s' u' := by
  have hsbi : s.fs.sbi = fs0.sbi := h.sane.1
  have good : u.Ok fs0.sbi := h.good
  have hok := good.phase
  cases move with
  | newInode mode idle hgroup =>
    rw [hsbi] at hgroup
    refine InodeTask.obeys_of_phase h rfl rfl rfl hgroup fun ino => ?_
    simp only [idle, InodePhase.holds]
  | noSpace here =>
    refine InodeTask.obeys_of_phase h rfl rfl rfl trivial fun ino => ?_
    simp only [here, InodePhase.holds]
  | unread here =>
    refine InodeTask.obeys_of_phase h rfl rfl rfl trivial fun ino => ?_
    simp only [here, InodePhase.holds]
  | tryGroup here =>
    rw [here] at hok
    refine InodeTask.obeys_of_phase h rfl rfl rfl ⟨hok, ?_⟩ fun ino => ?_
    · rw [hsbi]
      exact Interleaved.findInodeBit_ensures _ (by omega)
    · simp [here, InodePhase.holds]
  | access here made => exact InodeMove.access_obeys h here made
  | missed here =>
    rw [here] at hok
    obtain ⟨hgroup, hnone⟩ := hok
    refine InodeTask.obeys_of_phase h rfl rfl rfl ?_ fun ino => ?_
    · rw [hsbi]
      show nextGroup fs0.sbi _ < fs0.sbi.sGroupsCount
      unfold nextGroup
      split
      · omega
      · omega
    · simp [here, InodePhase.holds, show _ = [] from hnone]
  | found here =>
    rw [here] at hok
    obtain ⟨hgroup, hown, hbit⟩ := hok
    refine InodeTask.obeys_of_phase h rfl rfl rfl ⟨hgroup, hbit⟩ fun ino => ?_
    simp only [here, InodePhase.holds, hown, List.mem_singleton, exists_eq_left,
      Set.mem_singleton_iff, Set.mem_ofPred_eq]
  | badNumber here bad =>
    obtain ⟨hlow, hhigh⟩ := InodeTask.good_number space reserved h here
    omega
  | countFree here low high =>
    rw [here] at hok
    refine InodeTask.obeys_of_phase h ?_ ?_ ?_ hok fun ino => ?_
    · rfl
    · rfl
    · rfl
    · simp only [here, InodePhase.holds]
  | countDir here =>
    rw [here] at hok
    refine InodeTask.obeys_of_phase h ?_ ?_ ?_ hok fun ino => ?_
    · rfl
    · rfl
    · rfl
    · simp only [here, InodePhase.holds]
  | describe here =>
    rw [here] at hok
    refine InodeTask.obeys_of_phase h ?_ ?_ ?_ hok fun ino => ?_
    · rfl
    · rfl
    · rfl
    · simp only [here, InodePhase.holds]
  | @insert mode group bit dir env owner here =>
    have hheld : ∀ ino, ino ∈ u.phase.holds fs0.sbi ↔ ino = inodeNumber s.fs.sbi group bit := by
      intro ino
      rw [here, hsbi]
      rfl
    have hnew := good.apart _ ((hheld _).mpr rfl)
    refine h.moved ⟨hsbi, fun ino hino hlow => Finset.mem_insert_of_mem (h.sane.2 ino hino hlow)⟩
      ⟨trivial, fun ino hino => hino.elim⟩ rfl (fun ino => ?_) ?_
    · have hphase := hheld ino
      simp only [inodeOwnership, InodeTask.holds, InodePool.enter, Set.mem_union, Finset.coe_insert,
        Set.mem_insert_iff, hphase]
      simp only [InodePhase.holds, Set.mem_empty_iff_false, or_false]
      tauto
    · rintro ino (hlost | hnone) hmem
      · rcases Finset.mem_insert.mp (Finset.mem_coe.mp hmem) with rfl | hold
        · exact hnew hlost
        · exact h.apart ino (Or.inl hlost) hold
      · exact hnone.elim
  | quotaFails here =>
    refine InodeTask.obeys_of_phase h rfl rfl rfl trivial fun ino => ?_
    rw [hsbi, here]
    rfl
  | @freeInode ino idle isEntered low high =>
    have hnot : ino ∉ u.lost.map Prod.fst := fun hlost =>
      h.apart ino (Or.inl hlost) isEntered
    refine h.moved ⟨hsbi, fun i hi hlow => ?_⟩ ⟨trivial, fun i hi => ?_⟩ rfl (fun i => ?_) ?_
    · rw [hsbi] at low
      exact Finset.mem_erase.mpr ⟨by omega, h.sane.2 i hi hlow⟩
    · obtain rfl : i = ino := hi
      exact hnot
    · have hsub : i = ino → i ∈ s.entered := by
        rintro rfl
        exact isEntered
      simp only [inodeOwnership, InodeTask.holds, idle, InodePhase.holds, Set.mem_union,
        Finset.mem_coe, Finset.mem_erase, Set.mem_singleton_iff, Set.mem_empty_iff_false]
      tauto
    · rintro i (hlost | hino) hmem
      · exact h.apart i (Or.inl hlost) (Finset.mem_of_mem_erase hmem)
      · exact (Finset.mem_erase.mp hmem).1 hino
  | @unreadable ino dir here =>
    refine InodeTask.obeys_of_same h rfl rfl rfl ⟨trivial, fun i hi => hi.elim⟩ fun i => ?_
    simp only [InodeTask.holds, here, InodePhase.holds, List.map_cons, List.mem_cons, Set.mem_union,
      Set.mem_ofPred_eq, Set.mem_singleton_iff, Set.mem_empty_iff_false]
    tauto
  | @clearBit ino dir here set =>
    obtain ⟨hgroup, hbit, hino, -⟩ := InodeTask.frees space h here
    have hheld : ino ∈ u.phase.holds fs0.sbi := by
      rw [here]
      rfl
    refine h.give (Or.inr hheld) ⟨hsbi, h.sane.2⟩ ⟨hsbi ▸ hgroup, fun i hi => hi.elim⟩ ?_ rfl ?_
    · refine (Fs.usedInodes_clear hgroup hbit).trans ?_
      rw [← hino]
      rfl
    · ext i
      have hapart : i = ino → i ∉ u.lost.map Prod.fst := by
        rintro rfl
        exact good.apart i hheld
      simp only [inodeOwnership, InodeTask.holds, here, InodePhase.holds, Set.mem_union,
        Set.mem_sdiff, Set.mem_singleton_iff, Set.mem_empty_iff_false]
      tauto
  | alreadyClear here clear =>
    obtain ⟨-, -, -, hset⟩ := InodeTask.frees space h here
    rw [hset] at clear
    cases clear
  | release here =>
    refine InodeTask.obeys_of_phase h ?_ ?_ ?_ ?_ fun ino => ?_
    · rfl
    · rfl
    · rfl
    · exact trivial
    · simp only [here, InodePhase.holds]
  | uncountDir here =>
    refine InodeTask.obeys_of_phase h ?_ ?_ ?_ ?_ fun ino => ?_
    · rfl
    · rfl
    · rfl
    · exact trivial
    · simp only [here, InodePhase.holds]

end Owners


/-! ## The counts -/

/-- What a call has taken or cleared in a group and not yet told its descriptor. -/
def InodePhase.freeDue (g : Nat) : InodePhase → ZMod (2 ^ 16)
  | .claiming _ group _ claimed _ => if group = g then -(claimed.length : ZMod (2 ^ 16)) else 0
  | .got _ group _ => if group = g then -1 else 0
  | .freeCounted _ group _ => if group = g then -1 else 0
  | .dirCounted _ group _ => if group = g then -1 else 0
  | .cleared group _ => if group = g then 1 else 0
  | _ => 0

/-- The directories that the descriptor of a group counts for a call. -/
def InodePhase.dirsDue (sbi : SbInfo) (g : Nat) : InodePhase → Nat
  | .described mode group _ => if group = g then (S_ISDIR mode).toNat else 0
  | .freeing ino dir => if inodeGroup sbi ino = g then dir.toNat else 0
  | .cleared group dir => if group = g then dir.toNat else 0
  | _ => 0

/-- The directories that the counter holds for a call. -/
def InodePhase.totalDirsDue : InodePhase → Nat
  | .dirCounted mode _ _ => (S_ISDIR mode).toNat
  | .described mode _ _ => (S_ISDIR mode).toNat
  | .freeing _ dir => dir.toNat
  | .cleared _ dir => dir.toNat
  | .released dir => dir.toNat
  | _ => 0

/-- The directories among the lost numbers. -/
def lostDirs (p : Nat → Bool) (lost : List (Nat × Bool)) : Nat :=
  lost.countP fun x => p x.1 && x.2

def InodeTask.dirsDue (sbi : SbInfo) (g : Nat) (u : InodeTask) : ZMod (2 ^ 16) :=
  (u.phase.dirsDue sbi g + lostDirs (fun ino => inodeGroup sbi ino = g) u.lost : Nat)

def InodeTask.totalDirsDue (u : InodeTask) : Int :=
  (u.phase.totalDirsDue + lostDirs (fun _ => true) u.lost : Nat)

/-- The directories among the inodes with `p`. -/
def InodePool.dirs (s : InodePool) (p : Nat → Bool) : Nat :=
  (s.entered.filter fun ino => (p ino && S_ISDIR (s.fs.inode ino).iMode) = true).card

/-- By how much the bitmap of a group is ahead of its descriptor, modulo the width of
the count. -/
def InodePool.freeBook (g : Nat) (s : InodePool) : ZMod (2 ^ 16) :=
  clearCount (s.fs.inodeBitmap g) s.fs.sbi.sInodesPerGroup - (s.fs.desc g).bgFreeInodesCount.toNat

/-- The directories that a descriptor counts and that have no inode. -/
def InodePool.dirsBook (g : Nat) (s : InodePool) : ZMod (2 ^ 16) :=
  (s.fs.desc g).bgUsedDirsCount.toNat - s.dirs fun ino => inodeGroup s.fs.sbi ino = g

def InodePool.totalDirsBook (s : InodePool) : Int := s.fs.sDirsCounter - s.dirs fun _ => true

section Books

variable {fs0 : Fs} {s s' : InodePool} {u u' : InodeTask}

/-- A new inode among those with `p`. -/
theorem InodePool.dirs_enter {ino : Nat} (hnew : ino ∉ s.entered) (inode : Inode)
    (p : Nat → Bool) : (s.enter ino inode).dirs p =
      s.dirs p + (p ino && S_ISDIR inode.iMode).toNat := by
  have hrest : s.entered.filter (fun i =>
      (p i && S_ISDIR ((s.enter ino inode).fs.inode i).iMode) = true) =
      s.entered.filter fun i => (p i && S_ISDIR (s.fs.inode i).iMode) = true := by
    refine Finset.filter_congr fun i hi => ?_
    have hne : i ≠ ino := by
      rintro rfl
      exact hnew hi
    simp only [InodePool.enter, Function.update_of_ne hne]
  have hself : (s.enter ino inode).fs.inode ino = inode := Function.update_self _ _ _
  unfold InodePool.dirs
  rw [show (s.enter ino inode).entered = insert ino s.entered from rfl, Finset.filter_insert, hrest,
    hself]
  cases p ino && S_ISDIR inode.iMode with
  | false => simp
  | true =>
    simp only [if_true, Bool.toNat_true]
    exact Finset.card_insert_of_notMem fun hmem => hnew (Finset.mem_of_mem_filter ino hmem)

theorem InodePool.dirs_erase {ino : Nat} (hmem : ino ∈ s.entered) (p : Nat → Bool) :
    s.dirs p = InodePool.dirs { s with entered := s.entered.erase ino } p +
      (p ino && S_ISDIR (s.fs.inode ino).iMode).toNat := by
  have hback : s = InodePool.enter { s with entered := s.entered.erase ino } ino (s.fs.inode ino) := by
    simp only [InodePool.enter, Function.update_eq_self, Finset.insert_erase hmem]
  have henter := @InodePool.dirs_enter { s with entered := s.entered.erase ino } ino
    (Finset.notMem_erase ino s.entered) (s.fs.inode ino) p
  rwa [← hback] at henter

theorem InodePool.freeBook_setInodeBit {bit : Nat} (group : Nat)
    (hbit : bit < s.fs.sbi.sInodesPerGroup) (value : Bool) (g : Nat) :
    InodePool.freeBook g { s with fs := s.fs.setInodeBit group bit value } - s.freeBook g =
      if group = g then (((s.fs.inodeBitmap group bit).toNat : ZMod (2 ^ 16)) - value.toNat)
      else 0 := by
  unfold InodePool.freeBook Fs.setInodeBit
  by_cases hg : group = g
  · subst hg
    have hcount := congrArg (Nat.cast : Nat → ZMod (2 ^ 16))
      (clearCount_update (s.fs.inodeBitmap group) hbit value)
    push_cast at hcount
    simp only [Function.update_self, if_true]
    linear_combination hcount
  · simp only [Function.update_of_ne (Ne.symm hg), if_neg hg, sub_self]

/-- When no inode comes or goes, the books of directories follow the descriptor and the
counter. -/
theorem InodePool.dirsBook_sub (hsbi : s'.fs.sbi = s.fs.sbi) (hentered : s'.entered = s.entered)
    (hinode : s'.fs.inode = s.fs.inode) (g : Nat) : s'.dirsBook g - s.dirsBook g =
      ((s'.fs.desc g).bgUsedDirsCount.toNat : ZMod (2 ^ 16)) -
        (s.fs.desc g).bgUsedDirsCount.toNat := by
  have hdirs : s'.dirs (fun ino => inodeGroup s'.fs.sbi ino = g) =
      s.dirs fun ino => inodeGroup s.fs.sbi ino = g := by
    simp only [InodePool.dirs, hsbi, hentered, hinode]
  rw [InodePool.dirsBook, InodePool.dirsBook, hdirs]
  ring

theorem InodePool.totalDirsBook_sub (hentered : s'.entered = s.entered)
    (hinode : s'.fs.inode = s.fs.inode) : s'.totalDirsBook - s.totalDirsBook =
      s'.fs.sDirsCounter - s.fs.sDirsCounter := by
  have hdirs : s'.dirs (fun _ => true) = s.dirs fun _ => true := by
    simp only [InodePool.dirs, hentered, hinode]
  rw [InodePool.totalDirsBook, InodePool.totalDirsBook, hdirs]
  ring

theorem natCast_toNat_add (a b : UInt16) :
    (((a + b).toNat : Nat) : ZMod (2 ^ 16)) = (a.toNat : ZMod (2 ^ 16)) + b.toNat := by
  rw [UInt16.toNat_add, ZMod.natCast_mod, Nat.cast_add]

theorem natCast_toNat_sub (a b : UInt16) :
    (((a - b).toNat : Nat) : ZMod (2 ^ 16)) = (a.toNat : ZMod (2 ^ 16)) - b.toNat := by
  have hsum := natCast_toNat_add (a - b) b
  rw [UInt16.sub_add_cancel] at hsum
  exact eq_sub_of_add_eq hsum.symm

end Books


section Ledgers

variable {fs0 : Fs} {s s' : InodePool} {u u' : InodeTask}

/-- Each step changes the book of free inodes of a group and what the call owes it alike. -/
theorem InodeMove.freeBook (space : InodeSpace fs0.sbi) (reserved : InodesMatch fs0)
    (h : (inodeOwnership fs0).Agrees s u) (move : InodeMove s u s' u') (g : Nat) :
    s'.freeBook g - s.freeBook g = u'.phase.freeDue g - u.phase.freeDue g := by
  have good : u.Ok fs0.sbi := h.good
  have hok := good.phase
  cases move with
  | newInode mode idle hgroup => simp only [idle, InodePhase.freeDue, sub_self]
  | noSpace here => simp only [here, InodePhase.freeDue, sub_self]
  | unread here => simp only [here, InodePhase.freeDue, sub_self]
  | tryGroup here => simp [here, InodePhase.freeDue]
  | @access mode group n claimed claimed' prog prog' bits here made =>
    have hsame : Function.update s.fs.inodeBitmap group (s.fs.inodeBitmap group) =
        s.fs.inodeBitmap := Function.update_eq_self group s.fs.inodeBitmap
    cases made with
    | look _ _ f next => simp only [here, InodePhase.freeDue, hsame, sub_self]
    | taken _ _ i next hset => simp only [here, InodePhase.freeDue, hsame, sub_self]
    | set _ _ i next hclear =>
      obtain ⟨-, hi⟩ := InodeTask.takes h here hclear
      have hbook := InodePool.freeBook_setInodeBit group hi true g
      rw [hclear] at hbook
      simp only [here, InodePhase.freeDue, List.length_append, List.length_singleton]
      refine hbook.trans ?_
      split
      · rw [Bool.toNat_false, Bool.toNat_true]
        push_cast
        ring
      · ring
  | missed here =>
    rw [here] at hok
    obtain ⟨-, hnone⟩ := hok
    simp [here, InodePhase.freeDue, show _ = [] from hnone]
  | found here =>
    rw [here] at hok
    obtain ⟨-, hown, -⟩ := hok
    simp [here, InodePhase.freeDue, hown]
  | badNumber here bad =>
    obtain ⟨hlow, hhigh⟩ := InodeTask.good_number space reserved h here
    omega
  | countFree here low high =>
    simp only [here, InodePhase.freeDue, InodePool.freeBook, sub_self]
  | countDir here =>
    simp only [here, InodePhase.freeDue, InodePool.freeBook, Fs.countDirs, sub_self]
  | @describe mode group bit here =>
    simp only [here, InodePhase.freeDue, InodePool.freeBook, describeInode]
    by_cases hg : group = g
    · subst hg
      have hless := natCast_toNat_sub (s.fs.desc group).bgFreeInodesCount 1
      simp only [Function.update_self, if_true]
      rw [hless, show (1 : UInt16).toNat = 1 from rfl, Nat.cast_one]
      ring
    · simp only [Function.update_of_ne (Ne.symm hg), if_neg hg, sub_self]
  | insert owner here =>
    simp only [here, InodePhase.freeDue, InodePool.freeBook, InodePool.enter, sub_self]
  | quotaFails here => simp only [here, InodePhase.freeDue, sub_self]
  | freeInode idle isEntered low high =>
    simp only [idle, InodePhase.freeDue, InodePool.freeBook, sub_self]
  | unreadable here => simp only [here, InodePhase.freeDue, sub_self]
  | @clearBit ino dir here set =>
    obtain ⟨-, hbit, -, hset⟩ := InodeTask.frees space h here
    have hbook := InodePool.freeBook_setInodeBit (inodeGroup s.fs.sbi ino) hbit false g
    rw [hset] at hbook
    simp only [here, InodePhase.freeDue]
    refine hbook.trans ?_
    split
    · rw [Bool.toNat_false, Bool.toNat_true]
      push_cast
      ring
    · ring
  | alreadyClear here clear => simp only [here, InodePhase.freeDue, sub_self]
  | @release group dir here =>
    simp only [here, InodePhase.freeDue, InodePool.freeBook, releaseInode]
    by_cases hg : group = g
    · subst hg
      have hmore := natCast_toNat_add (s.fs.desc group).bgFreeInodesCount 1
      simp only [Function.update_self, if_true]
      rw [hmore, show (1 : UInt16).toNat = 1 from rfl, Nat.cast_one]
      ring
    · simp only [Function.update_of_ne (Ne.symm hg), if_neg hg, sub_self]
  | uncountDir here =>
    simp only [here, InodePhase.freeDue, InodePool.freeBook, Fs.countDirs, sub_self]

/-- The same for its book of directories. -/
theorem InodeMove.dirsBook (space : InodeSpace fs0.sbi) (h : (inodeOwnership fs0).Agrees s u)
    (move : InodeMove s u s' u') (g : Nat) :
    s'.dirsBook g - s.dirsBook g = u'.dirsDue fs0.sbi g - u.dirsDue fs0.sbi g := by
  have hsbi : s.fs.sbi = fs0.sbi := h.sane.1
  have good : u.Ok fs0.sbi := h.good
  have hok := good.phase
  cases move with
  | newInode mode idle hgroup => simp only [idle, InodeTask.dirsDue, InodePhase.dirsDue, sub_self]
  | noSpace here => simp only [here, InodeTask.dirsDue, InodePhase.dirsDue, sub_self]
  | unread here => simp only [here, InodeTask.dirsDue, InodePhase.dirsDue, sub_self]
  | tryGroup here => simp only [here, InodeTask.dirsDue, InodePhase.dirsDue, sub_self]
  | access here made =>
    refine Eq.trans (InodePool.dirsBook_sub rfl rfl rfl g) ?_
    simp only [here, InodeTask.dirsDue, InodePhase.dirsDue, sub_self]
  | missed here => simp only [here, InodeTask.dirsDue, InodePhase.dirsDue, sub_self]
  | found here => simp only [here, InodeTask.dirsDue, InodePhase.dirsDue, sub_self]
  | badNumber here bad => simp only [here, InodeTask.dirsDue, InodePhase.dirsDue, sub_self]
  | countFree here low high =>
    refine Eq.trans (InodePool.dirsBook_sub rfl rfl rfl g) ?_
    simp only [here, InodeTask.dirsDue, InodePhase.dirsDue, sub_self]
  | countDir here =>
    refine Eq.trans (InodePool.dirsBook_sub rfl rfl rfl g) ?_
    simp only [here, InodeTask.dirsDue, InodePhase.dirsDue, Fs.countDirs, sub_self]
  | @describe mode group bit here =>
    have hbook := @InodePool.dirsBook_sub s { s with fs := describeInode s.fs mode group } rfl rfl
      rfl g
    refine hbook.trans ?_
    simp only [here, InodeTask.dirsDue, InodePhase.dirsDue, describeInode]
    by_cases hg : group = g
    · subst hg
      have hmore := natCast_toNat_add (s.fs.desc group).bgUsedDirsCount 1
      simp only [Function.update_self, if_true]
      cases S_ISDIR mode with
      | false => simp
      | true =>
        simp only [if_true, hmore, show (1 : UInt16).toNat = 1 from rfl, Bool.toNat_true]
        push_cast
        ring
    · simp only [Function.update_of_ne (Ne.symm hg), if_neg hg, sub_self]
  | @insert mode group bit dir env owner here =>
    rw [here] at hok
    have hheld : inodeNumber s.fs.sbi group bit ∈ u.phase.holds fs0.sbi := by
      rw [here, hsbi]
      rfl
    have hdirs := InodePool.dirs_enter (InodeTask.held h hheld).2 (KrFs.newInode env s.fs dir mode group)
      fun ino => inodeGroup s.fs.sbi ino = g
    rw [newInode_isDir owner] at hdirs
    rw [← hsbi] at space hok
    obtain ⟨-, hplace, -⟩ := space.place hok.1 hok.2
    simp only [here, InodeTask.dirsDue, InodePhase.dirsDue, InodePool.dirsBook]
    rw [show (s.enter (inodeNumber s.fs.sbi group bit)
      (KrFs.newInode env s.fs dir mode group)).fs.sbi = s.fs.sbi from rfl, hdirs, hplace]
    simp only [InodePool.enter]
    by_cases hg : group = g
    · simp only [hg, decide_true, Bool.true_and, if_true]
      push_cast
      ring
    · simp only [hg, decide_false, Bool.false_and, Bool.toNat_false, if_false]
      push_cast
      ring
  | @quotaFails mode group bit here =>
    rw [here] at hok
    rw [← hsbi] at space hok
    obtain ⟨-, hplace, -⟩ := space.place hok.1 hok.2
    simp only [here, InodeTask.dirsDue, InodePhase.dirsDue, ← hsbi, hplace, sub_self]
  | @freeInode ino idle isEntered low high =>
    have hdirs := InodePool.dirs_erase isEntered fun ino => inodeGroup s.fs.sbi ino = g
    simp only [idle, InodeTask.dirsDue, InodePhase.dirsDue, InodePool.dirsBook, hdirs, ← hsbi]
    by_cases hg : inodeGroup s.fs.sbi ino = g
    · simp only [hg, decide_true, Bool.true_and, if_true]
      push_cast
      ring
    · simp only [hg, decide_false, Bool.false_and, Bool.toNat_false, if_false]
      push_cast
      ring
  | @unreadable ino dir here =>
    simp only [here, InodeTask.dirsDue, InodePhase.dirsDue, lostDirs, List.countP_cons, ← hsbi]
    by_cases hg : inodeGroup s.fs.sbi ino = g
    · cases dir with
      | false => simp [hg]
      | true => simp [hg, add_comm]
    · simp [hg]
  | @clearBit ino dir here set =>
    refine Eq.trans (InodePool.dirsBook_sub rfl rfl rfl g) ?_
    simp only [here, InodeTask.dirsDue, InodePhase.dirsDue, Fs.setInodeBit, ← hsbi, sub_self]
  | @alreadyClear ino dir here clear =>
    obtain ⟨-, -, -, hset⟩ := InodeTask.frees space h here
    rw [hset] at clear
    cases clear
  | @release group dir here =>
    have hbook := @InodePool.dirsBook_sub s { s with fs := releaseInode s.fs group dir } rfl rfl
      rfl g
    refine hbook.trans ?_
    simp only [here, InodeTask.dirsDue, InodePhase.dirsDue, releaseInode]
    by_cases hg : group = g
    · subst hg
      have hless := natCast_toNat_sub (s.fs.desc group).bgUsedDirsCount 1
      simp only [Function.update_self, if_true]
      cases dir with
      | false => simp
      | true =>
        simp only [if_true, hless, show (1 : UInt16).toNat = 1 from rfl, Bool.toNat_true]
        push_cast
        ring
    · simp only [Function.update_of_ne (Ne.symm hg), if_neg hg, sub_self]
  | uncountDir here =>
    refine Eq.trans (InodePool.dirsBook_sub rfl rfl rfl g) ?_
    simp only [here, InodeTask.dirsDue, InodePhase.dirsDue, Fs.countDirs, sub_self]

/-- The same for the counter of directories. -/
theorem InodeMove.totalDirsBook (space : InodeSpace fs0.sbi)
    (h : (inodeOwnership fs0).Agrees s u) (move : InodeMove s u s' u') :
    s'.totalDirsBook - s.totalDirsBook = u'.totalDirsDue - u.totalDirsDue := by
  have hsbi : s.fs.sbi = fs0.sbi := h.sane.1
  cases move with
  | newInode mode idle hgroup =>
    simp only [idle, InodeTask.totalDirsDue, InodePhase.totalDirsDue, sub_self]
  | noSpace here => simp only [here, InodeTask.totalDirsDue, InodePhase.totalDirsDue, sub_self]
  | unread here => simp only [here, InodeTask.totalDirsDue, InodePhase.totalDirsDue, sub_self]
  | tryGroup here => simp only [here, InodeTask.totalDirsDue, InodePhase.totalDirsDue, sub_self]
  | access here made =>
    refine Eq.trans (InodePool.totalDirsBook_sub rfl rfl) ?_
    simp only [here, InodeTask.totalDirsDue, InodePhase.totalDirsDue, sub_self]
  | missed here => simp only [here, InodeTask.totalDirsDue, InodePhase.totalDirsDue, sub_self]
  | found here => simp only [here, InodeTask.totalDirsDue, InodePhase.totalDirsDue, sub_self]
  | badNumber here bad =>
    simp only [here, InodeTask.totalDirsDue, InodePhase.totalDirsDue, sub_self]
  | countFree here low high =>
    refine Eq.trans (InodePool.totalDirsBook_sub rfl rfl) ?_
    simp only [here, InodeTask.totalDirsDue, InodePhase.totalDirsDue, sub_self]
  | countDir here =>
    refine Eq.trans (InodePool.totalDirsBook_sub rfl rfl) ?_
    simp only [here, InodeTask.totalDirsDue, InodePhase.totalDirsDue, Fs.countDirs]
    push_cast
    ring
  | describe here =>
    refine Eq.trans (InodePool.totalDirsBook_sub rfl rfl) ?_
    simp only [here, InodeTask.totalDirsDue, InodePhase.totalDirsDue, describeInode, sub_self]
  | @insert mode group bit dir env owner here =>
    have hheld : inodeNumber s.fs.sbi group bit ∈ u.phase.holds fs0.sbi := by
      rw [here, hsbi]
      rfl
    have hdirs := InodePool.dirs_enter (InodeTask.held h hheld).2 (KrFs.newInode env s.fs dir mode group)
      fun _ => true
    rw [newInode_isDir owner, Bool.true_and] at hdirs
    simp only [here, InodeTask.totalDirsDue, InodePhase.totalDirsDue, InodePool.totalDirsBook, hdirs]
    simp only [InodePool.enter]
    push_cast
    ring
  | quotaFails here => simp only [here, InodeTask.totalDirsDue, InodePhase.totalDirsDue, sub_self]
  | freeInode idle isEntered low high =>
    have hdirs := InodePool.dirs_erase isEntered fun _ => true
    rw [Bool.true_and] at hdirs
    simp only [idle, InodeTask.totalDirsDue, InodePhase.totalDirsDue, InodePool.totalDirsBook, hdirs]
    push_cast
    ring
  | @unreadable ino dir here =>
    simp only [here, InodeTask.totalDirsDue, InodePhase.totalDirsDue, lostDirs, List.countP_cons]
    cases dir with
    | false => simp
    | true => simp [add_comm]
  | clearBit here set =>
    refine Eq.trans (InodePool.totalDirsBook_sub rfl rfl) ?_
    simp only [here, InodeTask.totalDirsDue, InodePhase.totalDirsDue, Fs.setInodeBit, sub_self]
  | alreadyClear here clear =>
    obtain ⟨-, -, -, hset⟩ := InodeTask.frees space h here
    rw [hset] at clear
    cases clear
  | release here =>
    refine Eq.trans (InodePool.totalDirsBook_sub rfl rfl) ?_
    simp only [here, InodeTask.totalDirsDue, InodePhase.totalDirsDue, releaseInode, sub_self]
  | uncountDir here =>
    refine Eq.trans (InodePool.totalDirsBook_sub rfl rfl) ?_
    simp only [here, InodeTask.totalDirsDue, InodePhase.totalDirsDue, Fs.countDirs]
    push_cast
    ring

end Ledgers


/-! ## Runs -/

/-- The numbers that have an inode when no call is under way. -/
def Fs.inodes (fs : Fs) : Finset Nat :=
  (Finset.range fs.sbi.sGroupsCount).biUnion fun group =>
    ((Finset.range fs.sbi.sInodesPerGroup).filter fun bit => fs.inodeBitmap group bit = true).image
      (inodeNumber fs.sbi group)

/-- The tasks before their first call. -/
def Fs.tasksAtRest (fs : Fs) (ι : Type) : Threads.Config ι InodePool InodeTask where
  shared := ⟨fs, fs.inodes⟩
  thread _ := ⟨[], .idle⟩

/-- What holds between any two steps: two tasks have no number in common, and none that has
an inode; what is in use has an inode or belongs to a task; no call is stuck, and once
all have returned, and none has lost its number, the counts are those of the bitmaps. -/
structure InodesShared (fs : Fs) {ι : Type} (c : Threads.Config ι InodePool InodeTask) : Prop where
  disjoint : ∀ i j, i ≠ j → ∀ ino ∈ (c.thread i).holds fs.sbi, ino ∉ (c.thread j).holds fs.sbi
  fresh : ∀ i, ∀ ino ∈ (c.thread i).holds fs.sbi, ino ∉ c.shared.entered
  used_iff : ∀ ino, ino ∈ c.shared.fs.usedInodes ↔
    ino ∈ c.shared.entered ∨ ∃ i, ino ∈ (c.thread i).holds fs.sbi
  moves : ∀ i, (c.thread i).phase ≠ .idle → ∃ s' u', InodeMove c.shared (c.thread i) s' u'
  settled : (∀ i, c.thread i = ⟨[], .idle⟩) → c.shared.fs.InodeCounts

section Runs

variable {fs : Fs} {s : InodePool}

theorem Fs.mem_inodes {ino : Nat} : ino ∈ fs.inodes ↔ ino ∈ fs.usedInodes := by
  simp only [Fs.inodes, Fs.usedInodes, Finset.mem_biUnion, Finset.mem_range, Finset.mem_image,
    Finset.mem_filter, Set.mem_ofPred_eq]
  constructor
  · rintro ⟨group, hgroup, bit, ⟨hbit, hset⟩, rfl⟩
    exact ⟨group, hgroup, bit, hbit, rfl, hset⟩
  · rintro ⟨group, hgroup, bit, hbit, rfl, hset⟩
    exact ⟨group, hgroup, bit, ⟨hbit, hset⟩, rfl⟩

/-- With an inode for each set bit, the directories of a group are those of its bitmap. -/
theorem InodePool.dirs_group (space : InodeSpace s.fs.sbi)
    (all : ∀ ino, ino ∈ s.entered ↔ ino ∈ s.fs.usedInodes) {g : Nat}
    (hg : g < s.fs.sbi.sGroupsCount) :
    s.dirs (fun ino => inodeGroup s.fs.sbi ino = g) = s.fs.dirCount g := by
  have himage : (s.entered.filter fun ino =>
      (decide (inodeGroup s.fs.sbi ino = g) && S_ISDIR (s.fs.inode ino).iMode) = true) =
      ((Finset.range s.fs.sbi.sInodesPerGroup).filter fun bit => s.fs.usedDir g bit = true).image
        (inodeNumber s.fs.sbi g) := by
    ext ino
    simp only [Finset.mem_filter, Finset.mem_image, Finset.mem_range, all, Bool.and_eq_true,
      decide_eq_true_eq, Fs.usedDir]
    constructor
    · rintro ⟨⟨group, hgroup, bit, hbit, rfl, hset⟩, hplace, hdir⟩
      rw [(space.place hgroup hbit).2.1] at hplace
      subst hplace
      exact ⟨bit, ⟨hbit, hset, hdir⟩, rfl⟩
    · rintro ⟨bit, ⟨hbit, hset, hdir⟩, rfl⟩
      exact ⟨⟨g, hg, bit, hbit, rfl, hset⟩, (space.place hg hbit).2.1, hdir⟩
  unfold InodePool.dirs Fs.dirCount setCount
  rw [himage]
  refine Finset.card_image_of_injOn fun a ha b hb heq => ?_
  have hlta := Finset.mem_range.mp (Finset.mem_filter.mp ha).1
  have hltb := Finset.mem_range.mp (Finset.mem_filter.mp hb).1
  exact (Fs.inode_number_inj hlta hltb heq).2

theorem InodePool.dirs_all (space : InodeSpace s.fs.sbi)
    (all : ∀ ino, ino ∈ s.entered ↔ ino ∈ s.fs.usedInodes) :
    s.dirs (fun _ => true) = ∑ g ∈ Finset.range s.fs.sbi.sGroupsCount, s.fs.dirCount g := by
  have hmaps : ∀ ino ∈ s.entered.filter fun ino => (true && S_ISDIR (s.fs.inode ino).iMode) = true,
      inodeGroup s.fs.sbi ino ∈ Finset.range s.fs.sbi.sGroupsCount := by
    intro ino hino
    obtain ⟨group, hgroup, bit, hbit, rfl, -⟩ := (all ino).mp (Finset.mem_of_mem_filter ino hino)
    rw [(space.place hgroup hbit).2.1]
    exact Finset.mem_range.mpr hgroup
  unfold InodePool.dirs
  rw [Finset.card_eq_sum_card_fiberwise hmaps]
  refine Finset.sum_congr rfl fun g hg => ?_
  rw [← InodePool.dirs_group space all (Finset.mem_range.mp hg), InodePool.dirs, Finset.filter_filter]
  refine congrArg Finset.card (Finset.filter_congr fun ino _ => ?_)
  simp [and_comm]

/-- With an inode for each set bit, the counts agree when the books are even. -/
theorem InodePool.counts_iff (space : InodeSpace s.fs.sbi)
    (all : ∀ ino, ino ∈ s.entered ↔ ino ∈ s.fs.usedInodes) : s.fs.InodeCounts ↔
      (∀ g < s.fs.sbi.sGroupsCount, s.freeBook g = 0 ∧ s.dirsBook g = 0) ∧ s.totalDirsBook = 0 := by
  have hper := space.lt
  -- all these numbers are below the width of the counts
  have hfree : ∀ g, s.freeBook g = 0 ↔ (s.fs.desc g).bgFreeInodesCount.toNat =
      clearCount (s.fs.inodeBitmap g) s.fs.sbi.sInodesPerGroup := by
    intro g
    have hclear := clearCount_le (s.fs.inodeBitmap g) s.fs.sbi.sInodesPerGroup
    have hcount := (s.fs.desc g).bgFreeInodesCount.toNat_lt
    rw [InodePool.freeBook, sub_eq_zero, ZMod.natCast_eq_natCast_iff', Nat.mod_eq_of_lt (by omega),
      Nat.mod_eq_of_lt (by omega), eq_comm]
  have hdirs : ∀ g < s.fs.sbi.sGroupsCount, (s.dirsBook g = 0 ↔
      (s.fs.desc g).bgUsedDirsCount.toNat = s.fs.dirCount g) := by
    intro g hg
    have hle : s.fs.dirCount g ≤ s.fs.sbi.sInodesPerGroup := by
      simpa [Fs.dirCount, setCount] using Finset.card_filter_le
        (Finset.range s.fs.sbi.sInodesPerGroup) fun bit => s.fs.usedDir g bit = true
    have hcount := (s.fs.desc g).bgUsedDirsCount.toNat_lt
    rw [InodePool.dirsBook, InodePool.dirs_group space all hg, sub_eq_zero,
      ZMod.natCast_eq_natCast_iff', Nat.mod_eq_of_lt (by omega), Nat.mod_eq_of_lt (by omega)]
  have htotal : (∀ g < s.fs.sbi.sGroupsCount, s.dirsBook g = 0) →
      (s.totalDirsBook = 0 ↔ s.fs.sDirsCounter = s.fs.krCountDirs) := by
    intro hbooks
    have hsum : s.fs.krCountDirs = (s.dirs fun _ => true : Int) := by
      rw [InodePool.dirs_all space all, Fs.krCountDirs, Nat.cast_sum]
      refine Finset.sum_congr rfl fun g hg => ?_
      have hlt := Finset.mem_range.mp hg
      rw [(hdirs g hlt).mp (hbooks g hlt)]
    rw [InodePool.totalDirsBook, hsum, sub_eq_zero]
  constructor
  · intro h
    have hbooks : ∀ g < s.fs.sbi.sGroupsCount, s.dirsBook g = 0 := fun g hg =>
      (hdirs g hg).mpr (h.dirs g hg)
    exact ⟨fun g hg => ⟨(hfree g).mpr (h.free g hg), hbooks g hg⟩, (htotal hbooks).mpr h.dirsCounter⟩
  · rintro ⟨hbooks, hcounter⟩
    constructor
    · exact fun g hg => (hfree g).mp (hbooks g hg).1
    · exact fun g hg => (hdirs g hg).mp (hbooks g hg).2
    · exact (htotal fun g hg => (hbooks g hg).2).mp hcounter

variable {ι : Type} [Fintype ι] [DecidableEq ι] {c c' : Threads.Config ι InodePool InodeTask}

/-- The invariant of the runs. -/
structure InodesKept (fs : Fs) (c : Threads.Config ι InodePool InodeTask) : Prop where
  exclusive : (inodeOwnership fs).Exclusive c
  free : ∀ g < fs.sbi.sGroupsCount, Ledger (InodePool.freeBook g) (fun u => u.phase.freeDue g) c
  dirs : ∀ g < fs.sbi.sGroupsCount, Ledger (InodePool.dirsBook g) (InodeTask.dirsDue fs.sbi g) c
  total : Ledger InodePool.totalDirsBook InodeTask.totalDirsDue c

theorem InodesKept.step (space : InodeSpace fs.sbi) (reserved : InodesMatch fs)
    (h : InodesKept fs c) (step : Step InodeMove c c') : InodesKept fs c' := by
  constructor
  · exact h.exclusive.step (fun agrees move => InodeMove.obeys space reserved agrees move) step
  · intro g hg
    exact (h.free g hg).step
      (fun {t _} move => move.freeBook space reserved (h.exclusive.agrees t) g) step
  · intro g hg
    exact (h.dirs g hg).step (fun {t _} move => move.dirsBook space (h.exclusive.agrees t) g) step
  · exact h.total.step (fun {t _} move => move.totalDirsBook space (h.exclusive.agrees t)) step

omit [DecidableEq ι] in
/-- At first every number in use has its inode. -/
theorem Fs.tasksAtRest_kept (space : InodeSpace fs.sbi) (counts : fs.InodeCounts) :
    InodesKept fs (fs.tasksAtRest ι) := by
  have hall : ∀ ino, ino ∈ fs.inodes ↔ ino ∈ fs.usedInodes := fun ino => Fs.mem_inodes
  obtain ⟨hbooks, htotal⟩ := (@InodePool.counts_iff ⟨fs, fs.inodes⟩ space hall).mp counts
  have hsound : (inodeOwnership fs).Sound ⟨fs, fs.inodes⟩ := by
    constructor
    · exact ⟨rfl, fun ino hino _ => (hall ino).mpr hino⟩
    · exact fun ino hino => (hall ino).mp hino
  have hnone : ∀ i ino, ino ∉ ((fs.tasksAtRest ι).thread i).holds fs.sbi := by
    intro i ino hino
    simp [Fs.tasksAtRest, InodeTask.holds, InodePhase.holds] at hino
  constructor
  · constructor
    · exact hsound
    · intro i
      constructor
      · exact hsound
      · exact ⟨trivial, fun ino hino => hino.elim⟩
      · exact fun ino hino => absurd hino (hnone i ino)
      · exact fun ino hino => absurd hino (hnone i ino)
    · exact fun i j _ ino hino => absurd hino (hnone i ino)
    · exact fun ino hino => Or.inl ((hall ino).mpr hino)
  · intro g hg
    simp [Ledger, Fs.tasksAtRest, InodePhase.freeDue, (hbooks g hg).1]
  · intro g hg
    simp [Ledger, Fs.tasksAtRest, InodeTask.dirsDue, InodePhase.dirsDue, lostDirs,
      (hbooks g hg).2]
  · simp [Ledger, Fs.tasksAtRest, InodeTask.totalDirsDue, InodePhase.totalDirsDue, lostDirs,
      htotal]

/-- A call that is under way can go on. -/
theorem InodeTask.moves {u : InodeTask} (h : (inodeOwnership fs).Agrees s u)
    (busy : u.phase ≠ .idle) : ∃ s' u', InodeMove s u s' u' := by
  have good : u.Ok fs.sbi := h.good
  have hok := good.phase
  cases hphase : u.phase with
  | idle => exact absurd hphase busy
  | searching mode group n =>
    cases n with
    | zero => exact ⟨_, _, .noSpace hphase⟩
    | succ n => exact ⟨_, _, .tryGroup hphase⟩
  | claiming mode group n claimed prog =>
    rw [hphase] at hok
    have hnext : (∃ after, Access ⟨s.fs.inodeBitmap group, claimed, prog⟩ after) ∨ _ :=
      hok.2.progress
    rcases hnext with ⟨⟨bits, own, next⟩, hmade⟩ | ⟨found, hret, -⟩
    · exact ⟨_, _, .access hphase hmade⟩
    · subst hret
      cases found with
      | none => exact ⟨_, _, .missed hphase⟩
      | some bit => exact ⟨_, _, .found hphase⟩
  | got mode group bit =>
    by_cases hlow : inodeNumber s.fs.sbi group bit < s.fs.sbi.sFirstIno
    · exact ⟨_, _, .badNumber hphase (Or.inl hlow)⟩
    · by_cases hhigh : s.fs.sbi.sEs.sInodesCount.toNat < inodeNumber s.fs.sbi group bit
      · exact ⟨_, _, .badNumber hphase (Or.inr hhigh)⟩
      · exact ⟨_, _, .countFree hphase (Nat.not_lt.mp hlow) (Nat.not_lt.mp hhigh)⟩
  | freeCounted mode group bit => exact ⟨_, _, .countDir hphase⟩
  | dirCounted mode group bit => exact ⟨_, _, .describe hphase⟩
  | described mode group bit => exact ⟨_, _, .quotaFails hphase⟩
  | freeing ino dir => exact ⟨_, _, .unreadable hphase⟩
  | cleared group dir => exact ⟨_, _, .release hphase⟩
  | released dir => exact ⟨_, _, .uncountDir hphase⟩

omit [DecidableEq ι] in
theorem InodesKept.shared (space : InodeSpace fs.sbi) (h : InodesKept fs c) :
    InodesShared fs c := by
  have hsbi : c.shared.fs.sbi = fs.sbi := h.exclusive.sound.sane.1
  constructor
  · exact h.exclusive.disjoint
  · exact fun i ino hino => (h.exclusive.agrees i).apart ino hino
  · intro ino
    constructor
    · exact h.exclusive.covered ino
    · rintro (hmem | ⟨i, hi⟩)
      · exact h.exclusive.sound.pool hmem
      · exact (h.exclusive.agrees i).used hi
  · exact fun i busy => InodeTask.moves (h.exclusive.agrees i) busy
  · intro hidle
    have hall : ∀ ino, ino ∈ c.shared.entered ↔ ino ∈ c.shared.fs.usedInodes := by
      intro ino
      constructor
      · exact fun hmem => h.exclusive.sound.pool hmem
      · intro hused
        rcases h.exclusive.covered ino hused with hmem | ⟨i, hi⟩
        · exact hmem
        · simp [inodeOwnership, hidle i, InodeTask.holds, InodePhase.holds] at hi
    have hspace : InodeSpace c.shared.fs.sbi := by rwa [hsbi]
    refine (InodePool.counts_iff hspace hall).mpr ⟨fun g hg => ⟨?_, ?_⟩, ?_⟩
    · refine (h.free g (hsbi ▸ hg)).settled fun i => ?_
      simp only [hidle i, InodePhase.freeDue]
    · refine (h.dirs g (hsbi ▸ hg)).settled fun i => ?_
      simp [hidle i, InodeTask.dirsDue, InodePhase.dirsDue, lostDirs]
    · refine h.total.settled fun i => ?_
      simp [hidle i, InodeTask.totalDirsDue, InodePhase.totalDirsDue, lostDirs]

/-- In every interleaving of calls of `kr_new_inode` and `kr_free_inode`, on a mounted file
system with blocks of at most 4 KiB whose counts agreed at the start, each number has one
owner, no call is stuck, and the counts agree whenever no call is under way. -/
theorem inodeThreads_shared {k : MountEnv} {es : SuperBlock} (accepted : krFillSuper k es = .ok fs.sbi)
    (hsize : fs.sbi.sBlocksize ≤ 4096) (reserved : InodesMatch fs) (counts : fs.InodeCounts)
    (run : Run InodeMove (fs.tasksAtRest ι) c) : InodesShared fs c := by
  obtain ⟨hsbi, -, hgeo, -⟩ := krFillSuper_ok accepted
  simp only [geometryOk, Bool.and_eq_true, decide_eq_true_eq, bne_iff_ne] at hgeo
  have space : InodeSpace fs.sbi := ⟨by omega, by omega, reserved.inodes⟩
  have hkept : InodesKept fs c := by
    induction run with
    | refl => exact fs.tasksAtRest_kept space counts
    | tail _ step ih => exact ih.step space reserved step
  exact hkept.shared space

end Runs


/-! ## A call without others is the sequential one -/

section Alone

variable {s : InodePool} {u : InodeTask}

theorem InodeMove.once {s' : InodePool} {u' : InodeTask} (h : InodeMove s u s' u') :
    Alone InodeMove (s, u) (s', u') :=
  .single h

/-- The accesses of a search with nobody else around. -/
theorem searching_moves {mode : UInt16} {group n : Nat} {prog : Prog Nat (Option Nat)}
    {claimed : List Nat} {found : Option Nat} {bits : Nat → Bool}
    (hphase : u.phase = .claiming mode group n claimed prog)
    (halone : prog.alone (s.fs.inodeBitmap group) = some (found, bits)) :
    ∃ claimed', Alone InodeMove (s, u)
      ({ s with fs := { s.fs with inodeBitmap := Function.update s.fs.inodeBitmap group bits } },
        { u with phase := .claiming mode group n claimed' (.ret found) }) := by
  let reached (c : Interference.Config Nat (Option Nat)) : Prop := Alone InodeMove (s, u)
    ({ s with fs := { s.fs with inodeBitmap := Function.update s.fs.inodeBitmap group c.bits } },
      { u with phase := .claiming mode group n c.own c.prog })
  have hstart : reached ⟨s.fs.inodeBitmap group, claimed, prog⟩ := by
    simp only [reached, Function.update_eq_self, ← hphase]
    exact .refl
  have hstep : ∀ {c c'}, reached c → Access c c' → reached c' := by
    intro c c' here made
    have hmove := @InodeMove.access
      { s with fs := { s.fs with inodeBitmap := Function.update s.fs.inodeBitmap group c.bits } }
      { u with phase := .claiming mode group n c.own c.prog } mode group n c.own c'.own c.prog
      c'.prog c'.bits rfl (by simpa only [Function.update_self] using made)
    simp only [Function.update_idem] at hmove
    exact here.trans hmove.once
  exact Prog.alone_keeps hstep halone hstart

/-- A search of `kr_new_inode` in a group, as the sequential model has it. -/
theorem findInodeBit_moves {mode : UInt16} {group n : Nat}
    (hphase : u.phase = .searching mode group (n + 1)) :
    match findInodeBit (s.fs.inodeBitmap group) s.fs.sbi.sInodesPerGroup
      (s.fs.sbi.sInodesPerGroup + 1) 0 with
    | none => Alone InodeMove (s, u) (s, { u with phase := .searching mode (nextGroup s.fs.sbi group) n })
    | some bit => Alone InodeMove (s, u)
        ({ s with fs := s.fs.setInodeBit group bit true }, { u with phase := .got mode group bit }) := by
  have halone := Interleaved.findInodeBit_alone (s.fs.inodeBitmap group) s.fs.sbi.sInodesPerGroup
    (s.fs.sbi.sInodesPerGroup + 1) 0 (by omega)
  have htry := @InodeMove.tryGroup s u mode group n hphase
  cases hfound : findInodeBit (s.fs.inodeBitmap group) s.fs.sbi.sInodesPerGroup
      (s.fs.sbi.sInodesPerGroup + 1) 0 with
  | none =>
    rw [hfound] at halone
    obtain ⟨claimed, hsearch⟩ := @searching_moves s
      { u with
        phase := .claiming mode group n []
          (Interleaved.findInodeBit s.fs.sbi.sInodesPerGroup (s.fs.sbi.sInodesPerGroup + 1) 0) }
      mode group n _ [] none _ rfl halone
    simp only [Function.update_eq_self] at hsearch
    have hmiss := @InodeMove.missed s { u with phase := .claiming mode group n claimed (.ret none) }
      mode group n claimed rfl
    exact (htry.once.trans hsearch).trans hmiss.once
  | some bit =>
    rw [hfound] at halone
    obtain ⟨claimed, hsearch⟩ := @searching_moves s
      { u with
        phase := .claiming mode group n []
          (Interleaved.findInodeBit s.fs.sbi.sInodesPerGroup (s.fs.sbi.sInodesPerGroup + 1) 0) }
      mode group n _ [] (some bit) _ rfl halone
    have hgot := @InodeMove.found { s with fs := s.fs.setInodeBit group bit true }
      { u with phase := .claiming mode group n claimed (.ret (some bit)) } mode group n bit claimed
      rfl
    exact (htry.once.trans hsearch).trans hgot.once

/-- The loop of `kr_new_inode` over the groups. -/
theorem newInodeLoop_moves {env : NewInodeEnv} {mode : UInt16} {group bit : Nat} (n : Nat) :
    ∀ {u : InodeTask} {g : Nat}, g < s.fs.sbi.sGroupsCount → u.phase = .searching mode g n →
    newInodeLoop env s.fs n g = .ok (group, bit) →
    Alone InodeMove (s, u)
      ({ s with fs := s.fs.setInodeBit group bit true }, { u with phase := .got mode group bit }) := by
  induction n with
  | zero =>
    intro u g _ _ h
    cases h
  | succ n ih =>
    intro u g hg hphase h
    have hsearch := @findInodeBit_moves s u mode g n hphase
    rw [newInodeLoop, Fs.groupDesc_eq hg] at h
    dsimp only at h
    split at h
    · cases h
    · cases hfound : findInodeBit (s.fs.inodeBitmap g) s.fs.sbi.sInodesPerGroup
          (s.fs.sbi.sInodesPerGroup + 1) 0 with
      | none =>
        rw [hfound] at h hsearch
        have hnext : nextGroup s.fs.sbi g < s.fs.sbi.sGroupsCount := by
          unfold nextGroup
          split
          · omega
          · omega
        exact hsearch.trans (@ih { u with phase := .searching mode (nextGroup s.fs.sbi g) n } _ hnext
          rfl h)
      | some found =>
        rw [hfound] at h hsearch
        obtain ⟨rfl, rfl⟩ := Prod.mk.inj (Except.ok.inj h)
        exact hsearch

/-- The counts of a new inode, one after another. -/
theorem countInode_eq (fs : Fs) (mode : UInt16) (group : Nat) : countInode fs mode group =
    describeInode (Fs.countDirs { fs with sFreeinodesCounter := fs.sFreeinodesCounter - 1 }
      (S_ISDIR mode).toNat) mode group := by
  unfold countInode describeInode Fs.countDirs
  cases S_ISDIR mode with
  | false => simp
  | true => simp

theorem releasedInode_eq (fs : Fs) (group bit : Nat) (dir : Bool) : releasedInode fs group bit dir =
    (releaseInode (fs.setInodeBit group bit false) group dir).countDirs (-dir.toNat) := by
  unfold releasedInode releaseInode Fs.countDirs
  cases dir with
  | false => simp [Fs.setInodeBit]
  | true => simp [Fs.setInodeBit, sub_eq_add_neg]

/-- The rest of `kr_new_inode` once it has a bit. -/
theorem counting_moves {env : NewInodeEnv} {mode : UInt16} {group bit : Nat} (dir : Nat)
    (owner : env.KeepsType) (hphase : u.phase = .got mode group bit)
    (hlow : s.fs.sbi.sFirstIno ≤ inodeNumber s.fs.sbi group bit)
    (hhigh : inodeNumber s.fs.sbi group bit ≤ s.fs.sbi.sEs.sInodesCount.toNat) :
    Alone InodeMove (s, u)
      (InodePool.enter { s with fs := countInode s.fs mode group } (inodeNumber s.fs.sbi group bit)
        (newInode env (countInode s.fs mode group) dir mode group), { u with phase := .idle }) := by
  have hfree := InodeMove.countFree hphase hlow hhigh
  have hdir := @InodeMove.countDir
    { s with fs := { s.fs with sFreeinodesCounter := s.fs.sFreeinodesCounter - 1 } }
    { u with phase := .freeCounted mode group bit } mode group bit rfl
  have hdescribe := @InodeMove.describe
    { s with
      fs := Fs.countDirs { s.fs with sFreeinodesCounter := s.fs.sFreeinodesCounter - 1 }
        (S_ISDIR mode).toNat }
    { u with phase := .dirCounted mode group bit } mode group bit rfl
  rw [← countInode_eq] at hdescribe
  have hinsert := @InodeMove.insert { s with fs := countInode s.fs mode group }
    { u with phase := .described mode group bit } mode group bit dir env owner rfl
  exact ((hfree.once.trans hdir.once).trans hdescribe.once).trans hinsert.once

/-- `kr_new_inode` without others. -/
theorem krNewInode_moves {env : NewInodeEnv} {fs' : Fs} {dir ino : Nat} {mode : UInt16}
    (hphase : u.phase = .idle) (hn : 0 < s.fs.sbi.sGroupsCount)
    (hlt : s.fs.sbi.sGroupsCount < 2 ^ 30)
    (hparent : (s.fs.inode dir).iBlockGroup < s.fs.sbi.sGroupsCount) (owner : env.KeepsType)
    (h : krNewInode env s.fs dir mode = some (.ok ino, fs')) :
    Alone InodeMove (s, u) (⟨fs', insert ino s.entered⟩, { u with phase := .idle }) := by
  obtain ⟨found, hfound, -, hsome⟩ := findGroup_finds env mode hn hlt hparent
  unfold krNewInode at h
  rw [hfound] at h
  split at h
  · cases h
  rw [Option.map_some, Option.some.injEq] at h
  cases found with
  | none => cases h
  | some g =>
    have hg := (hsome g rfl).1
    dsimp only at h
    cases hloop : newInodeLoop env s.fs s.fs.sbi.sGroupsCount g with
    | error err =>
      rw [hloop] at h
      cases h
    | ok place =>
      obtain ⟨group, bit⟩ := place
      have hstart := @InodeMove.newInode s u mode g hphase hg
      have hsearch := @newInodeLoop_moves s env mode group bit s.fs.sbi.sGroupsCount
        { u with phase := .searching mode g s.fs.sbi.sGroupsCount } g hg rfl hloop
      have hnumber : bit + (group * s.fs.sbi.sInodesPerGroup + 1) =
          inodeNumber s.fs.sbi group bit := by
        unfold inodeNumber
        omega
      have hsbi : (s.fs.setInodeBit group bit true).sbi = s.fs.sbi := rfl
      rw [hloop] at h
      simp only [hsbi, hnumber] at h
      split at h
      · cases h
      rename_i hrange
      simp only [Bool.or_eq_true, decide_eq_true_eq, not_or, Nat.not_lt] at hrange
      have hcount := @counting_moves { s with fs := s.fs.setInodeBit group bit true }
        { u with phase := .got mode group bit } env mode group bit dir owner rfl hrange.1 hrange.2
      split at h
      · cases h
      split at h
      · cases h
      · cases h
      · cases h
        exact (hstart.once.trans hsearch).trans hcount

/-- `kr_free_inode` without others. -/
theorem krFreeInode_moves (space : InodeSpace s.fs.sbi) {readBitmap : Nat → Bool} {ino : Nat}
    (hphase : u.phase = .idle) (hmem : ino ∈ s.entered) (hpos : 0 < ino)
    (h : s.fs.frees readBitmap ino = true) :
    Alone InodeMove (s, u)
      (⟨s.fs.krFreeInode readBitmap ino, s.entered.erase ino⟩, { u with phase := .idle }) := by
  obtain ⟨group, hgroup, bit, hbit, hino, hset, heq⟩ := krFreeInode_eq space.pos hpos h
  obtain ⟨-, hdiv, hmod⟩ := space.place hgroup hbit
  rw [inodeNumber, ← hino] at hdiv hmod
  simp only [Fs.frees, Bool.and_eq_true, decide_eq_true_eq] at h
  obtain ⟨⟨⟨hlow, hhigh⟩, -⟩, -⟩ := h
  rw [heq, releasedInode_eq]
  obtain ⟨dir, hdir⟩ : ∃ dir, dir = S_ISDIR (s.fs.inode ino).iMode := ⟨_, rfl⟩
  have hstart := InodeMove.freeInode hphase hmem hlow hhigh
  rw [← hdir] at hstart ⊢
  have hclear := @InodeMove.clearBit { s with entered := s.entered.erase ino }
    { u with phase := .freeing ino dir } ino dir rfl (by rw [hdiv, hmod]; exact hset)
  rw [hdiv, hmod] at hclear
  have hrelease := @InodeMove.release
    { fs := s.fs.setInodeBit group bit false, entered := s.entered.erase ino }
    { u with phase := .cleared group dir } group dir rfl
  have hend := @InodeMove.uncountDir
    { fs := releaseInode (s.fs.setInodeBit group bit false) group dir
      entered := s.entered.erase ino }
    { u with phase := .released dir } dir rfl
  exact ((hstart.once.trans hclear.once).trans hrelease.once).trans hend.once

end Alone

section Witness

theorem countedFs_match : InodesMatch countedFs := by
  constructor
  · exact countedFs_agree.free
  · exact inodeFs_match.reserved
  · exact inodeFs_match.inodes

/-- A task asks for a number and takes one, and does not count it yet. -/
theorem newInode_takes {c : Threads.Config Bool InodePool InodeTask} (t : Bool)
    (hidle : c.thread t = ⟨[], .idle⟩) (mode : UInt16) {group bit : Nat}
    (hgroup : group < c.shared.fs.sbi.sGroupsCount)
    (hfound : findInodeBit (c.shared.fs.inodeBitmap group) c.shared.fs.sbi.sInodesPerGroup
      (c.shared.fs.sbi.sInodesPerGroup + 1) 0 = some bit) :
    Run InodeMove c ⟨{ c.shared with fs := c.shared.fs.setInodeBit group bit true },
      Function.update c.thread t ⟨[], .got mode group bit⟩⟩ := by
  obtain ⟨n, hn⟩ : ∃ n, c.shared.fs.sbi.sGroupsCount = n + 1 :=
    ⟨_, (Nat.succ_pred_eq_of_pos (Nat.zero_lt_of_lt hgroup)).symm⟩
  have hstart := @InodeMove.newInode c.shared ⟨[], .idle⟩ mode group rfl hgroup
  have hsearch := @findInodeBit_moves c.shared ⟨[], .searching mode group (n + 1)⟩ mode group n rfl
  rw [hfound] at hsearch
  rw [hn] at hstart
  have halone := hstart.once.trans hsearch
  rw [← hidle] at halone
  exact Alone.run t halone

/-- One task has taken a number and not counted it when another one asks. -/
theorem inodeThreads_shared_two : ∃ c, Run InodeMove (countedFs.tasksAtRest Bool) c ∧
    (c.thread false).phase = .got 0x41ED 0 11 ∧ (c.thread true).phase = .got 0x81A4 0 12 ∧
    InodesShared countedFs c := by
  have hfirst := @newInode_takes (countedFs.tasksAtRest Bool) false rfl 0x41ED 0 11 (by decide)
    (by decide +kernel)
  have hsecond := @newInode_takes ⟨⟨countedFs.setInodeBit 0 11 true, countedFs.inodes⟩,
    Function.update (fun _ => ⟨[], .idle⟩) false ⟨[], .got 0x41ED 0 11⟩⟩ true rfl 0x81A4 0 12
    (by decide) (by decide +kernel)
  have run := hfirst.trans hsecond
  exact ⟨_, run, rfl, rfl, inodeThreads_shared krFillSuper_inodeImage (by decide) countedFs_match
    countedFs_agree.toInodeCounts run⟩

end Witness

end KrFs
