import KrFs.SuperState
import KrFs.Groups
import Mathlib.Algebra.BigOperators.Group.Finset.Basic

/-!
# `kr_statfs`

The overhead is kept in `s_overhead_last` for the block count in `s_blocks_last`. A call
under `minixdf` sets it to 0 and leaves the block count, so the next call under `bsddf`
takes the 0 for the overhead.
-/

namespace KrFs

open Finset

def EXT2_NAME_LEN : Nat := 255

/-- The overhead that `kr_statfs` computes, an `unsigned long`. -/
def statfsOverhead (sbi : SbInfo) : Nat :=
  let overhead := sbi.sEs.sFirstDataBlock.toNat
  let overhead := (List.range sbi.sGroupsCount).foldl (fun overhead i =>
    (overhead + ((krBgHasSuper sbi.sEs i).toNat + krBgNumGdb sbi i)) % 2 ^ 64) overhead
  (overhead + sbi.sGroupsCount * (2 + sbi.sItbPerGroup)) % 2 ^ 64

/-- The blocks of a file system that hold no data: those before the first data block,
the superblocks and descriptors, and the bitmaps and inode tables. -/
def SbInfo.overhead (sbi : SbInfo) : Nat :=
  sbi.sEs.sFirstDataBlock.toNat +
    ∑ i ∈ range sbi.sGroupsCount, ((krBgHasSuper sbi.sEs i).toNat + krBgNumGdb sbi i) +
    sbi.sGroupsCount * (2 + sbi.sItbPerGroup)

/-- `struct kstatfs` but for the identifier of the file system. -/
structure Kstatfs where
  fType : UInt16
  fBsize : Nat
  fBlocks : Nat
  fBfree : Nat
  fBavail : Nat
  fFiles : Nat
  fFfree : Nat
  fNamelen : Nat

/-- The superblock with the fields that only `kr_statfs` uses. -/
structure StatfsSb extends Super where
  sOverheadLast : Nat
  sBlocksLast : Nat
  sFreeBlocksCount : UInt32
  sFreeInodesCount : UInt32

namespace StatfsSb

/-- A file system that was mounted: the cache is empty. -/
def ofMount (s : Super) (freeBlocks freeInodes : UInt32) : StatfsSb :=
  ⟨s, 0, 0, freeBlocks, freeInodes⟩

def minixDf (s : StatfsSb) : Bool := s.options.testOpt .minixDf

/-- The part of `kr_statfs` that gets the overhead. -/
def updateOverhead (sbi : SbInfo) (s : StatfsSb) : StatfsSb :=
  if s.minixDf then { s with sOverheadLast := 0 }
  else if s.sBlocksLast ≠ sbi.sEs.sBlocksCount.toNat then
    { s with sOverheadLast := statfsOverhead sbi, sBlocksLast := sbi.sEs.sBlocksCount.toNat }
  else s

/-- `kr_statfs`. -/
def krStatfs (sbi : SbInfo) (desc : Nat → GroupDesc) (s : StatfsSb) : Kstatfs × StatfsSb :=
  let s := s.updateOverhead sbi
  let fBfree := krCountFreeBlocks sbi desc
  let fFfree := krCountFreeInodes sbi desc
  let fBavail := if fBfree < sbi.sEs.sRBlocksCount.toNat then 0
    else fBfree - sbi.sEs.sRBlocksCount.toNat
  ({ fType := EXT2_SUPER_MAGIC
     fBsize := sbi.sBlocksize
     fBlocks := sub64 sbi.sEs.sBlocksCount.toNat s.sOverheadLast
     fBfree := fBfree
     fBavail := fBavail
     fFiles := sbi.sEs.sInodesCount.toNat
     fFfree := fFfree
     fNamelen := EXT2_NAME_LEN },
    { s with
      sFreeBlocksCount := UInt32.ofNat fBfree
      sFreeInodesCount := UInt32.ofNat fFfree })

/-- The number of blocks that `kr_statfs` is to report. -/
def blocks (sbi : SbInfo) (s : StatfsSb) : Nat :=
  sub64 sbi.sEs.sBlocksCount.toNat (if s.minixDf then 0 else sbi.overhead)

end StatfsSb

/-- Calls of `kr_statfs` and other operations on a mounted file system, remounts among
them, with the modes of the calls in turn: whether `minixdf` was set. -/
inductive StatfsRun (config : KrConfig) (es : MountDefaults) (sbi : SbInfo) (start : StatfsSb) :
    List Bool → StatfsSb → Prop
  | mount : StatfsRun config es sbi start [] start
  | statfs {modes : List Bool} {s : StatfsSb} (desc : Nat → GroupDesc)
      (run : StatfsRun config es sbi start modes s) :
      StatfsRun config es sbi start (modes ++ [s.minixDf]) (s.krStatfs sbi desc).2
  | other {modes : List Bool} {s : StatfsSb} {t : Super} (op : SuperOp)
      (run : StatfsRun config es sbi start modes s)
      (step : op.step config es s.toSuper = some t) (mounted : t.mounted = true) :
      StatfsRun config es sbi start modes { s with toSuper := t }

section Overhead

variable {sbi : SbInfo}

theorem foldl_add_mod (f : Nat → Nat) (n a : Nat) :
    (List.range n).foldl (fun overhead i => (overhead + f i) % 2 ^ 64) a % 2 ^ 64 =
      (a + ∑ i ∈ range n, f i) % 2 ^ 64 := by
  induction n with
  | zero => rfl
  | succ n ih =>
    rw [List.range_succ, List.foldl_append, List.foldl_cons, List.foldl_nil, Nat.mod_mod,
      Nat.add_mod, ih, ← Nat.add_mod, sum_range_succ, Nat.add_assoc]

/-- The loop of `kr_statfs` adds up what it is for. -/
theorem statfsOverhead_eq (sbi : SbInfo) : statfsOverhead sbi = sbi.overhead % 2 ^ 64 := by
  unfold statfsOverhead SbInfo.overhead
  dsimp only
  rw [Nat.add_mod, foldl_add_mod, ← Nat.add_mod]

theorem sub64_mod (a b : Nat) : sub64 a (b % 2 ^ 64) = sub64 a b := by
  unfold sub64
  rw [Nat.mod_mod]

/-- Taking two numbers from a third gives the same just when they agree modulo 2^64. -/
theorem sub64_inj {a b c : Nat} : sub64 a b = sub64 a c ↔ b % 2 ^ 64 = c % 2 ^ 64 := by
  unfold sub64
  omega

end Overhead

section Run

variable {config : KrConfig} {es : MountDefaults} {sbi : SbInfo} {start s : StatfsSb}
  {modes : List Bool}

theorem sublist_append_true : [false, true].Sublist (modes ++ [true]) ↔ false ∈ modes := by
  constructor
  · intro h
    obtain ⟨xs, ys, heq, hxs, hys⟩ := List.sublist_append_iff.mp h
    cases xs with
    | nil =>
      rw [List.nil_append] at heq
      subst heq
      exact absurd hys.length_le (by decide)
    | cons x xs =>
      rw [List.cons_append, List.cons.injEq] at heq
      rw [heq.1]
      exact hxs.subset List.mem_cons_self
  · intro h
    exact (List.singleton_sublist.mpr h).append (List.Sublist.refl [true])

theorem sublist_append_false :
    [false, true].Sublist (modes ++ [false]) ↔ [false, true].Sublist modes := by
  constructor
  · intro h
    obtain ⟨xs, ys, heq, hxs, hys⟩ := List.sublist_append_iff.mp h
    rcases List.sublist_singleton.mp hys with rfl | rfl
    · rw [List.append_nil] at heq
      rw [heq]
      exact hxs
    · have hlast := congrArg List.getLast? heq
      rw [List.getLast?_append] at hlast
      cases hlast
  · exact fun h => h.trans (List.sublist_append_left modes [false])

/-- After calls in the given modes the cache holds the overhead: there was a call under
`bsddf`, and none under `minixdf` after it. -/
def Overhead (sbi : SbInfo) (modes : List Bool) : Prop :=
  sbi.sEs.sBlocksCount ≠ 0 ∧ false ∈ modes ∧ ¬ [false, true].Sublist modes

theorem not_overhead_minixDf : ¬ Overhead sbi (modes ++ [true]) := by
  rintro ⟨-, hmem, hnot⟩
  exact hnot (sublist_append_true.mpr (by simpa using hmem))

theorem overhead_bsdDf : Overhead sbi (modes ++ [false]) ↔
    sbi.sEs.sBlocksCount ≠ 0 ∧ ¬ [false, true].Sublist modes := by
  unfold Overhead
  rw [sublist_append_false]
  simp

/-- `kr_statfs` does not change the state. -/
theorem krStatfs_toSuper (sbi : SbInfo) (desc : Nat → GroupDesc) (s : StatfsSb) :
    (s.krStatfs sbi desc).2.toSuper = s.toSuper := by
  unfold StatfsSb.krStatfs StatfsSb.updateOverhead
  dsimp only
  split
  · rfl
  · split
    · rfl
    · rfl

/-- What the cache holds. -/
structure StatfsSb.Cached (sbi : SbInfo) (modes : List Bool) (s : StatfsSb) : Prop where
  blocks : s.sBlocksLast = if false ∈ modes then sbi.sEs.sBlocksCount.toNat else 0
  overhead : Overhead sbi modes → s.sOverheadLast = statfsOverhead sbi
  none : ¬ Overhead sbi modes → s.sOverheadLast = 0

theorem StatfsSb.Cached.update (h : s.Cached sbi modes) :
    (s.updateOverhead sbi).Cached sbi (modes ++ [s.minixDf]) := by
  obtain ⟨hblocks, hoverhead, hnone⟩ := h
  unfold StatfsSb.updateOverhead
  cases hmode : s.minixDf with
  | true =>
    rw [if_pos rfl]
    refine ⟨?_, fun hover => absurd hover not_overhead_minixDf, fun _ => rfl⟩
    rw [hblocks]
    simp
  | false =>
    rw [if_neg Bool.false_ne_true]
    have hmem : false ∈ modes ++ [false] := by simp
    by_cases hsame : s.sBlocksLast ≠ sbi.sEs.sBlocksCount.toNat
    · -- the cache is empty, and this is the first call under `bsddf`
      rw [if_pos hsame]
      have hfirst : false ∉ modes := by
        intro hmem
        rw [hblocks, if_pos hmem] at hsame
        exact hsame rfl
      have hpos : sbi.sEs.sBlocksCount ≠ 0 := by
        intro hzero
        rw [hblocks, if_neg hfirst, hzero] at hsame
        exact hsame rfl
      refine ⟨(if_pos hmem).symm, fun _ => rfl, fun hnot => ?_⟩
      exact absurd (overhead_bsdDf.mpr ⟨hpos, fun hsub => hfirst (hsub.subset List.mem_cons_self)⟩) hnot
    · rw [if_neg hsame]
      rw [not_not] at hsame
      refine ⟨by rw [if_pos hmem]; exact hsame, fun hover => hoverhead ?_, fun hnot => hnone ?_⟩
      · obtain ⟨hpos, hnot⟩ := overhead_bsdDf.mp hover
        refine ⟨hpos, ?_, hnot⟩
        by_contra hbefore
        rw [hblocks, if_neg hbefore] at hsame
        exact hpos (UInt32.toNat.inj hsame.symm)
      · exact fun hover => hnot (overhead_bsdDf.mpr ⟨hover.1, hover.2.2⟩)

/-- The cache along a run. -/
theorem StatfsRun.cached {t : Super} {freeBlocks freeInodes : UInt32}
    (run : StatfsRun config es sbi (StatfsSb.ofMount t freeBlocks freeInodes) modes s) :
    s.Cached sbi modes := by
  induction run with
  | mount => exact ⟨rfl, fun hover => (nomatch hover.2.1), fun _ => rfl⟩
  | statfs desc run ih => exact ⟨ih.update.blocks, ih.update.overhead, ih.update.none⟩
  | other op run step mounted ih => exact ⟨ih.blocks, ih.overhead, ih.none⟩

/-- A call and then an operation. -/
theorem StatfsRun.next (run : StatfsRun config es sbi start modes s) (desc : Nat → GroupDesc)
    {op : SuperOp} {t : Super} (step : op.step config es s.toSuper = some t)
    (mounted : t.mounted = true) :
    ∃ s' : StatfsSb, s'.toSuper = t ∧ StatfsRun config es sbi start (modes ++ [s.minixDf]) s' := by
  have hcalled := run.statfs desc
  exact ⟨_, rfl, hcalled.other op (by rw [krStatfs_toSuper]; exact step) mounted⟩

end Run

/-- In every run from the mount on, `kr_statfs` reports the right number of blocks just
when `minixdf` is set, or the overhead is 0, or the superblock has a block count and no call
under `minixdf` has come after one under `bsddf`. -/
theorem krStatfs_blocks_iff {config : KrConfig} {es : MountDefaults} {sbi : SbInfo} {t : Super}
    {freeBlocks freeInodes : UInt32} {modes : List Bool} {s : StatfsSb}
    (run : StatfsRun config es sbi (StatfsSb.ofMount t freeBlocks freeInodes) modes s)
    (desc : Nat → GroupDesc) :
    (s.krStatfs sbi desc).1.fBlocks = s.blocks sbi ↔
      s.minixDf = true ∨ 2 ^ 64 ∣ sbi.overhead ∨
        (sbi.sEs.sBlocksCount ≠ 0 ∧ ¬ [false, true].Sublist modes) := by
  have hcached := run.cached.update
  have hreport : (s.krStatfs sbi desc).1.fBlocks =
      sub64 sbi.sEs.sBlocksCount.toNat (s.updateOverhead sbi).sOverheadLast := rfl
  rw [hreport]
  unfold StatfsSb.blocks
  cases hmode : s.minixDf with
  | true =>
    rw [hmode] at hcached
    rw [hcached.none not_overhead_minixDf, if_pos rfl]
    exact iff_of_true rfl (Or.inl rfl)
  | false =>
    rw [hmode] at hcached
    rw [if_neg Bool.false_ne_true, ← overhead_bsdDf]
    by_cases hover : Overhead sbi (modes ++ [false])
    · rw [hcached.overhead hover, statfsOverhead_eq, sub64_mod]
      exact iff_of_true rfl (Or.inr (Or.inr hover))
    · rw [hcached.none hover, sub64_inj, Nat.zero_mod, eq_comm, ← Nat.dvd_iff_mod_eq_zero]
      simp [hover]

/-- A writable file system of 100 blocks, 7 of them overhead. -/
def statfsSuper : Super :=
  { sState := 0, sRevLevel := 0, sFeatureRoCompat := 0, sMntCount := 5, sMaxMntCount := 20,
    sMountState := 1, options := ⟨0x80010, 0, 0⟩, rdonly := false, mounted := true, log := [] }

def statfsInfo : SbInfo := sbInfoOf smallEnv (smallImage 16) 1024

def statfsStart : StatfsSb := StatfsSb.ofMount statfsSuper 0 0

theorem overhead_statfsInfo : statfsInfo.overhead = 7 := by decide +kernel

/-- The first call under `bsddf` leaves the overhead out. -/
theorem krStatfs_blocks_iff_first :
    (statfsStart.krStatfs statfsInfo fun _ => smallDesc).1.fBlocks = 93 := by
  have hrun : StatfsRun ⟨true, true⟩ ⟨0, 1, 0, 0⟩ statfsInfo statfsStart [] statfsStart := .mount
  rw [(krStatfs_blocks_iff hrun fun _ => smallDesc).mpr (Or.inr (Or.inr ⟨by decide, by decide⟩))]
  decide +kernel

/-- A call under `bsddf`, one under `minixdf` and then one under `bsddf`, which does not
leave it out. -/
theorem krStatfs_stale :
    let remount (data : String) : SuperOp :=
      .remount ⟨false, data.toList, 0, 0, 0, 0, 0, false, 0, 0, false⟩
    ∃ s t₁ t₂, (remount "minixdf").step ⟨true, true⟩ ⟨0, 1, 0, 0⟩ statfsSuper = some t₁ ∧
      (remount "bsddf").step ⟨true, true⟩ ⟨0, 1, 0, 0⟩ t₁ = some t₂ ∧ s.toSuper = t₂ ∧
      StatfsRun ⟨true, true⟩ ⟨0, 1, 0, 0⟩ statfsInfo statfsStart [false, true] s ∧
      s.minixDf = false ∧ (s.krStatfs statfsInfo fun _ => smallDesc).1.fBlocks = 100 ∧
      s.blocks statfsInfo = 93 := by
  intro remount
  have hfirst : (((remount "minixdf").step ⟨true, true⟩ ⟨0, 1, 0, 0⟩ statfsSuper).map
      fun t => (t.mounted, t.options.testOpt .minixDf)) = some (true, true) := by decide +kernel
  have hsecond : ((((remount "minixdf").step ⟨true, true⟩ ⟨0, 1, 0, 0⟩ statfsSuper).bind fun t =>
      (remount "bsddf").step ⟨true, true⟩ ⟨0, 1, 0, 0⟩ t).map
      fun t => (t.mounted, t.options.testOpt .minixDf)) = some (true, false) := by decide +kernel
  obtain ⟨t₁, hstep₁, hmode₁⟩ := Option.map_eq_some_iff.mp hfirst
  rw [hstep₁, Option.bind_some] at hsecond
  obtain ⟨t₂, hstep₂, hmode₂⟩ := Option.map_eq_some_iff.mp hsecond
  rw [Prod.mk.injEq] at hmode₁ hmode₂
  have hstart : StatfsRun ⟨true, true⟩ ⟨0, 1, 0, 0⟩ statfsInfo statfsStart [] statfsStart := .mount
  obtain ⟨s₁, rfl, hminix⟩ := hstart.next (fun _ => smallDesc) hstep₁ hmode₁.1
  obtain ⟨s₂, rfl, hbsd⟩ := hminix.next (fun _ => smallDesc) hstep₂ hmode₂.1
  rw [show s₁.minixDf = true from hmode₁.2] at hbsd
  refine ⟨s₂, _, _, hstep₁, hstep₂, rfl, hbsd, hmode₂.2, ?_, ?_⟩
  · have hcached := hbsd.cached.update
    rw [show s₂.minixDf = false from hmode₂.2] at hcached
    have hzero := hcached.none fun hover => hover.2.2 (by decide)
    exact congrArg (sub64 100) hzero
  · unfold StatfsSb.blocks
    rw [show s₂.minixDf = false from hmode₂.2, overhead_statfsInfo]
    rfl

end KrFs
