import KrFs.NewBlocks
import KrFs.SystemZone
import Mathlib.Algebra.BigOperators.Ring.Finset
import Mathlib.Algebra.Order.BigOperators.Group.Finset

/-!
# The blocks kept for the super-user

`kr_has_free_blocks` compares the free count with `s_r_blocks_count` before an
unprivileged caller allocates. The comparison leaves room for one block; the
allocation then takes as many as were asked for. The reserve holds in every run
whose requests fit above it.
-/

namespace KrFs

open SearchTree Bitmap

/-- The number of free blocks. -/
def Fs.freeBlocks (fs : Fs) : Nat :=
  ∑ g ∈ Finset.range fs.sbi.sGroupsCount, clearCount (fs.blockBitmap g) fs.sbi.sBlocksPerGroup

/-- The size of the reserve. -/
def Fs.rootBlocks (fs : Fs) : Nat := fs.sbi.sEs.sRBlocksCount.toNat

/-- A call of the block allocator. -/
inductive BlockCall where
  | new (env : AllocEnv) (ino fuel goal count : Nat)
  | free (readBitmap : Nat → Bool) (ino block count : Nat)

/-- What a call does: an allocation by a caller without privileges that returns,
or a call that frees data blocks. -/
def BlockCall.Runs (ops : Rebalance Window) (fs fs' : Fs) : BlockCall → Prop
  | .new env ino fuel goal count => env.privileged = false ∧ 1 ≤ count ∧
      ∃ result, krNewBlocks ops env ino fuel fs goal count = .done (fs', result)
  | .free readBitmap ino block count =>
      (∀ g < fs.sbi.sGroupsCount, ∀ b, block ≤ b → b < block + count →
        ¬ SystemBlock fs.sbi (fs.desc g) b) ∧
      fs' = krFreeBlocks readBitmap fs ino block count

/-- The states a run of calls can reach, every one of which meets `ok`. -/
inductive BlockRun (ops : Rebalance Window) (ok : Fs → BlockCall → Prop) : Fs → Fs → Prop
  | nil (fs : Fs) : BlockRun ops ok fs fs
  | snoc {fs fs1 fs2 : Fs} {call : BlockCall} : BlockRun ops ok fs fs1 → ok fs1 call →
      call.Runs ops fs1 fs2 → BlockRun ops ok fs fs2

/-- The request is refused or fits into the free blocks above the reserve. -/
def BlockCall.Fits (fs : Fs) : BlockCall → Prop
  | .new env _ _ _ count => krHasFreeBlocks fs.sbi env = true → fs.rootBlocks + count ≤ fs.freeBlocks
  | .free _ _ _ _ => True

theorem clearCount_setBits {bm : Nat → Bool} {n first num : Nat} (hinside : first + num ≤ n)
    (hclear : ∀ i, first ≤ i → i < first + num → bm i = false) :
    clearCount (setBits bm first num) n + num = clearCount bm n := by
  refine clearCount_run hinside hclear ?_ ?_
  · intro i h1 h2
    simp [setBits, h1, h2]
  · intro i hi
    rw [setBits, ← Bool.decide_and, decide_eq_false hi, Bool.or_false]

theorem clearCount_mono {bm bm' : Nat → Bool} {n : Nat}
    (h : ∀ i < n, bm' i = true → bm i = true) : clearCount bm n ≤ clearCount bm' n := by
  refine Finset.card_le_card fun i hi => ?_
  simp only [Finset.mem_filter, Finset.mem_range] at hi ⊢
  refine ⟨hi.1, ?_⟩
  by_contra hset
  rw [h i hi.1 (by simpa using hset)] at hi
  exact absurd hi.2 (by simp)

section Steps

variable {fs fs' : Fs}

/-- A run that is taken leaves that many fewer blocks. -/
theorem freeBlocks_takeRun (rsv : Rsv) (ino : Nat) {group first num : Nat}
    (hgroup : group < fs.sbi.sGroupsCount) (hinside : first + num ≤ fs.sbi.sBlocksPerGroup)
    (hclear : ∀ i, first ≤ i → i < first + num → fs.blockBitmap group i = false) :
    (fs.takeRun rsv ino group first num).freeBlocks + num = fs.freeBlocks := by
  have hrun : clearCount (setBits (fs.blockBitmap group) first num) fs.sbi.sBlocksPerGroup + num =
      clearCount (fs.blockBitmap group) fs.sbi.sBlocksPerGroup :=
    clearCount_setBits hinside hclear
  have hsum : ∑ g ∈ Finset.range fs.sbi.sGroupsCount, (clearCount
      ((fs.takeRun rsv ino group first num).blockBitmap g) fs.sbi.sBlocksPerGroup : Int) =
      ∑ g ∈ Finset.range fs.sbi.sGroupsCount,
        (clearCount (fs.blockBitmap g) fs.sbi.sBlocksPerGroup : Int) + -(num : Int) :=
    sum_clearCount_of_changed hgroup (fun g hg => by simp [Fs.takeRun, hg])
      (by simp [Fs.takeRun]; omega)
  have hbefore : (fs.freeBlocks : Int) = ∑ g ∈ Finset.range fs.sbi.sGroupsCount,
      (clearCount (fs.blockBitmap g) fs.sbi.sBlocksPerGroup : Int) := by
    simp [Fs.freeBlocks]
  have hafter : ((fs.takeRun rsv ino group first num).freeBlocks : Int) =
      ∑ g ∈ Finset.range fs.sbi.sGroupsCount, (clearCount
        ((fs.takeRun rsv ino group first num).blockBitmap g) fs.sbi.sBlocksPerGroup : Int) := by
    simp only [Fs.freeBlocks, Nat.cast_sum]
    rfl
  omega

/-- The metadata stays marked in use when a run is taken. -/
theorem Fs.SystemSet.takeRun (h : fs.SystemSet) (rsv : Rsv) (ino group first num : Nat) :
    (fs.takeRun rsv ino group first num).SystemSet := by
  have hgrow : ∀ g i, fs.blockBitmap g i = true →
      (fs.takeRun rsv ino group first num).blockBitmap g i = true := by
    intro g i hset
    by_cases hg : g = group
    · subst hg
      simp [Fs.takeRun, setBits, hset]
    · simpa [Fs.takeRun, hg] using hset
  have hsystem : ∀ g b, SystemBlock fs.sbi ((fs.takeRun rsv ino group first num).desc g) b →
      SystemBlock fs.sbi (fs.desc g) b := by
    intro g b hs
    by_cases hg : g = group
    · subst hg
      simp only [Fs.takeRun, Function.update_self, groupAdjustBlocks] at hs
      split at hs
      · exact hs
      · exact hs
    · simpa [Fs.takeRun, hg] using hs
  exact ⟨h.bpg_pos, fun g hg i hi hs => hgrow g i (h.system g hg i hi (hsystem g _ hs)),
    fun g hg i hi hp => hgrow g i (h.padding g hg i hi hp)⟩

/-- Freeing data blocks leaves the metadata marked and no block less free. -/
theorem Fs.SystemSet.free (h : fs.SystemSet)
    (hcovers : fs.sbi.sEs.sBlocksCount.toNat ≤ fs.sbi.sEs.sFirstDataBlock.toNat +
      fs.sbi.sGroupsCount * fs.sbi.sBlocksPerGroup) (readBitmap : Nat → Bool)
    (ino : Nat) {block count : Nat} (hdata : ∀ g < fs.sbi.sGroupsCount, ∀ b, block ≤ b →
      b < block + count → ¬ SystemBlock fs.sbi (fs.desc g) b) :
    (krFreeBlocks readBitmap fs ino block count).SystemSet ∧
      fs.freeBlocks ≤ (krFreeBlocks readBitmap fs ino block count).freeBlocks := by
  have hframe := krFreeBlocks_frame readBitmap fs ino block count
  have hbits := fun g i hi => krFreeBlocks_bits readBitmap ino block count g i h.bpg_pos hcovers hi
  set fs' := krFreeBlocks readBitmap fs ino block count
  have hsbi : fs'.sbi = fs.sbi := hframe.sbi
  have hsystem : ∀ g b, SystemBlock fs'.sbi (fs'.desc g) b → SystemBlock fs.sbi (fs.desc g) b := by
    intro g b hs
    obtain ⟨n, hn⟩ := hframe.desc g
    rw [hsbi, hn] at hs
    exact hs
  refine ⟨⟨by rw [hsbi]; exact h.bpg_pos, ?_, ?_⟩, ?_⟩
  · intro g hg i hi hs
    have hs := hsystem g _ hs
    rw [hsbi] at hg hi hs
    rw [hbits g i hi]
    exact ⟨h.system g hg i hi hs, fun hin => hdata g hg _ hin.2.2.2.1 hin.2.2.2.2 hs⟩
  · intro g hg i hi hp
    rw [hsbi] at hg hi hp
    rw [hbits g i hi]
    exact ⟨h.padding g hg i hi hp, fun hin => by omega⟩
  · unfold Fs.freeBlocks
    rw [hsbi]
    refine Finset.sum_le_sum fun g _ => clearCount_mono fun i hi hset => ?_
    exact ((hbits g i hi).mp hset).1

end Steps

/-- One call that fits keeps the reserve. -/
theorem BlockCall.keeps_reserve {ops : Rebalance Window} {fs fs' : Fs} {call : BlockCall}
    (hcovers : fs.sbi.sEs.sBlocksCount.toNat ≤ fs.sbi.sEs.sFirstDataBlock.toNat +
      fs.sbi.sGroupsCount * fs.sbi.sBlocksPerGroup) (h : fs.SystemSet)
    (hreserve : fs.rootBlocks ≤ fs.freeBlocks) (hfits : call.Fits fs)
    (hruns : call.Runs ops fs fs') :
    fs'.sbi = fs.sbi ∧ fs'.SystemSet ∧ fs'.rootBlocks ≤ fs'.freeBlocks := by
  cases call with
  | new env ino fuel goal count =>
    obtain ⟨-, hcount, result, hcall⟩ := hruns
    have heffect := krNewBlocks_effect ops env ino fuel h hcount hcall
    cases result with
    | error e =>
      have hsame : SameButRsv fs fs' := heffect
      rw [hsame]
      exact ⟨rfl, ⟨h.bpg_pos, h.system, h.padding⟩, hreserve⟩
    | ok val =>
      obtain ⟨block, num⟩ := val
      obtain ⟨group, first, -, hgroup, -, hle, hinside, hclear, heq⟩ := heffect
      have htaken := freeBlocks_takeRun fs'.rsv ino hgroup hinside hclear
      -- blocks are handed out only after the check
      have hroom := hfits (krNewBlocks_hasFreeBlocks ops env ino fuel hcall)
      rw [heq]
      have hroot : (fs.takeRun fs'.rsv ino group first num).rootBlocks = fs.rootBlocks := rfl
      exact ⟨rfl, h.takeRun _ _ _ _ _, by omega⟩
  | free readBitmap ino block count =>
    obtain ⟨hdata, rfl⟩ := hruns
    obtain ⟨hset, hmore⟩ := h.free hcovers readBitmap ino hdata
    have hsbi := (krFreeBlocks_frame readBitmap fs ino block count).sbi
    refine ⟨hsbi, hset, le_trans ?_ hmore⟩
    rw [Fs.rootBlocks, hsbi]
    exact hreserve

/-- In every run of allocations without privileges and of frees, in any order, in
which each request is refused or fits above the reserve, the reserve stays free. -/
theorem blockRun_keeps_reserve {k : MountEnv} {es : SuperBlock} {ops : Rebalance Window}
    {fs fs' : Fs} (accepted : krFillSuper k es = .ok fs.sbi) (h : fs.SystemSet)
    (hreserve : fs.rootBlocks ≤ fs.freeBlocks)
    (run : BlockRun ops (fun fs call => call.Fits fs) fs fs') : fs'.rootBlocks ≤ fs'.freeBlocks := by
  have hcovers := groups_cover accepted
  have hrun : fs'.sbi = fs.sbi ∧ fs'.SystemSet ∧ fs'.rootBlocks ≤ fs'.freeBlocks := by
    induction run with
    | nil => exact ⟨rfl, h, hreserve⟩
    | snoc _ hfits hruns ih =>
      obtain ⟨hsbi, hset, hkept⟩ := ih
      obtain ⟨hsbi', hset', hkept'⟩ :=
        BlockCall.keeps_reserve (by rw [hsbi]; exact hcovers) hset hkept hfits hruns
      exact ⟨hsbi'.trans hsbi, hset', hkept'⟩
  exact hrun.2.2

/-- A read of the free counter that is exact. -/
def BlockCall.ReadsExactly (fs : Fs) : BlockCall → Prop
  | .new env _ _ _ _ => env.freeBlocksRead = fs.freeBlocks
  | .free _ _ _ _ => True

/-- With an exact counter a request for one block always fits or is refused. -/
theorem BlockCall.fits_one {fs : Fs} {env : AllocEnv} {ino fuel goal : Nat}
    (hread : (BlockCall.new env ino fuel goal 1).ReadsExactly fs) (hpriv : env.privileged = false) :
    (BlockCall.new env ino fuel goal 1).Fits fs := by
  intro hhas
  have hread : env.freeBlocksRead = fs.freeBlocks := hread
  simp only [krHasFreeBlocks, hread, hpriv, Bool.not_false, Bool.and_true, Bool.not_eq_true',
    decide_eq_false_iff_not, not_lt] at hhas
  exact hhas

/-- Ten free blocks of which eight are kept. -/
def reserveImage : SuperBlock :=
  { smallImage 16 with
    sBlocksCount := 17
    sBlocksPerGroup := 16
    sFragsPerGroup := 16
    sRBlocksCount := 8 }

theorem krFillSuper_reserveImage :
    krFillSuper smallEnv reserveImage = .ok (sbInfoOf smallEnv reserveImage 1024) := rfl

def reserveFs : Fs where
  sbi := sbInfoOf smallEnv reserveImage 1024
  desc := fun _ => { smallDesc with bgFreeBlocksCount := 10 }
  blockBitmap := fun _ i => decide (i < 6)
  inodeBitmap := fun _ _ => false
  sFreeblocksCounter := 10
  sFreeinodesCounter := 0
  sDirsCounter := 0
  sDebts := fun _ => 0
  inode := fun _ => Inode.blank
  ptr := fun _ _ => 0
  rsv := ⟨.node .head .nil .nil, fun _ => ⟨0, 0, 0, 0⟩⟩

theorem reserveFs_systemSet : reserveFs.SystemSet := by
  refine ⟨by decide, fun g hg i hi hs => ?_, fun g hg i hi hp => ?_⟩
  · have hzero : g = 0 := Nat.lt_one_iff.mp hg
    subst hzero
    have hlow : reserveFs.sbi.groupFirstBlockNo 0 + i = i + 1 := Nat.add_comm _ _
    rw [hlow] at hs
    have hlt : i < 6 := by
      rcases hs with hs | hs | ⟨-, hs⟩
      · have : i + 1 = 3 := hs
        omega
      · have : i + 1 = 4 := hs
        omega
      · have : i + 1 < 7 := hs
        omega
    exact decide_eq_true hlt
  · have hzero : g = 0 := Nat.lt_one_iff.mp hg
    subst hzero
    have hlow : (17 : Nat) ≤ reserveFs.sbi.groupFirstBlockNo 0 + i := hp
    have hhigh : i < 16 := hi
    have hfirst : reserveFs.sbi.groupFirstBlockNo 0 + i = i + 1 := Nat.add_comm _ _
    omega

def reserveEnv : AllocEnv := ⟨none, 10, false, fun _ => true⟩

/-- The reserve and the free blocks after a call that returned. -/
def freeAfter : Exec (Fs × Except Errno (Nat × Nat)) → Option (Nat × Nat)
  | .done (fs, _) => some (fs.rootBlocks, fs.freeBlocks)
  | _ => none

/-- A call with no window, by what it leaves. -/
theorem blockRun_of_freeAfter {count root free : Nat} (ok : Fs → BlockCall → Prop)
    (hcount : 1 ≤ count) (hok : ok reserveFs (.new reserveEnv 12 4 7 count))
    (hleft : freeAfter (krNewBlocks Rebalance.plain reserveEnv 12 4 reserveFs 7 count) =
      some (root, free)) :
    ∃ fs, BlockRun Rebalance.plain ok reserveFs fs ∧ fs.rootBlocks = root ∧
      fs.freeBlocks = free := by
  cases hcall : krNewBlocks Rebalance.plain reserveEnv 12 4 reserveFs 7 count with
  | bug => simp [hcall, freeAfter] at hleft
  | running => simp [hcall, freeAfter] at hleft
  | done res =>
    obtain ⟨fs, result⟩ := res
    refine ⟨fs, .snoc (.nil _) hok ⟨rfl, hcount, result, hcall⟩, ?_⟩
    simpa [hcall, freeAfter] using hleft

theorem freeBlocks_reserveFs : reserveFs.freeBlocks = 10 := by decide +kernel

theorem rootBlocks_le_reserveFs : reserveFs.rootBlocks ≤ reserveFs.freeBlocks := by
  rw [freeBlocks_reserveFs]
  decide

/-- One block can be taken from the ten. -/
theorem blockRun_keeps_reserve_one : ∃ fs,
    BlockRun Rebalance.plain (fun fs call => call.Fits fs) reserveFs fs ∧ fs.freeBlocks = 9 ∧
      fs.rootBlocks ≤ fs.freeBlocks := by
  have hfits : (BlockCall.new reserveEnv 12 4 7 1).Fits reserveFs :=
    BlockCall.fits_one freeBlocks_reserveFs.symm rfl
  have hleft : freeAfter (krNewBlocks Rebalance.plain reserveEnv 12 4 reserveFs 7 1) =
      some (8, 9) := by decide +kernel
  obtain ⟨fs, hrun, -, hfree⟩ :=
    blockRun_of_freeAfter (fun fs call => call.Fits fs) (le_refl 1) hfits hleft
  exact ⟨fs, hrun, hfree, blockRun_keeps_reserve krFillSuper_reserveImage reserveFs_systemSet
    rootBlocks_le_reserveFs hrun⟩

/-- A request for four passes the check and leaves six. -/
theorem krNewBlocks_takes_reserve :
    ¬ ∀ (k : MountEnv) (es : SuperBlock) (ops : Rebalance Window) (fs fs' : Fs),
      krFillSuper k es = .ok fs.sbi → fs.SystemSet → fs.rootBlocks ≤ fs.freeBlocks →
      BlockRun ops (fun fs call => call.ReadsExactly fs) fs fs' →
      fs'.rootBlocks ≤ fs'.freeBlocks := by
  intro h
  have hread : (BlockCall.new reserveEnv 12 4 7 4).ReadsExactly reserveFs :=
    freeBlocks_reserveFs.symm
  have hleft : freeAfter (krNewBlocks Rebalance.plain reserveEnv 12 4 reserveFs 7 4) =
      some (8, 6) := by decide +kernel
  obtain ⟨fs, hrun, hroot, hfree⟩ :=
    blockRun_of_freeAfter (fun fs call => call.ReadsExactly fs) (by decide) hread hleft
  have hkept := h smallEnv reserveImage _ reserveFs fs krFillSuper_reserveImage reserveFs_systemSet
    rootBlocks_le_reserveFs hrun
  omega

end KrFs
