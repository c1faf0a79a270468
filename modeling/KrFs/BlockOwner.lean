import KrFs.Balloc
import Mathlib.Algebra.BigOperators.Group.Finset.Basic
import Mathlib.Data.Multiset.AddSub
import Mathlib.Tactic.Ring

/-!
# Ownership of blocks

What the allocator keeps true: every set bit belongs to a reserved block or to
one block of exactly one inode, and the three counts of free blocks agree with
the bitmaps. `kr_new_blocks` moves a run of blocks into the possession of an
inode and `kr_free_blocks` takes one out; neither touches a block pointer. The
possession is a parameter, so that blocks between allocation and insertion into
a tree are accounted for.
-/

namespace KrFs

open SearchTree Bitmap

/-- The blocks `[block, block + count)`. -/
def blockRun (block count : Nat) : Multiset Nat := (List.range' block count : List Nat)

@[simp] theorem mem_blockRun {b block count : Nat} :
    b ∈ blockRun block count ↔ block ≤ b ∧ b < block + count := by
  simp [blockRun, List.mem_range'_1]

@[simp] theorem card_blockRun (block count : Nat) : (blockRun block count).card = count := by
  simp [blockRun]

theorem nodup_blockRun (block count : Nat) : (blockRun block count).Nodup := by
  simpa [blockRun] using List.nodup_range'

theorem blockRun_add (block m n : Nat) :
    blockRun block (m + n) = blockRun block m + blockRun (block + m) n := by
  simp only [blockRun, Multiset.coe_add, List.range'_append_1]

@[simp] theorem blockRun_zero (block : Nat) : blockRun block 0 = 0 := rfl

theorem blockRun_one (block : Nat) : blockRun block 1 = {block} := rfl

/-- The relations between the geometry fields that block numbers rest on. -/
structure BlockGeometry (sbi : SbInfo) : Prop where
  bpg_pos : 0 < sbi.sBlocksPerGroup
  bpg_lt : sbi.sBlocksPerGroup < 2 ^ 16
  covers : sbi.sEs.sBlocksCount.toNat ≤
    sbi.sEs.sFirstDataBlock.toNat + sbi.sGroupsCount * sbi.sBlocksPerGroup

theorem blockGeometry_of_krFillSuper {k : MountEnv} {es : SuperBlock} {sbi : SbInfo}
    (accepted : krFillSuper k es = .ok sbi) (hsize : sbi.sBlocksize ≤ 4096) :
    BlockGeometry sbi := by
  have hpos := blocksPerGroup_pos_of_krFillSuper accepted
  obtain ⟨hsbi, -, hgeo, -⟩ := krFillSuper_ok accepted
  simp only [geometryOk, Bool.and_eq_true, decide_eq_true_eq] at hgeo
  refine ⟨hpos, by omega, ?_⟩
  have hgroups : sbi.sGroupsCount = sub32 (sub32 sbi.sEs.sBlocksCount.toNat
      sbi.sEs.sFirstDataBlock.toNat) 1 / sbi.sBlocksPerGroup + 1 := by
    rw [hsbi]
    rfl
  rcases Nat.lt_or_ge sbi.sEs.sFirstDataBlock.toNat sbi.sEs.sBlocksCount.toNat with hlt | hge
  · have hb := sbi.sEs.sBlocksCount.toNat_lt
    rw [sub32_of_le hlt.le hb, sub32_of_le (by omega) (by omega)] at hgroups
    have hdiv := Nat.lt_div_mul_add (a := sbi.sEs.sBlocksCount.toNat -
      sbi.sEs.sFirstDataBlock.toNat - 1) hpos
    rw [hgroups, Nat.add_mul, Nat.one_mul]
    omega
  · omega

/-- Every block below `s_blocks_count` is a bit of one group. -/
theorem BlockGeometry.exists_bit {sbi : SbInfo} (g : BlockGeometry sbi) {b : Nat}
    (hlow : sbi.sEs.sFirstDataBlock.toNat ≤ b) (hhigh : b < sbi.sEs.sBlocksCount.toNat) :
    ∃ group bit, group = (b - sbi.sEs.sFirstDataBlock.toNat) / sbi.sBlocksPerGroup ∧
      bit = (b - sbi.sEs.sFirstDataBlock.toNat) % sbi.sBlocksPerGroup ∧
      group < sbi.sGroupsCount ∧ bit < sbi.sBlocksPerGroup ∧
      b = sbi.groupFirstBlockNo group + bit := by
  refine ⟨_, _, rfl, rfl, ?_, Nat.mod_lt _ g.bpg_pos, ?_⟩
  · rw [Nat.div_lt_iff_lt_mul g.bpg_pos]
    have := g.covers
    omega
  · have hdm := Nat.div_add_mod (b - sbi.sEs.sFirstDataBlock.toNat) sbi.sBlocksPerGroup
    unfold SbInfo.groupFirstBlockNo
    rw [Nat.mul_comm] at hdm
    omega

/-- A block number determines its group and bit. -/
theorem BlockGeometry.addr_inj {sbi : SbInfo} (g : BlockGeometry sbi) {g1 g2 i1 i2 : Nat}
    (h1 : i1 < sbi.sBlocksPerGroup) (h2 : i2 < sbi.sBlocksPerGroup)
    (h : sbi.groupFirstBlockNo g1 + i1 = sbi.groupFirstBlockNo g2 + i2) : g1 = g2 ∧ i1 = i2 := by
  unfold SbInfo.groupFirstBlockNo at h
  have hsum : g1 * sbi.sBlocksPerGroup + i1 = g2 * sbi.sBlocksPerGroup + i2 := by omega
  have hg : g1 = g2 := by
    have hd1 : (g1 * sbi.sBlocksPerGroup + i1) / sbi.sBlocksPerGroup = g1 := by
      rw [Nat.mul_comm, Nat.mul_add_div g.bpg_pos, Nat.div_eq_of_lt h1, Nat.add_zero]
    have hd2 : (g2 * sbi.sBlocksPerGroup + i2) / sbi.sBlocksPerGroup = g2 := by
      rw [Nat.mul_comm, Nat.mul_add_div g.bpg_pos, Nat.div_eq_of_lt h2, Nat.add_zero]
    rw [← hd1, hsum, hd2]
  subst hg
  exact ⟨rfl, by omega⟩

/-- The bitmaps and the inode table of a group. -/
def SystemBlock (sbi : SbInfo) (desc : GroupDesc) (b : Nat) : Prop :=
  b = desc.bgBlockBitmap.toNat ∨ b = desc.bgInodeBitmap.toNat ∨
    (desc.bgInodeTable.toNat ≤ b ∧ b < desc.bgInodeTable.toNat + sbi.sItbPerGroup)

/-- The blocks in use are the reserved ones and those the inodes possess, each
of these by one inode and once, and every count agrees. `extra` are sectors an
inode is charged for beyond its own blocks. -/
structure Fs.Owned (fs : Fs) (reserved : Nat → Prop) (owned : Nat → Multiset Nat)
    (extra : Nat → Int) : Prop where
  geometry : BlockGeometry fs.sbi
  freeCount : ∀ g < fs.sbi.sGroupsCount, (fs.desc g).bgFreeBlocksCount.toNat =
    clearCount (fs.blockBitmap g) fs.sbi.sBlocksPerGroup
  counter : fs.sFreeblocksCounter = ∑ g ∈ Finset.range fs.sbi.sGroupsCount,
    (clearCount (fs.blockBitmap g) fs.sbi.sBlocksPerGroup : Int)
  bit_iff : ∀ g < fs.sbi.sGroupsCount, ∀ i < fs.sbi.sBlocksPerGroup,
    (fs.blockBitmap g i = true ↔ reserved (fs.sbi.groupFirstBlockNo g + i) ∨
      ∃ ino, fs.sbi.groupFirstBlockNo g + i ∈ owned ino)
  in_zone : ∀ ino, ∀ b ∈ owned ino, fs.sbi.sEs.sFirstDataBlock.toNat ≤ b ∧
    b < fs.sbi.sEs.sBlocksCount.toNat ∧ ¬ reserved b
  nodup : ∀ ino, (owned ino).Nodup
  disjoint : ∀ i j, i ≠ j → Disjoint (owned i) (owned j)
  iBlocks : ∀ ino, (fs.inode ino).iBlocks =
    extra ino + (owned ino).card * (fs.sectorsPerBlock : Int)
  system : ∀ g < fs.sbi.sGroupsCount, ∀ b, SystemBlock fs.sbi (fs.desc g) b → reserved b
  padding : ∀ b, fs.sbi.sEs.sBlocksCount.toNat ≤ b → reserved b

/-- What allocating and freeing blocks leaves alone. -/
structure Fs.BlockFrame (fs fs' : Fs) : Prop where
  sbi : fs'.sbi = fs.sbi
  inodeBitmap : fs'.inodeBitmap = fs.inodeBitmap
  sFreeinodesCounter : fs'.sFreeinodesCounter = fs.sFreeinodesCounter
  sDirsCounter : fs'.sDirsCounter = fs.sDirsCounter
  sDebts : fs'.sDebts = fs.sDebts
  ptr : fs'.ptr = fs.ptr
  inode : ∀ i, ∃ n, fs'.inode i = { fs.inode i with iBlocks := n }
  desc : ∀ g, ∃ n, fs'.desc g = { fs.desc g with bgFreeBlocksCount := n }

theorem Fs.BlockFrame.refl (fs : Fs) : fs.BlockFrame fs :=
  ⟨rfl, rfl, rfl, rfl, rfl, rfl, fun i => ⟨(fs.inode i).iBlocks, rfl⟩,
    fun g => ⟨(fs.desc g).bgFreeBlocksCount, rfl⟩⟩

theorem Fs.BlockFrame.trans {a b c : Fs} (h1 : a.BlockFrame b) (h2 : b.BlockFrame c) :
    a.BlockFrame c := by
  refine ⟨h2.sbi.trans h1.sbi, h2.inodeBitmap.trans h1.inodeBitmap,
    h2.sFreeinodesCounter.trans h1.sFreeinodesCounter, h2.sDirsCounter.trans h1.sDirsCounter,
    h2.sDebts.trans h1.sDebts, h2.ptr.trans h1.ptr, fun i => ?_, fun g => ?_⟩
  · obtain ⟨n, hn⟩ := h1.inode i
    obtain ⟨n', hn'⟩ := h2.inode i
    exact ⟨n', by rw [hn', hn]⟩
  · obtain ⟨n, hn⟩ := h1.desc g
    obtain ⟨n', hn'⟩ := h2.desc g
    exact ⟨n', by rw [hn', hn]⟩

theorem Inode.addSectors_iBlocks (inode : Inode) (n : Int) :
    (inode.addSectors n).iBlocks = inode.iBlocks + n := rfl

theorem Inode.addSectors_addSectors (inode : Inode) (m n : Int) :
    (inode.addSectors m).addSectors n = inode.addSectors (m + n) := by
  simp [Inode.addSectors, Int.add_assoc]

theorem Inode.addSectors_zero (inode : Inode) : inode.addSectors 0 = inode := by
  simp [Inode.addSectors]

theorem chargeBlocks_inode (fs : Fs) (ino : Nat) (n : Int) (i : Nat) :
    (fs.chargeBlocks ino n).inode i =
      (fs.inode i).addSectors (if i = ino then n * fs.sectorsPerBlock else 0) := by
  by_cases hi : i = ino
  · subst hi
    simp [Fs.chargeBlocks]
  · simp [Fs.chargeBlocks, hi, Inode.addSectors_zero]

theorem settleFreed_inode (fs : Fs) (ino freed i : Nat) :
    (fs.settleFreed ino freed).inode i =
      (fs.inode i).addSectors (if i = ino then -(freed : Int) * fs.sectorsPerBlock else 0) :=
  chargeBlocks_inode _ _ _ _

/-! ## Moving a run of blocks -/

section Exchange

variable {fs fs' : Fs} {reserved : Nat → Prop} {owned : Nat → Multiset Nat} {extra : Nat → Int}
  {group bit count ino : Nat}

/-- The bit of a block is set exactly when the block is in use. -/
theorem Fs.Owned.bit_of_mem (h : fs.Owned reserved owned extra) {g i : Nat}
    (hi : i < fs.sbi.sBlocksPerGroup) (hg : g < fs.sbi.sGroupsCount)
    (hmem : fs.sbi.groupFirstBlockNo g + i ∈ owned ino) : fs.blockBitmap g i = true :=
  (h.bit_iff g hg i hi).mpr (Or.inr ⟨ino, hmem⟩)

/-- The run of bits of one group that a transfer changes. -/
def InRun (group bit count g i : Nat) : Prop := g = group ∧ bit ≤ i ∧ i < bit + count

instance (group bit count g i : Nat) : Decidable (InRun group bit count g i) :=
  inferInstanceAs (Decidable (_ ∧ _ ∧ _))

theorem inRun_iff_mem (geo : BlockGeometry fs.sbi) (group : Nat)
    (hbit : bit + count ≤ fs.sbi.sBlocksPerGroup) (g : Nat) {i : Nat}
    (hi : i < fs.sbi.sBlocksPerGroup) :
    InRun group bit count g i ↔
      fs.sbi.groupFirstBlockNo g + i ∈ blockRun (fs.sbi.groupFirstBlockNo group + bit) count := by
  rw [mem_blockRun]
  constructor
  · rintro ⟨rfl, h1, h2⟩
    omega
  · rintro ⟨h1, h2⟩
    have hsame : fs.sbi.groupFirstBlockNo g + i = fs.sbi.groupFirstBlockNo group +
        (fs.sbi.groupFirstBlockNo g + i - fs.sbi.groupFirstBlockNo group) := by omega
    obtain ⟨rfl, hi'⟩ := geo.addr_inj hi (by omega) hsame
    exact ⟨rfl, by omega, by omega⟩

theorem sum_changed (f f' : Nat → Nat) {n i : Nat} (hi : i < n)
    (hsame : ∀ j, j ≠ i → f' j = f j) :
    ∑ j ∈ Finset.range n, (f' j : Int) + f i = ∑ j ∈ Finset.range n, (f j : Int) + f' i := by
  have hmem : i ∈ Finset.range n := Finset.mem_range.mpr hi
  have hrest : ∑ j ∈ (Finset.range n).erase i, (f' j : Int) =
      ∑ j ∈ (Finset.range n).erase i, (f j : Int) :=
    Finset.sum_congr rfl fun j hj => by rw [hsame j (Finset.ne_of_mem_erase hj)]
  rw [← Finset.add_sum_erase _ _ hmem, ← Finset.add_sum_erase _ _ hmem, hrest]
  omega

/-- The sum of the clear bits when one bitmap changes. -/
theorem sum_clearCount_of_changed {bms bms' : Nat → Nat → Bool} {groups n : Nat} {d : Int}
    (hgroup : group < groups) (hother : ∀ g, g ≠ group → bms' g = bms g)
    (hchange : (clearCount (bms' group) n : Int) = clearCount (bms group) n + d) :
    ∑ g ∈ Finset.range groups, (clearCount (bms' g) n : Int) =
      ∑ g ∈ Finset.range groups, (clearCount (bms g) n : Int) + d := by
  have hsum := sum_changed (fun g => clearCount (bms g) n) (fun g => clearCount (bms' g) n) hgroup
    fun g hg => by rw [hother g hg]
  omega

/-- A run of blocks leaves the possession of an inode. -/
theorem Fs.Owned.release (h : fs.Owned reserved owned extra) (hframe : fs.BlockFrame fs')
    (hgroup : group < fs.sbi.sGroupsCount) (hbit : bit + count ≤ fs.sbi.sBlocksPerGroup)
    (hrun : blockRun (fs.sbi.groupFirstBlockNo group + bit) count ≤ owned ino)
    (hbits : ∀ g i, fs'.blockBitmap g i =
      if InRun group bit count g i then false else fs.blockBitmap g i)
    (hdesc : ∀ g < fs.sbi.sGroupsCount, (fs'.desc g).bgFreeBlocksCount.toNat =
      (fs.desc g).bgFreeBlocksCount.toNat + if g = group then count else 0)
    (hcounter : fs'.sFreeblocksCounter = fs.sFreeblocksCounter + count)
    (hiBlocks : ∀ i, (fs'.inode i).iBlocks = (fs.inode i).iBlocks -
      if i = ino then (count : Int) * fs.sectorsPerBlock else 0) :
    fs'.Owned reserved (Function.update owned ino
      (owned ino - blockRun (fs.sbi.groupFirstBlockNo group + bit) count)) extra := by
  have geo := h.geometry
  have hsbi := hframe.sbi
  have hspb : fs'.sectorsPerBlock = fs.sectorsPerBlock := by simp [Fs.sectorsPerBlock, hsbi]
  have hsub : ∀ b, b ∈ Function.update owned ino
      (owned ino - blockRun (fs.sbi.groupFirstBlockNo group + bit) count) ino ↔
      b ∈ owned ino ∧ b ∉ blockRun (fs.sbi.groupFirstBlockNo group + bit) count := by
    intro b
    rw [Function.update_self, Multiset.mem_sub_of_nodup (h.nodup ino)]
  have hsubset : ∀ i, Function.update owned ino
      (owned ino - blockRun (fs.sbi.groupFirstBlockNo group + bit) count) i ≤ owned i := by
    intro i
    by_cases hi : i = ino
    · subst hi
      rw [Function.update_self]
      exact Multiset.sub_le_self _ _
    · simp [hi]
  have hclear : clearCount (fs'.blockBitmap group) fs.sbi.sBlocksPerGroup =
      clearCount (fs.blockBitmap group) fs.sbi.sBlocksPerGroup + count := by
    refine (clearCount_run hbit ?_ ?_ ?_).symm
    · intro i h1 h2
      simp [hbits, InRun, h1, h2]
    · intro i h1 h2
      refine h.bit_of_mem (by omega) hgroup (Multiset.mem_of_le hrun ?_)
      simp [mem_blockRun]
      omega
    · intro i hi
      simp [hbits, InRun, hi]
  have hother : ∀ g, g ≠ group → fs'.blockBitmap g = fs.blockBitmap g := by
    intro g hg
    funext i
    simp [hbits, InRun, hg]
  refine ⟨by rw [hsbi]; exact geo, ?_, ?_, ?_, ?_, ?_, ?_, ?_, ?_, ?_⟩
  · intro g hg
    rw [hsbi] at hg ⊢
    rw [hdesc g hg, h.freeCount g hg]
    by_cases hgg : g = group
    · subst hgg
      simp [hclear]
    · simp [hgg, hother g hgg]
  · rw [hcounter, h.counter, hsbi, sum_clearCount_of_changed hgroup hother]
    rw [hclear]
    push_cast
    rfl
  · intro g hg i hi
    rw [hsbi] at hg hi ⊢
    rw [hbits]
    by_cases hin : InRun group bit count g i
    · have hmem := (inRun_iff_mem geo group hbit g hi).mp hin
      have hown := Multiset.mem_of_le hrun hmem
      have hres := (h.in_zone ino _ hown).2.2
      simp only [hin, if_true, Bool.false_eq_true, false_iff, not_or, not_exists]
      refine ⟨hres, fun j hj => ?_⟩
      by_cases hji : j = ino
      · subst hji
        exact ((hsub _).mp hj).2 hmem
      · rw [Function.update_of_ne hji] at hj
        exact Multiset.disjoint_left.mp (h.disjoint j ino hji) hj hown
    · have hnot : fs.sbi.groupFirstBlockNo g + i ∉
          blockRun (fs.sbi.groupFirstBlockNo group + bit) count :=
        fun hmem => hin ((inRun_iff_mem geo group hbit g hi).mpr hmem)
      simp only [hin, if_false]
      rw [h.bit_iff g hg i hi]
      refine or_congr Iff.rfl (exists_congr fun j => ?_)
      by_cases hji : j = ino
      · subst hji
        rw [hsub]
        simp [hnot]
      · rw [Function.update_of_ne hji]
  · intro i b hb
    rw [hsbi]
    exact h.in_zone i b (Multiset.mem_of_le (hsubset i) hb)
  · intro i
    exact Multiset.nodup_of_le (hsubset i) (h.nodup i)
  · intro i j hij
    exact (h.disjoint i j hij).mono (hsubset i) (hsubset j)
  · intro i
    rw [hiBlocks, h.iBlocks, hspb]
    by_cases hi : i = ino
    · subst hi
      have hcard : (owned i - blockRun (fs.sbi.groupFirstBlockNo group + bit) count).card +
          count = (owned i).card := by
        have := Multiset.card_sub hrun
        have := Multiset.card_le_card hrun
        rw [card_blockRun] at *
        omega
      simp only [if_true, Function.update_self, ← hcard]
      push_cast
      ring
    · simp [hi]
  · intro g hg b hb
    rw [hsbi] at hg
    obtain ⟨n, hn⟩ := hframe.desc g
    refine h.system g hg b ?_
    simpa [SystemBlock, hn, hsbi] using hb
  · intro b hb
    rw [hsbi] at hb
    exact h.padding b hb

/-- A run of free blocks comes into the possession of an inode. -/
theorem Fs.Owned.claim (h : fs.Owned reserved owned extra) (hframe : fs.BlockFrame fs')
    (hgroup : group < fs.sbi.sGroupsCount) (hbit : bit + count ≤ fs.sbi.sBlocksPerGroup)
    (hfree : ∀ i, bit ≤ i → i < bit + count → fs.blockBitmap group i = false)
    (hbits : ∀ g i, fs'.blockBitmap g i =
      if InRun group bit count g i then true else fs.blockBitmap g i)
    (hdesc : ∀ g < fs.sbi.sGroupsCount, (fs'.desc g).bgFreeBlocksCount.toNat +
      (if g = group then count else 0) = (fs.desc g).bgFreeBlocksCount.toNat)
    (hcounter : fs'.sFreeblocksCounter = fs.sFreeblocksCounter - count)
    (hiBlocks : ∀ i, (fs'.inode i).iBlocks = (fs.inode i).iBlocks +
      if i = ino then (count : Int) * fs.sectorsPerBlock else 0) :
    fs'.Owned reserved (Function.update owned ino
      (owned ino + blockRun (fs.sbi.groupFirstBlockNo group + bit) count)) extra := by
  have geo := h.geometry
  have hsbi := hframe.sbi
  have hspb : fs'.sectorsPerBlock = fs.sectorsPerBlock := by simp [Fs.sectorsPerBlock, hsbi]
  have hnew : ∀ b ∈ blockRun (fs.sbi.groupFirstBlockNo group + bit) count,
      ¬ reserved b ∧ ∀ i, b ∉ owned i := by
    intro b hb
    obtain ⟨h1, h2⟩ := mem_blockRun.mp hb
    have hclear := hfree (b - fs.sbi.groupFirstBlockNo group) (by omega) (by omega)
    have hiff := h.bit_iff group hgroup (b - fs.sbi.groupFirstBlockNo group) (by omega)
    rw [hclear, Nat.add_sub_cancel' (by omega)] at hiff
    simpa using hiff
  have hclear : clearCount (fs'.blockBitmap group) fs.sbi.sBlocksPerGroup + count =
      clearCount (fs.blockBitmap group) fs.sbi.sBlocksPerGroup := by
    refine clearCount_run hbit hfree ?_ ?_
    · intro i h1 h2
      simp [hbits, InRun, h1, h2]
    · intro i hi
      simp [hbits, InRun, hi]
  have hother : ∀ g, g ≠ group → fs'.blockBitmap g = fs.blockBitmap g := by
    intro g hg
    funext i
    simp [hbits, InRun, hg]
  have hmem : ∀ i b, b ∈ Function.update owned ino
      (owned ino + blockRun (fs.sbi.groupFirstBlockNo group + bit) count) i ↔
      b ∈ owned i ∨ (i = ino ∧ b ∈ blockRun (fs.sbi.groupFirstBlockNo group + bit) count) := by
    intro i b
    by_cases hi : i = ino
    · subst hi
      simp
    · simp [hi]
  refine ⟨by rw [hsbi]; exact geo, ?_, ?_, ?_, ?_, ?_, ?_, ?_, ?_, ?_⟩
  · intro g hg
    rw [hsbi] at hg ⊢
    have hd := hdesc g hg
    rw [h.freeCount g hg] at hd
    by_cases hgg : g = group
    · subst hgg
      rw [if_pos rfl] at hd
      omega
    · rw [if_neg hgg] at hd
      rw [hother g hgg]
      exact hd
  · rw [hcounter, h.counter, hsbi, sum_clearCount_of_changed (d := -count) hgroup hother]
    · omega
    · omega
  · intro g hg i hi
    rw [hsbi] at hg hi ⊢
    rw [hbits]
    have hrun := inRun_iff_mem geo group hbit g hi
    by_cases hin : InRun group bit count g i
    · simp only [hin, if_true, true_iff]
      exact Or.inr ⟨ino, (hmem _ _).mpr (Or.inr ⟨rfl, hrun.mp hin⟩)⟩
    · simp only [hin, if_false]
      rw [h.bit_iff g hg i hi]
      refine or_congr Iff.rfl (exists_congr fun j => ?_)
      rw [hmem]
      simp [← hrun, hin]
  · intro i b hb
    rw [hsbi]
    rcases (hmem i b).mp hb with hb | ⟨-, hb⟩
    · exact h.in_zone i b hb
    · obtain ⟨hres, -⟩ := hnew b hb
      refine ⟨?_, ?_, hres⟩
      · have := (mem_blockRun.mp hb).1
        unfold SbInfo.groupFirstBlockNo at this
        omega
      · by_contra hge
        exact hres (h.padding b (by omega))
  · intro i
    by_cases hi : i = ino
    · subst hi
      rw [Function.update_self, Multiset.nodup_add]
      refine ⟨h.nodup i, nodup_blockRun _ _, ?_⟩
      rw [Multiset.disjoint_left]
      intro b hb hb'
      exact (hnew b hb').2 i hb
    · rw [Function.update_of_ne hi]
      exact h.nodup i
  · intro i j hij
    rw [Multiset.disjoint_left]
    intro b hb hb'
    rcases (hmem i b).mp hb with hb | ⟨hi, hb⟩ <;> rcases (hmem j b).mp hb' with hb' | ⟨hj, hb'⟩
    · exact Multiset.disjoint_left.mp (h.disjoint i j hij) hb hb'
    · exact (hnew b hb').2 i hb
    · exact (hnew b hb).2 j hb'
    · exact hij (hi.trans hj.symm)
  · intro i
    rw [hiBlocks, h.iBlocks, hspb]
    by_cases hi : i = ino
    · subst hi
      simp only [if_true, Function.update_self, Multiset.card_add, card_blockRun]
      push_cast
      ring
    · simp [hi]
  · intro g hg b hb
    rw [hsbi] at hg
    obtain ⟨n, hn⟩ := hframe.desc g
    refine h.system g hg b ?_
    simpa [SystemBlock, hn, hsbi] using hb
  · intro b hb
    rw [hsbi] at hb
    exact h.padding b hb

/-- Ownership looks at the bitmaps, the counts and `i_blocks` only. -/
theorem Fs.Owned.of_same (h : fs.Owned reserved owned extra) (hsbi : fs'.sbi = fs.sbi)
    (hdesc : fs'.desc = fs.desc) (hbits : fs'.blockBitmap = fs.blockBitmap)
    (hcounter : fs'.sFreeblocksCounter = fs.sFreeblocksCounter)
    (hiBlocks : ∀ i, (fs'.inode i).iBlocks = (fs.inode i).iBlocks) :
    fs'.Owned reserved owned extra := by
  have hspb : fs'.sectorsPerBlock = fs.sectorsPerBlock := by simp [Fs.sectorsPerBlock, hsbi]
  refine ⟨by rw [hsbi]; exact h.geometry, ?_, ?_, ?_, ?_, h.nodup, h.disjoint, ?_, ?_, ?_⟩
  · simpa only [hsbi, hdesc, hbits] using h.freeCount
  · simpa only [hsbi, hcounter, hbits] using h.counter
  · simpa only [hsbi, hbits] using h.bit_iff
  · simpa only [hsbi] using h.in_zone
  · intro i
    rw [hiBlocks, hspb]
    exact h.iBlocks i
  · simpa only [hsbi, hdesc] using h.system
  · simpa only [hsbi] using h.padding

end Exchange

/-! ## `kr_free_blocks` -/

theorem cpuToLe16_toNat {n : Int} (h0 : 0 ≤ n) (h : n < 2 ^ 16) :
    (cpuToLe16 n).toNat = n.toNat := by
  rw [cpuToLe16, UInt16.toNat_ofNat', Int.emod_eq_of_lt h0 h]
  omega

theorem groupAdjustBlocks_toNat (desc : GroupDesc) (count : Int)
    (h0 : 0 ≤ desc.bgFreeBlocksCount.toNat + count)
    (h : desc.bgFreeBlocksCount.toNat + count < 2 ^ 16) :
    ((groupAdjustBlocks desc count).bgFreeBlocksCount.toNat : Int) =
      desc.bgFreeBlocksCount.toNat + count := by
  unfold groupAdjustBlocks
  split
  · omega
  · rw [cpuToLe16_toNat h0 h]
    omega

/-- When every bit of the run is set, all of them are cleared. -/
theorem clearBits_of_set {bm : Nat → Bool} {bit : Nat} (n : Nat)
    (hset : ∀ i, bit ≤ i → i < bit + n → bm i = true) :
    clearBits bm bit n = (fun i => if bit ≤ i ∧ i < bit + n then false else bm i, n) := by
  induction n with
  | zero =>
    simp only [clearBits, Prod.mk.injEq, and_true]
    funext i
    rw [if_neg (by omega)]
  | succ n ih =>
    rw [clearBits, ih fun i h1 h2 => hset i h1 (by omega)]
    have hlast : bm (bit + n) = true := hset _ (by omega) (by omega)
    simp only [hlast, Nat.le_add_right, Nat.lt_irrefl, and_false, if_false, if_true,
      Prod.mk.injEq, and_true]
    funext i
    by_cases hi : i = bit + n
    · simp [hi]
    · rw [Function.update_of_ne hi]
      by_cases hr : bit ≤ i ∧ i < bit + n
      · rw [if_pos hr, if_pos (by omega)]
      · rw [if_neg hr, if_neg (by omega)]

section Free

variable {fs : Fs} {reserved : Nat → Prop} {owned : Nat → Multiset Nat} {extra : Nat → Int}
  {ino : Nat}

theorem Fs.settleFreed_zero (fs : Fs) (ino : Nat) : fs.settleFreed ino 0 = fs := by
  simp [Fs.settleFreed, Fs.chargeBlocks, Inode.addSectors_zero]

/-- A range without a system block of the group passes the test. -/
theorem inSystemZone_eq_false {sbi : SbInfo} {desc : GroupDesc} {block count : Nat}
    (hcount : 0 < count)
    (out : ∀ b, block ≤ b → b < block + count → ¬ SystemBlock sbi desc b) :
    inSystemZone sbi desc block count = false := by
  by_contra hzone
  rw [Bool.not_eq_false] at hzone
  simp only [inSystemZone, inRange, Bool.or_eq_true, Bool.and_eq_true, decide_eq_true_eq]
    at hzone
  rcases hzone with ((⟨h1, h2⟩ | ⟨h1, h2⟩) | ⟨h1, h2⟩) | ⟨h1, h2⟩
  · exact out _ h1 h2 (Or.inl rfl)
  · exact out _ h1 h2 (Or.inr (Or.inl rfl))
  · exact out block (le_refl _) (by omega) (Or.inr (Or.inr ⟨h1, h2⟩))
  · exact out (block + count - 1) (by omega) (by omega) (Or.inr (Or.inr ⟨h1, h2⟩))

/-- The blocks an inode possesses are not in the system zone of a group. -/
theorem Fs.Owned.not_inSystemZone (h : fs.Owned reserved owned extra) {group block count : Nat}
    (hgroup : group < fs.sbi.sGroupsCount) (hcount : 0 < count)
    (hfree : ∀ b, block ≤ b → b < block + count → ¬ reserved b) :
    inSystemZone fs.sbi (fs.desc group) block count = false :=
  inSystemZone_eq_false hcount fun b h1 h2 hs => hfree b h1 h2 (h.system group hgroup b hs)

/-- Freeing in a group touches its bitmap and its count only. -/
theorem freeInGroup_frame (fs : Fs) (group bit count : Nat) :
    fs.BlockFrame (freeInGroup fs group bit count).1 := by
  refine ⟨rfl, rfl, rfl, rfl, rfl, rfl, fun i => ⟨_, rfl⟩, fun g => ?_⟩
  by_cases hg : g = group
  · subst hg
    simp only [freeInGroup, Function.update_self, groupAdjustBlocks]
    split
    · exact ⟨_, rfl⟩
    · exact ⟨_, rfl⟩
  · exact ⟨(fs.desc g).bgFreeBlocksCount, by simp only [freeInGroup, Function.update_of_ne hg]⟩

theorem freeBlocksLoop_frame (readBitmap : Nat → Bool) (fuel : Nat) :
    ∀ (fs : Fs) (block count freed : Nat),
    fs.BlockFrame (freeBlocksLoop readBitmap fuel fs block count freed).1 ∧
      (freeBlocksLoop readBitmap fuel fs block count freed).1.inode = fs.inode := by
  induction fuel with
  | zero => exact fun fs _ _ _ => ⟨Fs.BlockFrame.refl fs, rfl⟩
  | succ fuel ih =>
    intro fs block count freed
    unfold freeBlocksLoop
    dsimp only
    generalize (if fs.sbi.sBlocksPerGroup < (block - fs.sbi.sEs.sFirstDataBlock.toNat) %
      fs.sbi.sBlocksPerGroup + count then (block - fs.sbi.sEs.sFirstDataBlock.toNat) %
      fs.sbi.sBlocksPerGroup + count - fs.sbi.sBlocksPerGroup else 0) = beyond
    split
    · exact ⟨Fs.BlockFrame.refl fs, rfl⟩
    split
    · exact ⟨Fs.BlockFrame.refl fs, rfl⟩
    split
    · exact ⟨Fs.BlockFrame.refl fs, rfl⟩
    split
    · obtain ⟨hframe, hinode⟩ := ih (freeInGroup fs _ _ (count - beyond)).1 _ _ _
      exact ⟨(freeInGroup_frame fs _ _ _).trans hframe, hinode⟩
    · exact ⟨freeInGroup_frame fs _ _ _, rfl⟩

/-- What `kr_free_blocks` leaves alone, in any state. -/
theorem krFreeBlocks_frame (readBitmap : Nat → Bool) (fs : Fs) (ino block count : Nat) :
    fs.BlockFrame (krFreeBlocks readBitmap fs ino block count) := by
  unfold krFreeBlocks
  split
  · exact Fs.BlockFrame.refl fs
  · obtain ⟨hframe, hinode⟩ := freeBlocksLoop_frame readBitmap (count + 1) fs block count 0
    generalize freeBlocksLoop readBitmap (count + 1) fs block count 0 = res at hframe hinode
    obtain ⟨fs1, freed⟩ := res
    dsimp only at hframe hinode ⊢
    split
    · refine ⟨hframe.sbi, hframe.inodeBitmap, hframe.sFreeinodesCounter, hframe.sDirsCounter,
        hframe.sDebts, hframe.ptr, fun i => ?_, hframe.desc⟩
      exact ⟨_, by rw [settleFreed_inode, hinode]; rfl⟩
    · exact hframe

/-- One round of `do_more`, while the counter and the refund are still due. -/
theorem freeInGroup_owned {freed group bit count : Nat}
    (h : (fs.settleFreed ino freed).Owned reserved owned extra)
    (hgroup : group < fs.sbi.sGroupsCount) (hbit : bit + count ≤ fs.sbi.sBlocksPerGroup)
    (hrun : blockRun (fs.sbi.groupFirstBlockNo group + bit) count ≤ owned ino) :
    (freeInGroup fs group bit count).2 = count ∧
      fs.BlockFrame (freeInGroup fs group bit count).1 ∧
      (freeInGroup fs group bit count).1.inode = fs.inode ∧
      (freeInGroup fs group bit count).1.rsv = fs.rsv ∧
      ((freeInGroup fs group bit count).1.settleFreed ino (freed + count)).Owned reserved
        (Function.update owned ino
          (owned ino - blockRun (fs.sbi.groupFirstBlockNo group + bit) count)) extra := by
  have hset : ∀ i, bit ≤ i → i < bit + count → fs.blockBitmap group i = true := by
    intro i h1 h2
    refine h.bit_of_mem (show i < fs.sbi.sBlocksPerGroup by omega) hgroup
      (Multiset.mem_of_le hrun ?_)
    rw [mem_blockRun]
    exact ⟨Nat.add_le_add_left h1 _, by simp only [Fs.settleFreed, Fs.chargeBlocks]; omega⟩
  have hclear := clearBits_of_set count hset
  have hframe := freeInGroup_frame fs group bit count
  refine ⟨by simp [freeInGroup, hclear], hframe, rfl, rfl, ?_⟩
  have hcharge : ∀ i, ((freeInGroup fs group bit count).1.settleFreed ino (freed + count)).inode i =
      ((fs.settleFreed ino freed).inode i).addSectors
        (if i = ino then -(count : Int) * fs.sectorsPerBlock else 0) := by
    intro i
    have hspb : (freeInGroup fs group bit count).1.sectorsPerBlock = fs.sectorsPerBlock := rfl
    have hinode : (freeInGroup fs group bit count).1.inode = fs.inode := rfl
    rw [settleFreed_inode, settleFreed_inode, Inode.addSectors_addSectors, hspb, hinode]
    by_cases hi : i = ino
    · simp only [if_pos hi]
      push_cast
      congr 1
      ring
    · simp only [if_neg hi, Int.add_zero]
  refine h.release ⟨rfl, rfl, rfl, rfl, rfl, rfl, ?_, hframe.desc⟩ hgroup hbit hrun ?_ ?_ ?_ ?_
  · intro i
    exact ⟨_, hcharge i⟩
  · intro g i
    by_cases hg : g = group
    · subst hg
      simp [Fs.settleFreed, Fs.chargeBlocks, freeInGroup, hclear, InRun]
    · simp [Fs.settleFreed, Fs.chargeBlocks, freeInGroup, InRun, hg]
  · intro g hg
    have hcount := h.freeCount g hg
    by_cases hgg : g = group
    · subst hgg
      -- the freed bits are part of the group, so the 16-bit count cannot wrap
      have hroom := clearCount_add_le hbit hset
      have hlt : fs.sbi.sBlocksPerGroup < 2 ^ 16 := h.geometry.bpg_lt
      have hold' : (fs.desc g).bgFreeBlocksCount.toNat =
        clearCount (fs.blockBitmap g) fs.sbi.sBlocksPerGroup := hcount
      have hadjust := groupAdjustBlocks_toNat (fs.desc g) count (by omega) (by omega)
      simp only [Fs.settleFreed, Fs.chargeBlocks, freeInGroup, hclear, Function.update_self,
        if_true]
      omega
    · simp [Fs.settleFreed, Fs.chargeBlocks, freeInGroup, hgg]
  · simp only [Fs.settleFreed, Fs.chargeBlocks, freeInGroup]
    push_cast
    omega
  · intro i
    rw [hcharge, Inode.addSectors_iBlocks]
    by_cases hi : i = ino
    · rw [if_pos hi, if_pos hi, Int.neg_mul]
      rfl
    · rw [if_neg hi, if_neg hi]
      omega

/-- The rounds of `do_more` free exactly the run, group by group. -/
theorem freeBlocksLoop_owned (readBitmap : Nat → Bool) (hread : ∀ g, readBitmap g = true)
    (fuel : Nat) : ∀ {fs : Fs} {owned : Nat → Multiset Nat} {block count freed : Nat},
    (fs.settleFreed ino freed).Owned reserved owned extra → 0 < count → count < fuel →
    blockRun block count ≤ owned ino →
    fs.BlockFrame (freeBlocksLoop readBitmap fuel fs block count freed).1 ∧
      (freeBlocksLoop readBitmap fuel fs block count freed).1.inode = fs.inode ∧
      (freeBlocksLoop readBitmap fuel fs block count freed).1.rsv = fs.rsv ∧
      (freeBlocksLoop readBitmap fuel fs block count freed).2 = freed + count ∧
      ((freeBlocksLoop readBitmap fuel fs block count freed).1.settleFreed ino
        (freed + count)).Owned reserved
          (Function.update owned ino (owned ino - blockRun block count)) extra := by
  induction fuel with
  | zero => omega
  | succ fuel ih =>
    intro fs owned block count freed h hcount hfuel hrun
    have hmem : ∀ b, block ≤ b → b < block + count → b ∈ owned ino := fun b h1 h2 =>
      Multiset.mem_of_le hrun (mem_blockRun.mpr ⟨h1, h2⟩)
    have hzone := h.in_zone ino block (hmem block (le_refl _) (by omega))
    obtain ⟨group, bit, hgroup, hbit, hg, hb, haddr⟩ := h.geometry.exists_bit hzone.1 hzone.2.1
    simp only [Fs.settleFreed, Fs.chargeBlocks] at hgroup hbit hg hb haddr
    -- the part of the run inside this group, and the rest
    obtain ⟨beyond, part, hbeyond, hpart, hsum, hpos, hfit⟩ : ∃ beyond part,
        beyond = (if fs.sbi.sBlocksPerGroup < bit + count then
          bit + count - fs.sbi.sBlocksPerGroup else 0) ∧ part = count - beyond ∧
        count = part + beyond ∧ 0 < part ∧ bit + part ≤ fs.sbi.sBlocksPerGroup := by
      refine ⟨_, _, rfl, rfl, ?_⟩
      split <;> omega
    have hsplit : blockRun block count = blockRun block part + blockRun (block + part) beyond := by
      rw [hsum, blockRun_add]
    have hfirst : blockRun (fs.sbi.groupFirstBlockNo group + bit) part ≤ owned ino := by
      rw [← haddr]
      refine le_trans ?_ hrun
      rw [hsplit]
      exact Multiset.le_add_right _ _
    have hsystem : inSystemZone fs.sbi (fs.desc group) block part = false :=
      h.not_inSystemZone hg hpos fun b h1 h2 =>
        (h.in_zone ino b (hmem b h1 (by omega))).2.2
    obtain ⟨hcnt, hframe, hinode, hrsv, howned⟩ := freeInGroup_owned h hg hfit hfirst
    have hdesc : fs.groupDesc group = some (fs.desc group) := by
      simp [Fs.groupDesc, hg]
    have hloop : freeBlocksLoop readBitmap (fuel + 1) fs block count freed =
        if beyond ≠ 0 then freeBlocksLoop readBitmap fuel (freeInGroup fs group bit part).1
          (block + part) beyond (freed + part)
        else ((freeInGroup fs group bit part).1, freed + part) := by
      conv_lhs => unfold freeBlocksLoop
      simp only [← hgroup, ← hbit, ← hbeyond, ← hpart, hread, hdesc, hsystem, hcnt]
      simp
    rw [hloop]
    rw [← haddr] at howned
    by_cases hz : beyond = 0
    · have hsame : part = count := by omega
      rw [if_neg (by simpa using hz)]
      rw [hsame] at howned hframe hinode hrsv ⊢
      exact ⟨hframe, hinode, hrsv, rfl, howned⟩
    · rw [if_pos hz]
      have hrest : blockRun (block + part) beyond ≤
          Function.update owned ino (owned ino - blockRun block part) ino := by
        rw [Function.update_self]
        exact le_tsub_of_add_le_left (hsplit ▸ hrun)
      obtain ⟨hframe', hinode', hrsv', hfreed', howned'⟩ :=
        ih howned (by omega) (by omega) hrest
      refine ⟨hframe.trans hframe', hinode'.trans hinode, hrsv'.trans hrsv, ?_, ?_⟩
      · rw [hfreed']
        omega
      · have hupd : Function.update (Function.update owned ino (owned ino - blockRun block part))
            ino ((Function.update owned ino (owned ino - blockRun block part)) ino -
              blockRun (block + part) beyond) =
            Function.update owned ino (owned ino - blockRun block count) := by
          rw [Function.update_self, Function.update_idem, hsplit, tsub_add_eq_tsub_tsub]
        rw [hupd] at howned'
        rw [hsum, ← Nat.add_assoc]
        rw [hsum] at howned'
        exact howned'

/-- `kr_free_blocks` takes a run of blocks out of the possession of an inode. -/
theorem krFreeBlocks_owned (readBitmap : Nat → Bool) (hread : ∀ g, readBitmap g = true)
    (h : fs.Owned reserved owned extra) {block count : Nat} (hcount : 0 < count)
    (hrun : blockRun block count ≤ owned ino) :
    fs.BlockFrame (krFreeBlocks readBitmap fs ino block count) ∧
      (krFreeBlocks readBitmap fs ino block count).rsv = fs.rsv ∧
      (krFreeBlocks readBitmap fs ino block count).Owned reserved
        (Function.update owned ino (owned ino - blockRun block count)) extra := by
  have hmem : ∀ b, block ≤ b → b < block + count → b ∈ owned ino := fun b h1 h2 =>
    Multiset.mem_of_le hrun (mem_blockRun.mpr ⟨h1, h2⟩)
  have hfirst := h.in_zone ino block (hmem block (le_refl _) (by omega))
  have hlast := h.in_zone ino (block + count - 1) (hmem _ (by omega) (by omega))
  have hlt := fs.sbi.sEs.sBlocksCount.toNat_lt
  have hcheck : ¬ (block < fs.sbi.sEs.sFirstDataBlock.toNat || (block + count) % 2 ^ 64 < block ||
      fs.sbi.sEs.sBlocksCount.toNat < block + count) = true := by
    simp only [Bool.or_eq_true, decide_eq_true_eq, not_or, not_lt]
    omega
  have h0 : (fs.settleFreed ino 0).Owned reserved owned extra := by
    rwa [Fs.settleFreed_zero]
  obtain ⟨-, -, hrsv, hfreed, howned⟩ :=
    freeBlocksLoop_owned readBitmap hread (count + 1) h0 hcount (Nat.lt_succ_self _) hrun
  refine ⟨krFreeBlocks_frame readBitmap fs ino block count, ?_⟩
  simp only [krFreeBlocks]
  rw [if_neg hcheck]
  simp only [hfreed, Nat.zero_add] at howned ⊢
  rw [if_pos (by omega)]
  exact ⟨hrsv, howned⟩

end Free

end KrFs
