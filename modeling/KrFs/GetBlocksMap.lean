import KrFs.GetBlocksRace
import KrFs.NoSpace
import KrFs.TruncateMap

/-!
# What `kr_get_blocks` does to the map

The tree of an inode spells a partial map from logical to physical blocks. An
undisturbed call of `kr_get_blocks` reads a run of consecutive blocks out of it,
or extends it by a run of blocks that were free, and leaves the rest as it was,
the holes included. The call is shown to return, whatever the quota, the reads of
the bitmaps and `sb_getblk` give.
-/

namespace KrFs

open SearchTree

/-! ## The calls return -/

section Returns

variable {ops : Rebalance Window} {env : GetBlocksEnv} {ino fuel : Nat} {fs : Fs}

/-- Each round of `kr_alloc_blocks` but the last takes an indirect block. -/
theorem allocBlocksLoop_returns {goal indirectBlks blks : Nat} (hblks : 1 ≤ blks) (rounds : Nat) :
    ∀ {k : Nat} {fs : Fs} {target : Nat} {new : List Nat}, 0 < fs.sbi.sBlocksPerGroup →
    fs.rsv.Wf → fs.sbi.allocFuel ≤ fuel → target + new.length = blks + indirectBlks →
    new.length ≤ indirectBlks → indirectBlks < rounds + new.length →
    ∃ fs' result, allocBlocksLoop ops env ino fuel goal indirectBlks rounds k fs target new =
      .done (fs', result) := by
  induction rounds with
  | zero =>
    intro k fs target new _ _ _ _ hlen hrounds
    omega
  | succ rounds ih =>
    intro k fs target new hbpg hwf hfuel htarget hlen hrounds
    have htarget1 : 1 ≤ target := by omega
    obtain ⟨fs1, result, hcall, hwf1⟩ := krNewBlocks_returns ops (env.alloc k) ino hbpg hwf hfuel
      goal target
    obtain ⟨hgrow, hblocks⟩ := krNewBlocks_bits hbpg htarget1 hcall
    unfold allocBlocksLoop
    rw [hcall]
    cases result with
    | error e => exact ⟨_, _, rfl⟩
    | ok val =>
      obtain ⟨current, count⟩ := val
      obtain ⟨hpos, hle, -⟩ := hblocks current count rfl
      simp only [Exec.bind]
      by_cases hdata : 0 < count - min (indirectBlks - new.length) count
      · rw [if_pos hdata]
        exact ⟨_, _, rfl⟩
      · rw [if_neg hdata]
        refine ih (by rwa [hgrow.sbi]) hwf1 (by rwa [hgrow.sbi]) ?_ ?_ ?_
        · simp only [List.length_append, List.length_range']
          omega
        · simp only [List.length_append, List.length_range']
          omega
        · simp only [List.length_append, List.length_range']
          omega

theorem krAllocBranch_returns (hbpg : 0 < fs.sbi.sBlocksPerGroup) (hwf : fs.rsv.Wf)
    (hfuel : fs.sbi.allocFuel ≤ fuel) (goal indirectBlks : Nat) {blks : Nat} (hblks : 1 ≤ blks)
    (offsets : List Nat) :
    ∃ fs' result, krAllocBranch ops env ino fuel fs goal indirectBlks blks offsets =
      .done (fs', result) := by
  obtain ⟨fs1, taken, hloop⟩ : ∃ fs' result, allocBlocksLoop ops env ino fuel goal indirectBlks
      (indirectBlks + 1) 0 fs (blks + indirectBlks) [] = .done (fs', result) :=
    allocBlocksLoop_returns hblks (indirectBlks + 1) hbpg hwf hfuel (by simp) (by simp) (by simp)
  unfold krAllocBranch krAllocBlocks
  rw [hloop]
  cases taken with
  | error err => exact ⟨_, _, rfl⟩
  | ok found =>
    simp only [Exec.bind]
    split
    · exact ⟨_, _, rfl⟩
    · exact ⟨_, _, rfl⟩

theorem allocLocked_returns (hbpg : 0 < fs.sbi.sBlocksPerGroup) (hwin : fs.WindowsOf ino)
    (hfuel : fs.sbi.allocFuel ≤ fuel) {reservation : Bool} {iblock maxblocks : Nat}
    {offsets : List Nat} {blocksToBoundary : Int} {chain : List Indirect}
    (hcount : 1 ≤ krBlksToAllocate (fs.mem ino) (lastEntry chain) (offsets.length - chain.length)
      maxblocks blocksToBoundary) :
    ∃ fs' mapped, allocLocked ops env ino fuel reservation fs iblock maxblocks offsets
      blocksToBoundary chain = .done (fs', mapped) := by
  obtain ⟨hgrow, -, hmem⟩ : fs.BitsGrow (initBlockAllocInfo env ino reservation fs) ∧
      (initBlockAllocInfo env ino reservation fs).blockBitmap = fs.blockBitmap ∧
      (initBlockAllocInfo env ino reservation fs).mem ino = fs.mem ino :=
    initBlockAllocInfo_same reservation fs
  have hwf : (initBlockAllocInfo env ino reservation fs).rsv.Wf :=
    initBlockAllocInfo_wf hwin reservation
  unfold allocLocked
  dsimp only
  generalize initBlockAllocInfo env ino reservation fs = fs0 at hgrow hmem hwf ⊢
  rw [hmem]
  obtain ⟨fs1, result, hcall⟩ : ∃ fs' result, krAllocBranch ops env ino fuel fs0
      (krFindGoal fs0 ino env.pid iblock (lastEntry chain)) (offsets.length - chain.length)
      (krBlksToAllocate (fs.mem ino) (lastEntry chain) (offsets.length - chain.length) maxblocks
        blocksToBoundary) (offsets.drop chain.length) = .done (fs', result) :=
    krAllocBranch_returns (by rwa [hgrow.sbi]) hwf (by rwa [hgrow.sbi]) _ _ hcount _
  rw [hcall]
  cases result with
  | error e => exact ⟨_, _, rfl⟩
  | ok found => exact ⟨_, _, rfl⟩

end Returns

/-! ## Neighbouring logical blocks -/

section Paths

/-- A block of one of the four regions has the path of this region. -/
theorem krBlockToPath_direct {bits b : Nat} (hb : b < 12) :
    (krBlockToPath (2 ^ bits) bits b).1 = [b] := by
  have hneg : ¬ (b : Int) < 0 := by omega
  simp [krBlockToPath, hneg, KR_NDIR_BLOCKS, hb]

theorem krBlockToPath_single {bits c : Nat} (hc : c < 2 ^ bits) :
    (krBlockToPath (2 ^ bits) bits (12 + c : Nat)).1 = [12, c] := by
  have hneg : ¬ ((12 + c : Nat) : Int) < 0 := by omega
  unfold krBlockToPath
  rw [if_neg hneg, Int.toNat_natCast]
  dsimp only
  rw [if_neg (by simp [KR_NDIR_BLOCKS]), if_pos (by simpa [KR_NDIR_BLOCKS] using hc)]
  simp [KR_NDIR_BLOCKS, KR_IND_BLOCK]

theorem krBlockToPath_double {bits c : Nat} (hc : c < 2 ^ (bits * 2)) :
    (krBlockToPath (2 ^ bits) bits (12 + 2 ^ bits + c : Nat)).1 =
      [13, c / 2 ^ bits, c % 2 ^ bits] := by
  have hpos := Nat.two_pow_pos bits
  have hneg : ¬ ((12 + 2 ^ bits + c : Nat) : Int) < 0 := Int.not_lt.mpr (Int.natCast_nonneg _)
  have hsub : 12 + 2 ^ bits + c - KR_NDIR_BLOCKS = 2 ^ bits + c := by
    simp only [KR_NDIR_BLOCKS]
    omega
  unfold krBlockToPath
  rw [if_neg hneg, Int.toNat_natCast]
  dsimp only
  rw [if_neg (by simp only [KR_NDIR_BLOCKS]; omega), hsub, if_neg (by omega),
    Nat.add_sub_cancel_left, if_pos (by rwa [Nat.one_shiftLeft])]
  simp only [Nat.shiftRight_eq_div_pow, Nat.and_two_pow_sub_one_eq_mod]
  rfl

theorem krBlockToPath_triple {bits c : Nat} (hc : c / 2 ^ bits / 2 ^ bits < 2 ^ bits) :
    (krBlockToPath (2 ^ bits) bits (12 + 2 ^ bits + 2 ^ (bits * 2) + c : Nat)).1 =
      [14, c / 2 ^ bits / 2 ^ bits, c / 2 ^ bits % 2 ^ bits, c % 2 ^ bits] := by
  have hpos := Nat.two_pow_pos bits
  have hpos2 := Nat.two_pow_pos (bits * 2)
  have hneg : ¬ ((12 + 2 ^ bits + 2 ^ (bits * 2) + c : Nat) : Int) < 0 :=
    Int.not_lt.mpr (Int.natCast_nonneg _)
  have hsub : 12 + 2 ^ bits + 2 ^ (bits * 2) + c - KR_NDIR_BLOCKS =
      2 ^ bits + (2 ^ (bits * 2) + c) := by
    simp only [KR_NDIR_BLOCKS]
    omega
  have hquot : c >>> (bits * 2) = c / 2 ^ bits / 2 ^ bits := by
    rw [Nat.shiftRight_eq_div_pow, Nat.mul_two, Nat.pow_add, Nat.div_div_eq_div_mul]
  unfold krBlockToPath
  rw [if_neg hneg, Int.toNat_natCast]
  dsimp only
  rw [if_neg (by simp only [KR_NDIR_BLOCKS]; omega), hsub, if_neg (by omega),
    Nat.add_sub_cancel_left, Nat.one_shiftLeft, if_neg (by omega), Nat.add_sub_cancel_left, hquot,
    if_pos hc]
  simp only [Nat.shiftRight_eq_div_pow, Nat.and_two_pow_sub_one_eq_mod]
  rfl

theorem div_add_of_mod_lt {c i n : Nat} (h : c % n + i < n) :
    (c + i) / n = c / n ∧ (c + i) % n = c % n + i := by
  have hdm := Nat.div_add_mod c n
  have hsum : c + i = n * (c / n) + (c % n + i) := by omega
  rw [hsum]
  exact ⟨by rw [Nat.mul_add_div (by omega), Nat.div_eq_of_lt h, Nat.add_zero],
    by rw [Nat.mul_add_mod, Nat.mod_eq_of_lt h]⟩

/-- Up to the end of the last array the paths differ in the last slot only. -/
theorem krBlockToPath_add {bits b i : Nat}
    (hpath : IsPath (2 ^ bits) (krBlockToPath (2 ^ bits) bits b).1)
    (hi : (krBlockToPath (2 ^ bits) bits b).1.getLastD 0 + i <
      lastWidth (2 ^ bits) (krBlockToPath (2 ^ bits) bits b).1) :
    (krBlockToPath (2 ^ bits) bits (b + i : Nat)).1 =
      runPath (krBlockToPath (2 ^ bits) bits b).1 i := by
  generalize hp : (krBlockToPath (2 ^ bits) bits b).1 = p at hpath hi ⊢
  rcases krBlockToPath_regions hp with ⟨hb, rfl⟩ | ⟨c, hc, rfl, rfl⟩ | ⟨c, hc, rfl, rfl⟩ |
    ⟨c, rfl, rfl⟩ | rfl
  · simp only [lastWidth, List.length_singleton, if_true, KR_NDIR_BLOCKS, List.getLastD_cons,
      List.getLastD_nil] at hi
    rw [krBlockToPath_direct hi]
    rfl
  · have hi' : c + i < 2 ^ bits := by simpa [lastWidth] using hi
    rw [Nat.add_assoc, krBlockToPath_single hi']
    rfl
  · have hi' : c % 2 ^ bits + i < 2 ^ bits := by simpa [lastWidth] using hi
    obtain ⟨hdiv, hmod⟩ := div_add_of_mod_lt hi'
    have hin : c + i < 2 ^ (bits * 2) := by
      rw [Nat.mul_two, Nat.pow_add] at hc ⊢
      rw [← Nat.div_lt_iff_lt_mul (Nat.two_pow_pos bits)] at hc ⊢
      rwa [hdiv]
    rw [Nat.add_assoc, krBlockToPath_double hin, hdiv, hmod]
    rfl
  · have hi' : c % 2 ^ bits + i < 2 ^ bits := by simpa [lastWidth] using hi
    obtain ⟨hdiv, hmod⟩ := div_add_of_mod_lt hi'
    have htop : c / 2 ^ bits / 2 ^ bits < 2 ^ bits := hpath.tail_lt _ (by simp)
    rw [Nat.add_assoc, krBlockToPath_triple (by rwa [hdiv]), hdiv, hmod]
    rfl
  · exact absurd rfl hpath.ne_nil

variable {fs : Fs}

theorem AddrGeometry.path_add (geo : AddrGeometry fs.sbi) {iblock i : Nat}
    (hpath : IsPath fs.addrPerBlock (fs.path iblock).1)
    (hi : (fs.path iblock).1.getLastD 0 + i < lastWidth fs.addrPerBlock (fs.path iblock).1) :
    (fs.path (iblock + i : Nat)).1 = runPath (fs.path iblock).1 i := by
  have hapb : fs.addrPerBlock = 2 ^ fs.sbi.sAddrPerBlockBits := geo.apb_eq
  simp only [Fs.path, hapb] at hpath hi ⊢
  exact krBlockToPath_add hpath hi

/-- Different blocks have different paths. -/
theorem AddrGeometry.path_inj (geo : AddrGeometry fs.sbi) {a b : Nat}
    (hne : (fs.path a).1 ≠ []) (heq : (fs.path a).1 = (fs.path b).1) : a = b := by
  have hapb : fs.addrPerBlock = 2 ^ fs.sbi.sAddrPerBlockBits := geo.apb_eq
  simp only [Fs.path, hapb] at hne heq
  rcases Nat.lt_trichotomy a b with hlt | rfl | hlt
  · have h := krBlockToPath_lt hlt (by rwa [← heq])
    rw [heq] at h
    exact absurd h (List.lt_irrefl _)
  · rfl
  · have h := krBlockToPath_lt hlt hne
    rw [heq] at h
    exact absurd h (List.lt_irrefl _)

end Paths

/-! ## Where a look-up ends -/

section Ends

/-- A chain ends with the slot `off` of the array that `front` leads to. -/
structure EndsAt (m : Mem) (offsets : List Nat) (chain : List Indirect) (front : List Nat)
    (off : Nat) (back : List Nat) : Prop where
  split : offsets = front ++ off :: back
  length : chain.length = front.length + 1
  off_eq : (lastEntry chain).off = off
  key_eq : (lastEntry chain).key = m.blockAt (front ++ [off])
  base_eq : (lastEntry chain).base = m.slotBase front
  live : front ≠ [] → m.blockAt front ≠ 0
  hole : back ≠ [] → m.blockAt (front ++ [off]) = 0

variable {m : Mem} {offsets front back : List Nat} {off : Nat} {chain : List Indirect}

theorem Mem.chain_endsAt (m : Mem) (hne : offsets ≠ []) :
    ∃ front off back, EndsAt m offsets (m.chain offsets) front off back := by
  have hlinked := (krGetBranch_spec (fun _ => m) (fun _ => true) hne).1
  rw [krGetBranch_quiet m (fun _ => rfl) hne] at hlinked
  obtain ⟨front, off, back, hsplit, hlen, hoff, hkey, hbase, hlive⟩ :=
    hlinked.blockAt (verifyChain_chain m offsets)
  refine ⟨front, off, back, hsplit, hlen, hoff, hkey, hbase, hlive, fun hback => ?_⟩
  have hshort : (m.chain offsets).length < offsets.length := by
    have := List.length_pos_of_ne_nil hback
    rw [hlen, hsplit, List.length_append, List.length_cons]
    omega
  have hz := Mem.chain_hole hshort
  rwa [hlen, hsplit, List.take_length_add_append, List.take_succ_cons, List.take_zero] at hz

/-- The look-up is complete exactly if the path is mapped. -/
theorem EndsAt.full_iff (h : EndsAt m offsets chain front off back) :
    chainFull chain = true ↔ m.blockAt offsets ≠ 0 := by
  rw [chainFull, h.key_eq, h.split]
  by_cases hback : back = []
  · simp [hback]
  · have hz := h.hole hback
    have hbelow : m.blockAt (front ++ off :: back) = 0 := by
      rw [List.append_cons]
      exact Mem.blockAt_hole (by simp) hz back
    simp [hz, hbelow]

end Ends

/-! ## The map after a splice -/

section Splice

variable {env : GetBlocksEnv} {ino : Nat} {fs fs1 fs' : Fs} {iblock maxblocks : Nat}
  {chain : List Indirect} {new : List Nat} {data num : Nat} {front back : List Nat} {off : Nat}

/-- The data blocks of a new branch, from the path it was made for on. -/
theorem fillBranch_run (hnum : 1 ≤ num) (new : List Nat) :
    ∀ {n : Nat} {fs fs' : Fs} {offsets : List Nat} {m : Mem}, new ≠ [] → new.Nodup → 0 ∉ new →
    offsets.length = new.length → fillBranch env data num n fs new offsets = (fs', true) →
    (∀ c ∈ new, m.ptr c = fs'.ptr c) → ∀ i < num,
    m.follow (new.headD data) (runPath offsets i) = data + i := by
  induction new with
  | nil => exact fun h => absurd rfl h
  | cons b rest ih =>
    intro n fs fs' offsets m _ hnd h0 hlen hfill hptr i hi
    obtain ⟨off, offsets, rfl⟩ := List.exists_cons_of_ne_nil
      (l := offsets) (by rintro rfl; simp at hlen)
    rw [List.nodup_cons] at hnd
    rw [List.mem_cons, not_or] at h0
    obtain ⟨hrow, hstep⟩ := fillBranch_cons hnd.1 hfill
    have hb : b ≠ 0 := Ne.symm h0.1
    rw [List.headD_cons]
    by_cases hrest : rest = []
    · subst hrest
      obtain rfl : offsets = [] := by simpa using hlen
      rw [runPath_singleton, Mem.follow_cons hb, hptr b (by simp), hrow, List.headD_nil,
        List.isEmpty_nil, branchRow_last hnum, if_pos ⟨by omega, by omega⟩, Nat.add_sub_cancel_left]
      rfl
    · have hempty : rest.isEmpty = false := by simpa using hrest
      have hoffs : offsets ≠ [] := by
        rintro rfl
        exact hrest (by simpa using hlen.symm)
      have hval : branchRow off (rest.headD data) data num false off = rest.headD data := by
        simp [branchRow]
      rw [runPath_cons off hoffs, Mem.follow_cons hb, hptr b (by simp), hrow, hempty, hval]
      exact ih hrest hnd.2 h0.2 (by simpa using hlen) hstep (fun c hc => hptr c (by simp [hc])) i hi

/-- Paths through one slot of the inode are of one length. -/
theorem IsPath.length_of_prefix {apb : Nat} {p q x y : List Nat} (hp : IsPath apb p)
    (hq : IsPath apb q) (hne : front ≠ []) (hpx : p = front ++ x) (hqy : q = front ++ y) :
    x.length = y.length := by
  have h1 := hp.length_eq
  have h2 := hq.length_eq
  obtain ⟨o, os, rfl⟩ := List.exists_cons_of_ne_nil hne
  rw [hpx] at h1
  rw [hqy] at h2
  simp only [List.cons_append, List.length_cons, List.length_append, List.headD_cons] at h1 h2
  omega

/-- A path that reads none of the filled slots leads where it led. -/
theorem LiveTree.splice_apart (live : LiveTree fs ino)
    (hs : Spliced env ino iblock maxblocks fs fs1 fs' chain new data num)
    (hpath : IsPath fs.addrPerBlock (fs.path iblock).1)
    (hat : EndsAt (fs.mem ino) (fs.path iblock).1 chain front off back) {p : List Nat}
    (hp : IsPath fs.addrPerBlock p)
    (hout : ∀ o rest, p = front ++ o :: rest → ¬ (off ≤ o ∧ o < off + spliceCount new num)) :
    (fs'.mem ino).blockAt p = (fs.mem ino).blockAt p := by
  refine Mem.blockAt_same p fun f o rest hsplit hlive => ?_
  rw [hs.result]
  refine splice_row hs.used hs.num_pos (live.slotBase_inUse hp hsplit hlive) ?_
  by_cases hbase : (fs.mem ino).slotBase f = (lastEntry chain).base
  · have hf : f = front := Mem.slotBase_inj (fun h => ⟨hpath.subPath hat.split h, hat.live h⟩)
      (fun h => hp.subPath hsplit h) live.nodup (hbase.trans hat.base_eq)
    rw [hf] at hsplit
    rw [hat.off_eq]
    exact Or.inr (hout o rest hsplit)
  · exact Or.inl hbase

/-- The map after a splice: the run is mapped one block after the other, and
every other path leads where it led. -/
structure MapExtended (apb : Nat) (m m' : Mem) (offsets : List Nat) (data num : Nat) : Prop where
  absent : ∀ i < num, m.blockAt (runPath offsets i) = 0
  present : ∀ i < num, m'.blockAt (runPath offsets i) = data + i
  other : ∀ p, IsPath apb p → (∀ i < num, p ≠ runPath offsets i) → m'.blockAt p = m.blockAt p

/-- The last array of the path exists already. -/
theorem LiveTree.splice_map_direct (live : LiveTree fs ino)
    (hs : Spliced env ino iblock maxblocks fs fs1 fs' chain [] data num)
    (hpath : IsPath fs.addrPerBlock (fs.path iblock).1)
    (hat : EndsAt (fs.mem ino) (fs.path iblock).1 chain front off back)
    (hroom : (fs.path iblock).1.getLastD 0 + num ≤ lastWidth fs.addrPerBlock (fs.path iblock).1)
    (hslots : ∀ i < num, (fs.mem ino).row (lastEntry chain).base (off + i) = 0) :
    MapExtended fs.addrPerBlock (fs.mem ino) (fs'.mem ino) (fs.path iblock).1 data num := by
  obtain rfl : back = [] := by
    have hlen := hs.length_eq
    rw [hat.length, hat.split] at hlen
    simp only [List.length_nil, List.length_append, List.length_cons] at hlen
    exact List.eq_nil_of_length_eq_zero (by omega)
  have hrun : ∀ i, runPath (fs.path iblock).1 i = front ++ [off + i] := by
    intro i
    rw [hat.split, runPath_append front (by simp), runPath_singleton]
  refine ⟨fun i hi => ?_, fun i hi => ?_, fun p hp hnot => ?_⟩
  · rw [hrun, Mem.blockAt_snoc _ hat.live, ← hat.base_eq]
    exact hslots i hi
  · rw [hrun, live.splice_slot hs hpath hat.split hat.off_eq hat.base_eq hat.live]
    by_cases hi0 : i = 0
    · simp [spliceRow, hi0]
    · simp [spliceRow, hi0, hi, Nat.pos_of_ne_zero hi0]
  · refine live.splice_apart hs hpath hat hp fun o rest hsplit hin => ?_
    have hcount : spliceCount [] num = num := rfl
    rw [hcount] at hin
    have hrest : rest = [] := by
      by_cases hfront : front = []
      · -- a slot of the inode that holds a data block
        subst hfront
        rw [hat.split] at hroom
        simp only [List.nil_append, List.getLastD_cons, List.getLastD_nil, lastWidth,
          List.length_singleton, if_true, KR_NDIR_BLOCKS] at hroom
        have hlen := hp.length_eq
        rw [hsplit] at hlen
        simp only [List.nil_append, List.length_cons, List.headD_cons] at hlen
        exact List.eq_nil_of_length_eq_zero (by omega)
      · have hlen := hp.length_of_prefix hpath hfront hsplit hat.split
        exact List.eq_nil_of_length_eq_zero (by simpa using hlen)
    refine hnot (o - off) (by omega) ?_
    rw [hrun, hsplit, hrest, Nat.add_sub_cancel' hin.1]

/-- Indirect blocks of the path are missing. -/
theorem LiveTree.splice_map_branch (live : LiveTree fs ino)
    (hs : Spliced env ino iblock maxblocks fs fs1 fs' chain new data num) (hnew : new ≠ [])
    (h0 : 0 ∉ new) (hpath : IsPath fs.addrPerBlock (fs.path iblock).1)
    (hat : EndsAt (fs.mem ino) (fs.path iblock).1 chain front off back) :
    MapExtended fs.addrPerBlock (fs.mem ino) (fs'.mem ino) (fs.path iblock).1 data num := by
  have hlen : back.length = new.length := by
    rw [hs.length_eq, hat.length, hat.split]
    simp only [List.length_append, List.length_cons]
    omega
  have hback : back ≠ [] := by
    rintro rfl
    exact hnew (List.eq_nil_of_length_eq_zero hlen.symm)
  have hrun : ∀ i, runPath (fs.path iblock).1 i = (front ++ [off]) ++ runPath back i := by
    intro i
    rw [hat.split, List.append_cons, runPath_append _ hback]
  have hslot : (fs'.mem ino).blockAt (front ++ [off]) = new.headD data := by
    rw [live.splice_slot hs hpath hat.split hat.off_eq hat.base_eq hat.live off]
    simp [spliceRow]
  have hrows : ∀ c ∈ new, (fs'.mem ino).ptr c = fs1.ptr c := fun c hc =>
    live.splice_rows hs hpath hat.split hat.base_eq hat.live hc
  have hnd : new.Nodup := (List.nodup_append.mp hs.fresh.nodup).1
  obtain ⟨fs0, hfill⟩ := hs.filled
  have hdrop : (fs.path iblock).1.drop chain.length = back := by
    rw [hat.split, hat.length, List.drop_length_add_append]
    rfl
  rw [hdrop] at hfill
  refine ⟨fun i hi => ?_, fun i hi => ?_, fun p hp hnot => ?_⟩
  · rw [hrun]
    exact Mem.blockAt_hole (by simp) (hat.hole hback) _
  · rw [hrun, Mem.blockAt_append (by simp), hslot]
    exact fillBranch_run hs.num_pos new hnew hnd h0 hlen hfill hrows i hi
  · by_cases hthrough : ∃ rest, p = front ++ off :: rest
    · -- the path was cut by the hole that is filled now
      obtain ⟨rest, hsplit⟩ := hthrough
      rw [List.append_cons] at hsplit
      have hcut : (fs.path iblock).1 = (front ++ [off]) ++ back := by
        rw [hat.split, List.append_cons]
      have hrest : rest.length = new.length := by
        rw [← hlen]
        exact hp.length_of_prefix hpath (by simp) hsplit hcut
      rw [hsplit, Mem.blockAt_hole (by simp) (hat.hole hback), Mem.blockAt_append (by simp), hslot]
      rcases fillBranch_follow hs.num_pos new hnew hnd hlen hfill hrows rest hrest with
        hz | ⟨i, hi, hpi, -⟩
      · exact hz
      · exact absurd (by rw [hsplit, hrun, hpi]) (hnot i hi)
    · refine live.splice_apart hs hpath hat hp fun o rest hsplit hin => hthrough ⟨rest, ?_⟩
      have hcount : spliceCount new num = 1 := by simp [spliceCount, hnew]
      rw [hsplit, show o = off by omega]

end Splice

/-! ## The three outcomes -/

section GetBlocks

variable {ops : Rebalance Window} {env : GetBlocksEnv} {ino fuel : Nat} {fs fs' : Fs}
  {reservation : Bool} {iblock maxblocks : Nat} {mapped : Mapped}

theorem absentBlocks_le (m : Mem) (ind : Indirect) {blks : Nat} (blocksToBoundary : Int)
    (n : Nat) : ∀ {count : Nat}, count ≤ blks →
    absentBlocks m ind blks blocksToBoundary n count ≤ blks := by
  induction n with
  | zero => exact fun h => h
  | succ n ih =>
    intro count h
    unfold absentBlocks
    split
    · rename_i hmore
      simp only [Bool.and_eq_true, decide_eq_true_eq] at hmore
      exact ih (by omega)
    · exact h

theorem krBlksToAllocate_le (m : Mem) (ind : Indirect) (k : Nat) {blks : Nat} (hblks : 1 ≤ blks)
    (blocksToBoundary : Int) : krBlksToAllocate m ind k blks blocksToBoundary ≤ blks := by
  unfold krBlksToAllocate
  split
  · split <;> omega
  · exact absentBlocks_le m ind blocksToBoundary blks hblks

/-- The loop over mapped neighbours, with nobody else at work. -/
theorem mapMore_quiet {m : Mem} (hlook : ∀ t, env.look t = m) {chain : List Indirect}
    (hv : verifyChain m chain = true) {blocksToBoundary : Int} (n : Nat) :
    ∀ {t c : Nat}, c ≤ maxblocks → (c : Int) ≤ blocksToBoundary + 1 →
    (∀ i < c, m.row (lastEntry chain).base ((lastEntry chain).off + i) =
      (lastEntry chain).key + i) →
    ∃ more, mapMore env chain maxblocks blocksToBoundary n t c = some more ∧ c ≤ more ∧
      more ≤ maxblocks ∧ (more : Int) ≤ blocksToBoundary + 1 ∧
      ∀ i < more, m.row (lastEntry chain).base ((lastEntry chain).off + i) =
        (lastEntry chain).key + i := by
  induction n with
  | zero => exact fun h1 h2 h3 => ⟨_, rfl, le_refl _, h1, h2, h3⟩
  | succ n ih =>
    intro t c h1 h2 h3
    unfold mapMore
    split
    · rename_i hmore
      simp only [Bool.and_eq_true, decide_eq_true_eq] at hmore
      simp only [hlook, hv, Bool.not_true, Bool.false_eq_true, if_false]
      split
      · rename_i hnext
        obtain ⟨more, heq, hle, hrest⟩ := ih (t := t + 2) (c := c + 1) (by omega)
          (by push_cast; omega) fun i hi => by
            by_cases hlast : i = c
            · rw [hlast]
              exact hnext
            · exact h3 i (by omega)
        exact ⟨more, heq, by omega, hrest⟩
      · exact ⟨_, rfl, le_refl _, h1, h2, h3⟩
    · exact ⟨_, rfl, le_refl _, h1, h2, h3⟩

/-- What the look-up of an undisturbed call gives. -/
theorem GetBlocksEnv.Quiet.first (quiet : env.Quiet (fs.mem ino)) (hne : (fs.path iblock).1 ≠ []) :
    krGetBranch env.look env.bread (fs.path iblock).1 = ⟨(fs.mem ino).chain (fs.path iblock).1,
      chainFull ((fs.mem ino).chain (fs.path iblock).1), none⟩ := by
  rw [show env.look = fun _ => fs.mem ino from funext quiet.look]
  exact krGetBranch_quiet (fs.mem ino) quiet.bread hne

theorem krGetBlocks_full (quiet : env.Quiet (fs.mem ino)) (hmax : 1 ≤ maxblocks)
    (hne : (fs.path iblock).1 ≠ [])
    (hfull : chainFull ((fs.mem ino).chain (fs.path iblock).1) = true) {count : Nat}
    (hcount : mapMore env ((fs.mem ino).chain (fs.path iblock).1) maxblocks (fs.path iblock).2
      maxblocks (fs.path iblock).1.length 1 = some count) (create : Bool) :
    krGetBlocks ops env ino fuel reservation fs iblock maxblocks create =
      .done (fs, mappedAt ((fs.mem ino).chain (fs.path iblock).1) count (fs.path iblock).2) := by
  have hmax0 : maxblocks ≠ 0 := by omega
  simp [krGetBlocks, hmax0, hne, quiet.first hne, hfull, hcount]

theorem krGetBlocks_hole (quiet : env.Quiet (fs.mem ino)) (hmax : 1 ≤ maxblocks)
    (hne : (fs.path iblock).1 ≠ [])
    (hhole : chainFull ((fs.mem ino).chain (fs.path iblock).1) = false) (create : Bool) :
    krGetBlocks ops env ino fuel reservation fs iblock maxblocks create =
      if create then
        allocLocked ops env ino fuel reservation fs iblock maxblocks (fs.path iblock).1
          (fs.path iblock).2 ((fs.mem ino).chain (fs.path iblock).1)
      else .done (fs, ⟨.ok 0, 0, false, false⟩) := by
  have hmax0 : maxblocks ≠ 0 := by omega
  cases create with
  | true => simp [krGetBlocks, hmax0, hne, quiet.first hne, hhole, relook, verifyChain_chain]
  | false => simp [krGetBlocks, hmax0, hne, quiet.first hne, hhole]

/-- The results of the locked part when it succeeds. -/
theorem allocLocked_mapped {chain : List Indirect} {fs1 : Fs} {new : List Nat} {data num : Nat}
    (halloc : lockedAlloc ops env ino fuel reservation fs iblock maxblocks chain =
      .done (fs1, .ok (new, data, num)))
    (hrun : allocLocked ops env ino fuel reservation fs iblock maxblocks (fs.path iblock).1
      (fs.path iblock).2 chain = .done (fs', mapped)) :
    mapped.ret = .ok num ∧ mapped.bno = data := by
  unfold allocLocked at hrun
  unfold lockedAlloc at halloc
  dsimp only at hrun halloc
  rw [halloc] at hrun
  simp only [Exec.bind, Exec.done.injEq, Prod.mk.injEq] at hrun
  rw [← hrun.2]
  exact ⟨rfl, rfl⟩

theorem allocLocked_failed {chain : List Indirect}
    (hfail : ∀ fs1 found, lockedAlloc ops env ino fuel reservation fs iblock maxblocks chain ≠
      .done (fs1, .ok found))
    (hrun : allocLocked ops env ino fuel reservation fs iblock maxblocks (fs.path iblock).1
      (fs.path iblock).2 chain = .done (fs', mapped)) : ∃ e, mapped.ret = .error e := by
  unfold allocLocked at hrun
  unfold lockedAlloc at hfail
  dsimp only at hrun hfail
  generalize krAllocBranch ops env ino fuel _ _ _ _ _ = call at hrun hfail
  cases call with
  | bug => cases hrun
  | running => cases hrun
  | done res =>
    obtain ⟨fs1, outcome⟩ := res
    cases outcome with
    | error e =>
      simp only [Exec.bind, Exec.done.injEq, Prod.mk.injEq] at hrun
      rw [← hrun.2]
      exact ⟨e, rfl⟩
    | ok found => exact absurd rfl (hfail fs1 found)

/-- `fs'` maps `n` blocks from `iblock` on to `bno` and its successors, which
were free, and everything else as `fs` does. -/
structure Fs.RunAdded (fs fs' : Fs) (ino iblock bno n : Nat) : Prop where
  bno_ne : bno ≠ 0
  absent : ∀ i < n, fs.blockAt ino (iblock + i) = 0
  free : ∀ i < n, fs.FreeBlock (bno + i)
  map : ∀ l, fs'.blockAt ino l =
    if iblock ≤ l ∧ l < iblock + n then bno + (l - iblock) else fs.blockAt ino l

/-- Paths turned into logical blocks. -/
theorem MapExtended.runAdded {data num : Nat} (geo : AddrGeometry fs.sbi) (live : LiveTree fs ino)
    (hsame : ∀ l : Nat, fs'.path l = fs.path l) (haddr : (fs.path iblock).1 ≠ [])
    (hroom : (fs.path iblock).1.getLastD 0 + num ≤ lastWidth fs.addrPerBlock (fs.path iblock).1)
    (h : MapExtended fs.addrPerBlock (fs.mem ino) (fs'.mem ino) (fs.path iblock).1 data num)
    (hdata : data ≠ 0) (hfree : ∀ i < num, fs.FreeBlock (data + i)) :
    fs.RunAdded fs' ino iblock data num := by
  have hrun : ∀ i < num, (fs.path (iblock + i : Nat)).1 = runPath (fs.path iblock).1 i :=
    fun i hi => geo.path_add (live.paths iblock haddr).1 (by omega)
  refine ⟨hdata, fun i hi => ?_, hfree, fun l => ?_⟩
  · rw [Fs.blockAt, hrun i hi]
    exact h.absent i hi
  · split
    · rename_i hin
      obtain ⟨i, rfl⟩ := Nat.exists_eq_add_of_le hin.1
      have hi : i < num := by omega
      rw [Fs.blockAt, hsame, hrun i hi, h.present i hi, Nat.add_sub_cancel_left]
    · rename_i hout
      rw [Fs.blockAt, Fs.blockAt, hsame]
      by_cases hnil : (fs.path l).1 = []
      · rw [hnil]
        rfl
      · refine h.other _ (live.paths l hnil).1 fun i hi heq => hout ?_
        rw [← hrun i hi] at heq
        have := geo.path_inj hnil heq
        omega

/-- The allocating part, entered with a hole. -/
theorem allocLocked_map (live : LiveTree fs ino) (geo : AddrGeometry fs.sbi)
    (null : ¬ fs.FreeBlock 0) (hmax : 1 ≤ maxblocks) (haddr : (fs.path iblock).1 ≠ [])
    {front back : List Nat} {off : Nat} {chain : List Indirect}
    (hat : EndsAt (fs.mem ino) (fs.path iblock).1 chain front off back)
    (hzero : (fs.mem ino).row (lastEntry chain).base (lastEntry chain).off = 0)
    (hrun : allocLocked ops env ino fuel reservation fs iblock maxblocks (fs.path iblock).1
      (fs.path iblock).2 chain = .done (fs', mapped)) :
    (∃ e, mapped.ret = .error e ∧ ∀ l, fs'.blockAt ino l = fs.blockAt ino l) ∨
      ∃ n, mapped.ret = .ok n ∧ 1 ≤ n ∧ n ≤ maxblocks ∧
        fs.RunAdded fs' ino iblock mapped.bno n := by
  obtain ⟨hpath, hboundary⟩ := live.paths iblock haddr
  have hlast := hpath.last_lt
  obtain ⟨hcount1, hcount2, hempty⟩ := krBlksToAllocate_spec (fs.mem ino) (lastEntry chain)
    ((fs.path iblock).1.length - chain.length) hmax (show 0 ≤ (fs.path iblock).2 by omega)
    fun _ => hzero
  have hcount3 := krBlksToAllocate_le (fs.mem ino) (lastEntry chain)
    ((fs.path iblock).1.length - chain.length) hmax (fs.path iblock).2
  obtain ⟨hused, hfail⟩ | ⟨fs1, new, data, num, halloc, hs⟩ :=
    allocLocked_cases live.bpg_pos hcount1 hrun
  · obtain ⟨e, he⟩ := allocLocked_failed hfail hrun
    exact Or.inl ⟨e, he, live.blockAt_of_usedSame hused⟩
  · obtain ⟨hret, hbno⟩ := allocLocked_mapped halloc hrun
    have hnum := hs.num_le
    have hroom : (fs.path iblock).1.getLastD 0 + num ≤
        lastWidth fs.addrPerBlock (fs.path iblock).1 := by omega
    have hfree : ∀ i < num, fs.FreeBlock (data + i) := fun i hi =>
      hs.fresh.clear _ (List.mem_append.mpr (Or.inr (by rw [List.mem_range'_1]; omega)))
    have hdata : data ≠ 0 := by
      rintro rfl
      exact null (hfree 0 hs.num_pos)
    have hmap : MapExtended fs.addrPerBlock (fs.mem ino) (fs'.mem ino) (fs.path iblock).1 data
        num := by
      by_cases hnew : new = []
      · subst hnew
        have hnone := hs.length_eq.symm
        refine live.splice_map_direct hs hpath hat hroom fun i hi => ?_
        rw [← hat.off_eq]
        exact hempty hnone _ (by omega) (by omega)
      · refine live.splice_map_branch hs hnew (fun h0 => null ?_) hpath hat
        exact hs.fresh.clear 0 (List.mem_append.mpr (Or.inl h0))
    refine Or.inr ⟨num, hret, hs.num_pos, by omega, ?_⟩
    rw [hbno]
    exact hmap.runAdded geo live hs.path_eq haddr hroom hdata hfree

/-- A mapped block is the first of a run of consecutive blocks. -/
theorem mappedAt_run (geo : AddrGeometry fs.sbi) (live : LiveTree fs ino)
    (quiet : env.Quiet (fs.mem ino)) (hmax : 1 ≤ maxblocks) (haddr : (fs.path iblock).1 ≠ [])
    {front back : List Nat} {off : Nat}
    (hat : EndsAt (fs.mem ino) (fs.path iblock).1 ((fs.mem ino).chain (fs.path iblock).1) front off
      back)
    (hfull : chainFull ((fs.mem ino).chain (fs.path iblock).1) = true) :
    (lastEntry ((fs.mem ino).chain (fs.path iblock).1)).key = fs.blockAt ino iblock ∧
      ∃ n, mapMore env ((fs.mem ino).chain (fs.path iblock).1) maxblocks (fs.path iblock).2
          maxblocks (fs.path iblock).1.length 1 = some n ∧ 1 ≤ n ∧ n ≤ maxblocks ∧
        ∀ i < n, fs.blockAt ino (iblock + i) = fs.blockAt ino iblock + i := by
  obtain ⟨hpath, hboundary⟩ := live.paths iblock haddr
  have hlast := hpath.last_lt
  have hv := verifyChain_chain (fs.mem ino) (fs.path iblock).1
  generalize (fs.mem ino).chain (fs.path iblock).1 = chain at hat hfull hv ⊢
  have hback : back = [] := by
    by_contra hback
    have hz := hat.key_eq.trans (hat.hole hback)
    simp [chainFull, hz] at hfull
  have hkey : (lastEntry chain).key = fs.blockAt ino iblock := by
    rw [hat.key_eq, Fs.blockAt, hat.split, hback]
  have hrow := verifyChain_lastEntry hv (List.ne_nil_of_length_pos (by rw [hat.length]; omega))
  obtain ⟨n, hmore, hpos, hle, hin, hrun⟩ := mapMore_quiet quiet.look hv maxblocks
    (t := (fs.path iblock).1.length) hmax (show ((1 : Nat) : Int) ≤ (fs.path iblock).2 + 1 by omega)
    fun i hi => by
      rw [show i = 0 by omega]
      exact hrow.symm
  refine ⟨hkey, n, hmore, hpos, hle, fun i hi => ?_⟩
  rw [← hkey, ← hrun i hi, Fs.blockAt, geo.path_add hpath (by omega), hat.split, hback,
    runPath_append front (by simp), runPath_singleton, Mem.blockAt_snoc _ hat.live, hat.base_eq,
    hat.off_eq]

/-- An undisturbed call of `kr_get_blocks` on an addressable block: it reads a run
of the map, or reports a hole, or fails with the map as it was, or extends the map
by a run of free blocks. -/
theorem krGetBlocks_map {k : MountEnv} {es : SuperBlock}
    (accepted : krFillSuper k es = .ok fs.sbi) (nodup : (fs.fileTree ino).Nodup)
    (inUse : ∀ b ∈ fs.fileTree ino, fs.BlockBit b true) (null : ¬ fs.FreeBlock 0)
    (windows : fs.WindowsOf ino) (quiet : env.Quiet (fs.mem ino)) (hmax : 1 ≤ maxblocks)
    (haddr : (fs.path iblock).1 ≠ []) (hfuel : fs.sbi.allocFuel ≤ fuel) (create : Bool) :
    ∃ fs' mapped, krGetBlocks ops env ino fuel reservation fs iblock maxblocks create =
        .done (fs', mapped) ∧
      (fs.blockAt ino iblock ≠ 0 → fs' = fs ∧ mapped.bno = fs.blockAt ino iblock ∧
        ∃ n, mapped.ret = .ok n ∧ 1 ≤ n ∧ n ≤ maxblocks ∧
          ∀ i < n, fs.blockAt ino (iblock + i) = mapped.bno + i) ∧
      (fs.blockAt ino iblock = 0 → create = false → fs' = fs ∧ mapped.ret = .ok 0) ∧
      (fs.blockAt ino iblock = 0 → create = true →
        (∃ e, mapped.ret = .error e ∧ ∀ l, fs'.blockAt ino l = fs.blockAt ino l) ∨
        ∃ n, mapped.ret = .ok n ∧ 1 ≤ n ∧ n ≤ maxblocks ∧
          fs.RunAdded fs' ino iblock mapped.bno n) := by
  have live := liveTree_of_krFillSuper accepted nodup inUse
  have geo := addrGeometry_of_krFillSuper accepted
  obtain ⟨hpath, hboundary⟩ := live.paths iblock haddr
  have hlast := hpath.last_lt
  obtain ⟨front, off, back, hat⟩ := (fs.mem ino).chain_endsAt haddr
  have hiff : chainFull ((fs.mem ino).chain (fs.path iblock).1) = true ↔
      fs.blockAt ino iblock ≠ 0 := hat.full_iff
  by_cases hz : fs.blockAt ino iblock = 0
  · have hfull : chainFull ((fs.mem ino).chain (fs.path iblock).1) = false := by
      rw [← Bool.not_eq_true, hiff, not_not]
      exact hz
    cases create with
    | false =>
      exact ⟨fs, _, krGetBlocks_hole quiet hmax haddr hfull false, fun hne => absurd hz hne,
        fun _ _ => ⟨rfl, rfl⟩, by simp⟩
    | true =>
      rw [krGetBlocks_hole quiet hmax haddr hfull true, if_pos rfl]
      have hzero : (fs.mem ino).row (lastEntry ((fs.mem ino).chain (fs.path iblock).1)).base
          (lastEntry ((fs.mem ino).chain (fs.path iblock).1)).off = 0 := by
        rw [← verifyChain_lastEntry (verifyChain_chain (fs.mem ino) (fs.path iblock).1)
          (List.ne_nil_of_length_pos (by rw [hat.length]; omega))]
        simpa [chainFull] using hfull
      have hcount := (krBlksToAllocate_spec (fs.mem ino) _ ((fs.path iblock).1.length -
        ((fs.mem ino).chain (fs.path iblock).1).length) hmax
        (show 0 ≤ (fs.path iblock).2 by omega) fun _ => hzero).1
      obtain ⟨fs', mapped, hrun⟩ : ∃ fs' mapped, allocLocked ops env ino fuel reservation fs iblock
          maxblocks (fs.path iblock).1 (fs.path iblock).2
          ((fs.mem ino).chain (fs.path iblock).1) = .done (fs', mapped) :=
        allocLocked_returns live.bpg_pos windows hfuel hcount
      exact ⟨fs', mapped, hrun, fun hne => absurd hz hne, by simp,
        fun _ _ => allocLocked_map live geo null hmax haddr hat hzero hrun⟩
  · obtain ⟨hkey, n, hmore, hpos, hle, hrun⟩ := mappedAt_run geo live quiet hmax haddr hat
      (hiff.mpr hz)
    refine ⟨fs, _, krGetBlocks_full quiet hmax haddr (hiff.mpr hz) hmore create, fun _ => ?_,
      fun h => absurd h hz, fun h => absurd h hz⟩
    refine ⟨rfl, hkey, n, rfl, hpos, hle, fun i hi => ?_⟩
    rw [hrun i hi, ← hkey]
    rfl

end GetBlocks

/-- A call on `raceFs` that nobody disturbs. -/
def raceQuiet : GetBlocksEnv :=
  { tinyGetEnv with look := fun _ => raceFs.mem 12 }

/-- Two blocks behind logical block 12, which keeps its place. -/
theorem krGetBlocks_map_behind : ∃ fs' mapped,
    krGetBlocks Rebalance.plain raceQuiet 12 60 true raceFs 13 2 true = .done (fs', mapped) ∧
      mapped.ret = .ok 2 ∧ raceFs.RunAdded fs' 12 13 mapped.bno 2 := by
  have hnull : ¬ raceFs.FreeBlock 0 := by
    rintro ⟨g, -, i, -, hb, -⟩
    have hfirst : raceFs.sbi.sEs.sFirstDataBlock.toNat = 1 := rfl
    unfold SbInfo.groupFirstBlockNo at hb
    omega
  have haddr : (raceFs.path (13 : Nat)).1 ≠ [] := by decide +kernel
  have hhole : raceFs.blockAt 12 13 = 0 := by decide +kernel
  have htwo : (krGetBlocks Rebalance.plain raceQuiet 12 60 true raceFs 13 2 true).toOption.map
      (fun r => r.2.ret) = some (.ok 2) := by decide +kernel
  obtain ⟨fs', mapped, hrun, -, -, hcreate⟩ := @krGetBlocks_map Rebalance.plain raceQuiet 12 60 raceFs
    true 13 2 smallEnv tinyImage krFillSuper_tinyImage (by rw [fileTree_raceFs]; decide)
    raceFs_inUse hnull raceFs_windows ⟨fun _ => rfl, fun _ => rfl, fun _ => rfl, fun _ => rfl⟩
    (by decide) haddr (by decide +kernel) true
  rw [hrun] at htwo
  rcases hcreate hhole rfl with ⟨e, he, -⟩ | ⟨n, hn, -, -, hadded⟩
  · simp [he, Exec.toOption] at htwo
  · obtain rfl : n = 2 := by simpa [hn, Exec.toOption] using htwo
    exact ⟨fs', mapped, hrun, hn, hadded⟩

end KrFs
