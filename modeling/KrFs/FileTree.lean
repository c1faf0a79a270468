import KrFs.BlockMap
import KrFs.BlockOwner
import KrFs.Lib.PtrTree

/-!
# The block tree of a file

The blocks reachable from `i_data`, with their multiplicity, and how they change
when one array of pointers below them does. An array is either the inode's or
that of an indirect block; a change at an array on the path of a look-up is
carried up the path, one array at a time.
-/

namespace KrFs

open PtrTree

/-! ## Paths -/

/-- What the mount says about the number of pointers in a block. -/
structure AddrGeometry (sbi : SbInfo) : Prop where
  apb_eq : sbi.sBlocksize / 4 = 2 ^ sbi.sAddrPerBlockBits
  bits : 7 ≤ sbi.sAddrPerBlockBits

theorem addrGeometry_of_krFillSuper {k : MountEnv} {es : SuperBlock} {sbi : SbInfo}
    (accepted : krFillSuper k es = .ok sbi) : AddrGeometry sbi := by
  obtain ⟨hsbi, hsize, -, -⟩ := krFillSuper_ok accepted
  obtain ⟨⟨n, hn⟩, hmin⟩ := accepted_blocksize hsize
  have hbs : sbi.sBlocksize = 2 ^ n := by
    rw [hsbi, ← hn]
    rfl
  have hn9 : 9 ≤ n := by
    by_contra hlt
    have := Nat.pow_le_pow_right (show 0 < 2 by omega) (show n ≤ 8 by omega)
    omega
  obtain ⟨j, rfl⟩ : ∃ j, n = j + 2 := ⟨n - 2, by omega⟩
  have hquarter : sbi.sBlocksize / 4 = 2 ^ j := by
    rw [hbs, Nat.pow_add]
    exact Nat.mul_div_cancel _ (by omega)
  have hbits : sbi.sAddrPerBlockBits = Nat.log2 (sbi.sBlocksize / 4) := by
    rw [hsbi]
    rfl
  rw [hquarter, Nat.log2_two_pow] at hbits
  exact ⟨by rw [hquarter, hbits], by omega⟩

/-- The number of slots of the array in which a path ends. -/
def lastWidth (apb : Nat) (offsets : List Nat) : Nat :=
  if offsets.length = 1 then KR_NDIR_BLOCKS else apb

/-- A slot of the inode and one slot in each indirect block below it. -/
structure IsPath (apb : Nat) (offsets : List Nat) : Prop where
  ne_nil : offsets ≠ []
  head_lt : offsets.headD 0 < 15
  length_eq : offsets.length = offsets.headD 0 - 11 + 1
  tail_lt : ∀ o ∈ offsets.tail, o < apb

/-- The last slot of a path lies in its array. -/
theorem IsPath.last_lt {apb : Nat} {offsets : List Nat} (h : IsPath apb offsets) :
    offsets.getLastD 0 < lastWidth apb offsets := by
  obtain ⟨o, os, rfl⟩ := List.exists_cons_of_ne_nil h.ne_nil
  have hlen := h.length_eq
  have htail : ∀ i ∈ os, i < apb := h.tail_lt
  by_cases hnil : os = []
  · subst hnil
    simp only [List.length_singleton, List.headD_cons] at hlen
    simp only [lastWidth, List.length_singleton, if_true, KR_NDIR_BLOCKS, List.getLastD_cons,
      List.getLastD_nil]
    omega
  · have hlast : (o :: os).getLastD 0 = os.getLast hnil := by
      rw [List.getLastD_eq_getLast?, List.getLast?_cons,
        List.getLast?_eq_getLast_of_ne_nil hnil]
      rfl
    rw [hlast, lastWidth, if_neg (by simpa using hnil)]
    exact htail _ (List.getLast_mem hnil)

/-- `kr_block_to_path` gives a path, and the distance to the end of the array in
which it ends. -/
theorem krBlockToPath_isPath {bits : Nat} (hbits : 4 ≤ bits) (iBlock : Int)
    (hne : (krBlockToPath (2 ^ bits) bits iBlock).1 ≠ []) :
    IsPath (2 ^ bits) (krBlockToPath (2 ^ bits) bits iBlock).1 ∧
      (krBlockToPath (2 ^ bits) bits iBlock).2 =
        (lastWidth (2 ^ bits) (krBlockToPath (2 ^ bits) bits iBlock).1 : Int) - 1 -
          ((krBlockToPath (2 ^ bits) bits iBlock).1.getLastD 0 : Nat) := by
  have hpos : 0 < 2 ^ bits := Nat.two_pow_pos bits
  have hbig : 2 ^ 4 ≤ 2 ^ bits := Nat.pow_le_pow_right (by omega) hbits
  revert hne
  unfold krBlockToPath
  split
  · intro hne
    exact absurd rfl hne
  dsimp only
  rename_i hneg
  generalize iBlock.toNat = b
  split
  · rename_i hdir
    intro _
    have hmask : b &&& (2 ^ bits - 1) = b := by
      rw [Nat.and_two_pow_sub_one_eq_mod]
      refine Nat.mod_eq_of_lt ?_
      simp only [KR_NDIR_BLOCKS] at hdir
      omega
    simp only [KR_NDIR_BLOCKS] at hdir
    exact ⟨⟨by simp, by simp; omega, by simp; omega, by simp⟩, by simp [lastWidth, hmask]⟩
  generalize b - KR_NDIR_BLOCKS = b
  split
  · rename_i hind
    intro _
    have hmask : b &&& (2 ^ bits - 1) = b := by
      rw [Nat.and_two_pow_sub_one_eq_mod]
      exact Nat.mod_eq_of_lt hind
    exact ⟨⟨by simp, by simp [KR_IND_BLOCK], by simp [KR_IND_BLOCK], by simpa using hind⟩,
      by simp [lastWidth, hmask]⟩
  generalize b - 2 ^ bits = b
  have hlow : ∀ n : Nat, n &&& (2 ^ bits - 1) < 2 ^ bits := by
    intro n
    rw [Nat.and_two_pow_sub_one_eq_mod]
    exact Nat.mod_lt _ hpos
  split
  · rename_i hdind
    intro _
    have hhigh : b >>> bits < 2 ^ bits := by
      rw [Nat.shiftRight_eq_div_pow, Nat.div_lt_iff_lt_mul hpos, ← Nat.pow_add]
      rwa [Nat.one_shiftLeft, Nat.mul_two] at hdind
    refine ⟨⟨by simp, by simp [KR_DIND_BLOCK], by simp [KR_DIND_BLOCK], ?_⟩,
      by simp [lastWidth]⟩
    simp only [List.tail_cons, List.mem_cons, List.not_mem_nil, or_false]
    rintro o (rfl | rfl)
    · exact hhigh
    · exact hlow b
  split
  · rename_i htind
    intro _
    refine ⟨⟨by simp, by simp [KR_TIND_BLOCK], by simp [KR_TIND_BLOCK], ?_⟩,
      by simp [lastWidth]⟩
    simp only [List.tail_cons, List.mem_cons, List.not_mem_nil, or_false]
    rintro o (rfl | rfl | rfl)
    · exact htind
    · exact hlow _
    · exact hlow _
  · intro hne
    exact absurd rfl hne

/-! ## Quiet look-ups -/

/-- The entries of a look-up below a block that meets no failing read and no
other writer. -/
def Mem.walk (m : Mem) : Nat → List Nat → List Indirect
  | _, [] => []
  | nr, off :: offsets =>
    addChain m (.block nr) off ::
      if m.ptr nr off = 0 then [] else m.walk (m.ptr nr off) offsets

theorem verifyChain_append (m : Mem) (c1 c2 : List Indirect) :
    verifyChain m (c1 ++ c2) = (verifyChain m c1 && verifyChain m c2) := by
  simp [verifyChain]

theorem verifyChain_addChain (m : Mem) (base : Base) (off : Nat) :
    verifyChain m [addChain m base off] = true := by
  simp [verifyChain, addChain]

/-- Whether a chain ends in a pointer that is there. -/
def chainFull (chain : List Indirect) : Bool := (lastEntry chain).key != 0

theorem getBranchLoop_quiet (m : Mem) {bread : Nat → Bool} (hread : ∀ i, bread i = true)
    (offsets : List Nat) : ∀ (i : Nat) (chain : List Indirect) (key : Nat),
    verifyChain m chain = true → chainFull chain = true →
    getBranchLoop (fun _ => m) bread i chain key offsets =
      ⟨chain ++ m.walk key offsets, chainFull (chain ++ m.walk key offsets), none⟩ := by
  induction offsets with
  | nil =>
    intro i chain key _ hfull
    simp [getBranchLoop, Mem.walk, hfull]
  | cons off offsets ih =>
    intro i chain key hv hfull
    by_cases hz : m.ptr key off = 0
    · have hkey : (addChain m (.block key) off).key = 0 := hz
      have hlast : chainFull (chain ++ [addChain m (.block key) off]) = false := by
        simp [chainFull, lastEntry, hkey]
      simp [getBranchLoop, hread, hv, hkey, Mem.walk, hz, hlast]
    · have hkey : ¬ (addChain m (.block key) off).key = 0 := hz
      have hv' : verifyChain m (chain ++ [addChain m (.block key) off]) = true := by
        rw [verifyChain_append, hv, verifyChain_addChain]
        rfl
      have hfull' : chainFull (chain ++ [addChain m (.block key) off]) = true := by
        simp [chainFull, lastEntry, hkey]
      have hrest := ih (i + 1) _ (m.ptr key off) hv' hfull'
      have hkey' : (addChain m (.block key) off).key = m.ptr key off := rfl
      simp only [getBranchLoop, hread, hv, Bool.not_true, Bool.false_eq_true, if_false,
        hkey', hrest, Mem.walk, hz, List.append_assoc, List.singleton_append]

/-- The chain of a quiet look-up. -/
def Mem.chain (m : Mem) : List Nat → List Indirect
  | [] => []
  | off :: offsets =>
    addChain m .inode off :: if m.iData off = 0 then [] else m.walk (m.iData off) offsets

theorem krGetBranch_quiet (m : Mem) {bread : Nat → Bool} (hread : ∀ i, bread i = true)
    {offsets : List Nat} (hne : offsets ≠ []) :
    krGetBranch (fun _ => m) bread offsets =
      ⟨m.chain offsets, chainFull (m.chain offsets), none⟩ := by
  cases offsets with
  | nil => exact absurd rfl hne
  | cons off offsets =>
    by_cases hz : m.iData off = 0
    · have hkey : (addChain m .inode off).key = 0 := hz
      have hlast : chainFull [addChain m .inode off] = false := by
        simp [chainFull, lastEntry, hkey]
      simp [krGetBranch, hkey, Mem.chain, hz, hlast]
    · have hkey : ¬ (addChain m .inode off).key = 0 := hz
      have hfull : chainFull [addChain m .inode off] = true := by
        simp [chainFull, lastEntry, hkey]
      have hkey' : (addChain m .inode off).key = m.iData off := rfl
      have hrest := getBranchLoop_quiet m hread offsets 0 [addChain m .inode off] (m.iData off)
        (verifyChain_addChain m .inode off) hfull
      simp only [krGetBranch, hkey', if_false, hrest, Mem.chain, hz, List.singleton_append]

theorem verifyChain_walk (m : Mem) (offsets : List Nat) : ∀ nr : Nat,
    verifyChain m (m.walk nr offsets) = true := by
  induction offsets with
  | nil => exact fun _ => rfl
  | cons off offsets ih =>
    intro nr
    by_cases hz : m.ptr nr off = 0
    · simpa [Mem.walk, hz] using verifyChain_addChain m (.block nr) off
    · rw [Mem.walk, if_neg hz, ← List.singleton_append, verifyChain_append, verifyChain_addChain,
        ih]
      rfl

/-- A chain read from the memory as it is holds in it. -/
theorem verifyChain_chain (m : Mem) (offsets : List Nat) :
    verifyChain m (m.chain offsets) = true := by
  cases offsets with
  | nil => rfl
  | cons off offsets =>
    by_cases hz : m.iData off = 0
    · simpa [Mem.chain, hz] using verifyChain_addChain m .inode off
    · rw [Mem.chain, if_neg hz, ← List.singleton_append, verifyChain_append, verifyChain_addChain,
        verifyChain_walk]
      rfl

theorem lastEntry_mem {chain : List Indirect} (h : chain ≠ []) : lastEntry chain ∈ chain := by
  rw [lastEntry, List.getLastD_eq_getLast?, List.getLast?_eq_getLast_of_ne_nil h]
  exact List.getLast_mem h

theorem verifyChain_lastEntry {m : Mem} {chain : List Indirect} (h : verifyChain m chain = true)
    (hne : chain ≠ []) :
    (lastEntry chain).key = m.row (lastEntry chain).base (lastEntry chain).off := by
  rw [verifyChain, List.all_eq_true] at h
  simpa using h _ (lastEntry_mem hne)

/-! ## Changing an array -/

/-- The blocks below the first `n` slots of an array. -/
def Mem.forest (m : Mem) (apb : Nat) (level : Nat → Nat) (base : Base) (n : Nat) : Multiset Nat :=
  PtrTree.forest m.ptr apb level (m.row base) n

/-- The blocks of a file: slots 12, 13 and 14 of the inode have trees of depth
one, two and three. -/
def Mem.fileTree (m : Mem) (apb : Nat) : Multiset Nat :=
  m.forest apb (fun slot => slot - 11) .inode 15

/-- An array is apart from a collection of blocks when its own block is not one
of them. -/
def Apart (base : Base) (s : Multiset Nat) : Prop := ∀ b, base = .block b → b ∉ s

/-- Between two memories the forest below an array has lost the blocks `gone`
and won the blocks `added`, and no array elsewhere has changed. -/
structure Exchanged (apb : Nat) (level : Nat → Nat) (base : Base) (n : Nat)
    (gone added : Multiset Nat) (m m' : Mem) : Prop where
  tree : m'.forest apb level base n + gone = m.forest apb level base n + added
  ptr : ∀ c, base ≠ .block c → c ∉ m.forest apb level base n → c ∉ added → m'.ptr c = m.ptr c
  iData : base ≠ .inode → m'.iData = m.iData
  nr : m'.nr = m.nr

section Exchange

variable {apb n : Nat} {level : Nat → Nat} {base : Base} {gone added : Multiset Nat}
  {m m' m'' : Mem}

theorem Exchanged.refl : Exchanged apb level base n 0 0 m m :=
  ⟨rfl, fun _ _ _ _ => rfl, fun _ => rfl, rfl⟩

/-- Two losses in a row. -/
theorem Exchanged.trans {gone' : Multiset Nat} (h : Exchanged apb level base n gone 0 m m')
    (h' : Exchanged apb level base n gone' 0 m' m'') :
    Exchanged apb level base n (gone + gone') 0 m m'' := by
  have htree := h.tree
  have htree' := h'.tree
  rw [add_zero] at htree htree'
  refine ⟨?_, fun c hb hc _ => ?_, fun hb => (h'.iData hb).trans (h.iData hb), h'.nr.trans h.nr⟩
  · rw [add_zero, ← htree, ← htree', add_assoc, add_comm gone gone']
  · have hc' : c ∉ m'.forest apb level base n := by
      intro hmem
      rw [← htree] at hc
      exact hc (Multiset.mem_add.mpr (Or.inl hmem))
    rw [h'.ptr c hb hc' (Multiset.notMem_zero c), h.ptr c hb hc (Multiset.notMem_zero c)]

/-- A change below slot `i` is a change of the forest that the slot belongs to. -/
theorem Exchanged.parent {i d x : Nat} (hi : i < n) (hx : m.row base i = x) (hx0 : x ≠ 0)
    (hlevel : level i = d + 1) (hbase : base ≠ .top)
    (h : Exchanged apb (fun _ => d) (.block x) apb gone added m m')
    (hnd : (m.forest apb level base n).Nodup) (hself : Apart base (m.forest apb level base n))
    (hfresh : ∀ c ∈ added, c ∉ m.forest apb level base n ∧ base ≠ .block c) :
    Exchanged apb level base n gone added m m' := by
  have hsub : subtree m.ptr apb (d + 1) x = x ::ₘ m.forest apb (fun _ => d) (.block x) apb :=
    subtree_succ hx0
  have hsub' : subtree m'.ptr apb (d + 1) x = x ::ₘ m'.forest apb (fun _ => d) (.block x) apb :=
    subtree_succ hx0
  have hle : subtree m.ptr apb (d + 1) x ≤ m.forest apb level base n := by
    have hle : subtree m.ptr apb (level i) (m.row base i) ≤ m.forest apb level base n :=
      subtree_le_forest level hi
    rwa [hlevel, hx] at hle
  -- a block of the forest outside the tree below the slot keeps its array
  have hkeep : ∀ c, c ∉ subtree m.ptr apb (d + 1) x → c ∉ added → m'.ptr c = m.ptr c := by
    intro c hc hadd
    rw [hsub, Multiset.mem_cons, not_or] at hc
    exact h.ptr c (fun heq => hc.1 (Base.block.inj heq).symm) hc.2 hadd
  have hrow : m'.row base = m.row base := by
    cases base with
    | inode => exact h.iData (by simp)
    | block b =>
      refine hkeep b (fun hb => hself b rfl (Multiset.mem_of_le hle hb)) fun hb => ?_
      exact (hfresh b hb).2 rfl
    | top => exact absurd rfl hbase
  refine ⟨?_, fun c hb hc hadd => hkeep c (fun hc' => hc (Multiset.mem_of_le hle hc')) hadd,
    fun hb => ?_, h.nr⟩
  · have hmem : i ∈ Finset.range n := Finset.mem_range.mpr hi
    have hrest : ∑ j ∈ (Finset.range n).erase i, subtree m'.ptr apb (level j) (m.row base j) =
        ∑ j ∈ (Finset.range n).erase i, subtree m.ptr apb (level j) (m.row base j) := by
      refine Finset.sum_congr rfl fun j hj => subtree_congr fun c hc k _ => ?_
      have hjn := Finset.mem_range.mp (Finset.mem_of_mem_erase hj)
      have hcf : c ∈ m.forest apb level base n := mem_forest.mpr ⟨j, hjn, hc⟩
      rw [hkeep c (fun hcx => ?_) fun hadd => (hfresh c hadd).1 hcf]
      refine forest_disjoint level hnd hi hjn (Finset.ne_of_mem_erase hj).symm ?_ hc
      rwa [hlevel, hx]
    unfold Mem.forest PtrTree.forest
    rw [hrow, ← Finset.add_sum_erase _ _ hmem, ← Finset.add_sum_erase _ _ hmem, hrest, hlevel, hx,
      hsub, hsub', Multiset.cons_add, Multiset.cons_add, Multiset.cons_add, Multiset.cons_add,
      add_right_comm, h.tree, add_right_comm]
  · cases base with
    | inode => exact absurd rfl hb
    | block b => exact h.iData (by simp)
    | top => exact absurd rfl hbase

end Exchange

/-! ## Walks -/

/-- The entries `chain` lead from an array of block `b`, whose slots have trees
of depth `d`, to an array of block `x`, whose slots have trees of depth `e`. -/
inductive Walk (m : Mem) (apb : Nat) : Nat → Nat → List Indirect → Nat → Nat → Prop
  | last {d b : Nat} {p : Indirect} (base : p.base = .block b) (off : p.off < apb) :
    Walk m apb d b [p] d b
  | down {d b e x : Nat} {p : Indirect} {chain : List Indirect} (base : p.base = .block b)
    (off : p.off < apb) (live : m.ptr b p.off ≠ 0)
    (below : Walk m apb d (m.ptr b p.off) chain e x) : Walk m apb (d + 1) b (p :: chain) e x

/-- A block with everything below its slots. -/
def Mem.whole (m : Mem) (apb d b : Nat) : Multiset Nat :=
  b ::ₘ m.forest apb (fun _ => d) (.block b) apb

theorem Mem.whole_le_forest {m : Mem} {apb d i n : Nat} {level : Nat → Nat} (base : Base)
    (hi : i < n) (hlevel : level i = d + 1) (hx0 : m.row base i ≠ 0) :
    m.whole apb d (m.row base i) ≤ m.forest apb level base n := by
  have hle : subtree m.ptr apb (level i) (m.row base i) ≤ m.forest apb level base n :=
    subtree_le_forest level hi
  rwa [hlevel, subtree_succ hx0] at hle

section Walk

variable {m m' : Mem} {apb d b e x : Nat} {chain : List Indirect} {gone added : Multiset Nat}

/-- A loss leaves no block twice. -/
theorem Exchanged.whole_nodup (h : Exchanged apb (fun _ => d) (.block b) apb gone 0 m m')
    (hnd : (m.whole apb d b).Nodup) : (m'.whole apb d b).Nodup := by
  have htree := h.tree
  rw [add_zero] at htree
  have hle : m'.forest apb (fun _ => d) (.block b) apb ≤ m.forest apb (fun _ => d) (.block b) apb := by
    rw [← htree]
    exact Multiset.le_add_right _ _
  exact Multiset.nodup_of_le (Multiset.cons_le_cons b hle) hnd

theorem Walk.ne_nil (h : Walk m apb d b chain e x) : chain ≠ [] := by
  cases h with
  | last => simp
  | down => simp

theorem Walk.length (h : Walk m apb d b chain e x) : e + chain.length = d + 1 := by
  induction h with
  | last => simp
  | down _ _ _ _ ih => simp only [List.length_cons]; omega

theorem lastEntry_cons (p : Indirect) {chain : List Indirect} (h : chain ≠ []) :
    lastEntry (p :: chain) = lastEntry chain := by
  obtain ⟨q, rest, rfl⟩ := List.exists_cons_of_ne_nil h
  simp [lastEntry, List.getLastD]

theorem Walk.lastEntry_eq (h : Walk m apb d b chain e x) :
    (lastEntry chain).base = .block x ∧ (lastEntry chain).off < apb := by
  induction h with
  | last base off => exact ⟨base, off⟩
  | down _ _ _ below ih =>
    rw [lastEntry_cons _ below.ne_nil]
    exact ih

/-- Only the last entry of a walk may be moved in its array. -/
theorem Walk.setLast {p q : Indirect} (hbase : q.base = p.base) (hoff : q.off < apb) :
    ∀ {front : List Indirect} {d b : Nat}, Walk m apb d b (front ++ [p]) e x →
    Walk m apb d b (front ++ [q]) e x := by
  intro front
  induction front with
  | nil =>
    intro d b h
    cases h with
    | last base off => exact .last (hbase.trans base) hoff
    | down _ _ _ below => exact absurd rfl below.ne_nil
  | cons r front ih =>
    intro d b h
    obtain ⟨s, rest, hrest⟩ := List.exists_cons_of_ne_nil (l := front ++ [p]) (by simp)
    rw [List.cons_append, hrest] at h
    cases h with
    | down base off live below => exact .down base off live (ih (hrest ▸ below))

theorem Walk.take {j : Nat} (h : Walk m apb d b chain e x) (hj : 0 < j) :
    ∃ e x, Walk m apb d b (chain.take j) e x := by
  induction h generalizing j with
  | last base off =>
    obtain ⟨j, rfl⟩ := Nat.exists_eq_succ_of_ne_zero hj.ne'
    exact ⟨_, _, by simpa using .last base off⟩
  | @down d b e x p chain base off live below ih =>
    obtain ⟨j, rfl⟩ := Nat.exists_eq_succ_of_ne_zero hj.ne'
    rw [List.take_succ_cons]
    by_cases hj0 : j = 0
    · subst hj0
      exact ⟨_, _, by simpa using .last base off⟩
    · obtain ⟨e', x', h'⟩ := ih (Nat.pos_of_ne_zero hj0)
      exact ⟨e', x', .down base off live h'⟩

/-- The block in which a walk ends lies in the tree in which it starts. -/
theorem Walk.whole_le (h : Walk m apb d b chain e x) : m.whole apb e x ≤ m.whole apb d b := by
  induction h with
  | last => exact le_refl _
  | @down d b e x p chain base off live below ih =>
    have hle : m.whole apb d (m.ptr b p.off) ≤ m.forest apb (fun _ => d + 1) (.block b) apb :=
      Mem.whole_le_forest (.block b) off rfl live
    exact le_trans ih (le_trans hle (Multiset.le_cons_self _ _))

/-- A change at the end of a walk is a change where the walk starts. -/
theorem Walk.lift (h : Walk m apb d b chain e x)
    (hex : Exchanged apb (fun _ => e) (.block x) apb gone added m m')
    (hnd : (m.whole apb d b).Nodup) (hfresh : ∀ c ∈ added, c ∉ m.whole apb d b) :
    Exchanged apb (fun _ => d) (.block b) apb gone added m m' := by
  induction h with
  | last => exact hex
  | @down d b e x p chain base off live below ih =>
    have hle : m.whole apb d (m.ptr b p.off) ≤ m.forest apb (fun _ => d + 1) (.block b) apb :=
      Mem.whole_le_forest (.block b) off rfl live
    obtain ⟨hb, hfor⟩ := Multiset.nodup_cons.mp hnd
    have hbelow := ih hex (Multiset.nodup_of_le hle hfor) fun c hc hm =>
      hfresh c hc (Multiset.mem_cons_of_mem (Multiset.mem_of_le hle hm))
    refine hbelow.parent off rfl live rfl (by simp) hfor ?_ fun c hc => ?_
    · rintro c hc
      rwa [← Base.block.inj hc]
    · have hout := hfresh c hc
      rw [Mem.whole, Multiset.mem_cons, not_or] at hout
      exact ⟨hout.2, fun heq => hout.1 (Base.block.inj heq).symm⟩

/-- The entries of a quiet look-up below a block are a walk. -/
theorem Mem.walk_spec (offsets : List Nat) : ∀ {d b : Nat}, offsets ≠ [] →
    offsets.length ≤ d + 1 → (∀ o ∈ offsets, o < apb) →
    ∃ e x, Walk m apb d b (m.walk b offsets) e x := by
  induction offsets with
  | nil => exact fun h => absurd rfl h
  | cons off offsets ih =>
    intro d b _ hlen hoff
    have hlast : ∀ d, Walk m apb d b [addChain m (.block b) off] d b :=
      fun d => .last rfl (hoff off (by simp))
    by_cases hz : m.ptr b off = 0
    · exact ⟨d, b, by simpa [Mem.walk, hz] using hlast d⟩
    · by_cases hnil : offsets = []
      · exact ⟨d, b, by simpa [Mem.walk, hz, hnil] using hlast d⟩
      · have hlen' : offsets.length ≤ d - 1 + 1 ∧ 1 ≤ d := by
          have := List.length_pos_of_ne_nil hnil
          simp only [List.length_cons] at hlen
          omega
        obtain ⟨e, x, h⟩ := ih (b := m.ptr b off) hnil hlen'.1 fun o ho => hoff o (by simp [ho])
        obtain ⟨d, rfl⟩ : ∃ d', d = d' + 1 := ⟨d - 1, by omega⟩
        refine ⟨e, x, ?_⟩
        simp only [Mem.walk, hz, if_false]
        exact .down rfl (hoff off (by simp)) hz h

/-- How far a quiet look-up gets, and the slot in which it ends. -/
theorem Mem.walk_last (offsets : List Nat) : ∀ {b : Nat}, offsets ≠ [] →
    1 ≤ (m.walk b offsets).length ∧ (m.walk b offsets).length ≤ offsets.length ∧
      (lastEntry (m.walk b offsets)).off = offsets.getD ((m.walk b offsets).length - 1) 0 := by
  induction offsets with
  | nil => exact fun h => absurd rfl h
  | cons off offsets ih =>
    intro b _
    by_cases hz : m.ptr b off = 0
    · simp [Mem.walk, hz, lastEntry, addChain]
    · by_cases hnil : offsets = []
      · simp [Mem.walk, hz, hnil, lastEntry, addChain]
      · obtain ⟨h1, h2, h3⟩ := ih (b := m.ptr b off) hnil
        have hne : m.walk (m.ptr b off) offsets ≠ [] := List.ne_nil_of_length_pos h1
        simp only [Mem.walk, hz, if_false, List.length_cons, lastEntry_cons _ hne, h3]
        refine ⟨by omega, by omega, ?_⟩
        obtain ⟨l, hl⟩ : ∃ l, (m.walk (m.ptr b off) offsets).length = l + 1 :=
          ⟨_, (Nat.sub_add_cancel h1).symm⟩
        simp [hl]

/-- Where the chain of a quiet look-up ends: in the inode, or in an array that a
walk from the slot of the inode leads to. -/
theorem Mem.chain_place {offsets : List Nat} (hpath : IsPath apb offsets) :
    1 ≤ (m.chain offsets).length ∧ (m.chain offsets).length ≤ offsets.length ∧
      (lastEntry (m.chain offsets)).off = offsets.getD ((m.chain offsets).length - 1) 0 ∧
      (((m.chain offsets).length = 1 ∧ (lastEntry (m.chain offsets)).base = .inode) ∨
        ∃ x, 2 ≤ offsets.length ∧ m.iData (offsets.headD 0) ≠ 0 ∧
          (lastEntry (m.chain offsets)).base = .block x ∧
          Walk m apb (offsets.length - 2) (m.iData (offsets.headD 0)) (m.chain offsets).tail
            (offsets.length - (m.chain offsets).length) x) := by
  obtain ⟨o, os, rfl⟩ := List.exists_cons_of_ne_nil hpath.ne_nil
  by_cases hz : m.iData o = 0
  · simp [Mem.chain, hz, lastEntry, addChain]
  · by_cases hnil : os = []
    · simp [Mem.chain, hz, hnil, lastEntry, addChain, Mem.walk]
    · have hpos := List.length_pos_of_ne_nil hnil
      obtain ⟨h1, h2, h3⟩ := Mem.walk_last (m := m) (b := m.iData o) os hnil
      have hne : m.walk (m.iData o) os ≠ [] := List.ne_nil_of_length_pos h1
      obtain ⟨e, x, hwalk⟩ : ∃ e x, Walk m apb (os.length - 1) (m.iData o)
          (m.walk (m.iData o) os) e x := Mem.walk_spec os hnil (by omega) hpath.tail_lt
      have hlen := hwalk.length
      have hchain : m.chain (o :: os) = addChain m .inode o :: m.walk (m.iData o) os := by
        simp [Mem.chain, hz]
      rw [hchain]
      simp only [List.length_cons, lastEntry_cons _ hne, List.tail_cons, List.headD_cons, h3]
      refine ⟨by omega, by omega, ?_, Or.inr ⟨x, by omega, hz, hwalk.lastEntry_eq.1, ?_⟩⟩
      · obtain ⟨l, hl⟩ : ∃ l, (m.walk (m.iData o) os).length = l + 1 :=
          ⟨_, (Nat.sub_add_cancel h1).symm⟩
        simp [hl]
      · have he : os.length + 1 - ((m.walk (m.iData o) os).length + 1) = e := by omega
        rw [he]
        exact hwalk

end Walk

end KrFs
