import KrFs.Truncate

/-!
# Truncation cuts the tree

`__kr_truncate_blocks` frees parts of the tree in three places: the top of the
branch that `kr_find_shared` detaches, the ends of the indirect blocks that
stay, and the whole trees behind the slot of the inode. Each is a cut of the
array it happens in; together the blocks handed to `kr_free_blocks` are those
the file has lost.
-/

namespace KrFs

open SearchTree PtrTree

section Cut

variable {bread readPath : Nat → Bool} {apb n d p k : Nat} {level : Nat → Nat} {base : Base}
  {m m1 : Mem} {res : Mem × List (Nat × Nat)}

/-- The slots of a run have trees of one depth. -/
theorem Mem.slice_eq (hlevel : ∀ i, p ≤ i → i < p + k → level i = d) :
    PtrTree.slice m.ptr apb level (m.row base) p k = m.slice apb d base p k := by
  refine Finset.sum_congr rfl fun i hi => ?_
  have := Finset.mem_range.mp hi
  rw [hlevel (p + i) (by omega) (by omega)]

theorem Mem.slice_le_forest (hlevel : ∀ i, p ≤ i → i < p + k → level i = d) (hpk : p + k ≤ n) :
    m.slice apb d base p k ≤ m.forest apb level base n := by
  rw [← Mem.slice_eq hlevel]
  unfold PtrTree.slice Mem.forest PtrTree.forest
  have hsub : Finset.Ico p (p + k) ⊆ Finset.range n := by
    intro i hi
    have := Finset.mem_Ico.mp hi
    exact Finset.mem_range.mpr (by omega)
  have hle := Finset.sum_le_sum_of_subset (f := fun i => subtree m.ptr apb (level i)
    (m.row base i)) hsub
  rwa [Finset.sum_Ico_eq_sum_range, Nat.add_sub_cancel_left] at hle

/-- Freeing a run of slots is a loss of the forest they belong to. -/
theorem Freed.exchanged (h : Freed apb d base p k m res) (hbase : base ≠ .top)
    (hlevel : ∀ i, p ≤ i → i < p + k → level i = d) (hpk : p + k ≤ n)
    (hnd : (m.forest apb level base n).Nodup) (hself : Apart base (m.forest apb level base n)) :
    Exchanged apb level base n (callBlocks res.2) 0 m res.1 := by
  have hle : m.slice apb d base p k ≤ m.forest apb level base n := Mem.slice_le_forest hlevel hpk
  have hother : ∀ c, base ≠ .block c → c ∉ m.slice apb d base p k → res.1.ptr c = m.ptr c := by
    intro c hb hc
    exact h.cleared.others (.block c) hb.symm fun c' hc' => Base.block.inj hc' ▸ hc
  refine ⟨?_, fun c hb hc _ => hother c hb fun hcs => hc (Multiset.mem_of_le hle hcs),
    fun hb => ?_, ?_⟩
  · rw [add_zero, h.blocks, ← Mem.slice_eq hlevel]
    refine forest_cut hpk hnd h.cleared.zero (fun i _ => h.cleared.keep i) fun c hc hcs i _ => ?_
    rw [Mem.slice_eq hlevel] at hcs
    rw [hother c (fun hb => hself c hb hc) hcs]
  · exact h.cleared.others .inode hb.symm (by simp)
  · have htop := congrFun (h.cleared.others .top hbase.symm (by simp)) 0
    simpa [Mem.row] using htop

/-- Detaching a pointer and freeing the tree below it frees its slot. -/
theorem freeTop_freed (hread : ∀ b, bread b = true) {off : Nat} (hbase : base ≠ .top)
    (hnr : m.nr = 0) (hnd : (m.slice apb d base off 1).Nodup)
    (hself : Apart base (m.slice apb d base off 1)) :
    Freed apb d base off 1 m (freeTop bread apb d (m.write base off 0) (m.row base off)) := by
  have hslice : m.slice apb d base off 1 = subtree m.ptr apb d (m.row base off) := by
    rw [Mem.slice, slice_succ, slice_zero, add_zero]
  have hwrite : ∀ j, (m.write base off 0).row base j = if j = off then 0 else m.row base j :=
    fun j => m.row_write_self base off j fun ht => absurd ht hbase
  by_cases hz : m.row base off = 0
  · have hres : freeTop bread apb d (m.write base off 0) (m.row base off) =
        (m.write base off 0, []) := by simp [freeTop, hz]
    rw [hres]
    refine ⟨⟨fun i h1 h2 => ?_, fun i hi => ?_, fun b hb _ => m.row_write_ne hb off 0⟩, ?_, by simp⟩
    · rw [hwrite, if_pos (by omega)]
    · rw [hwrite, if_neg (by omega)]
    · rw [hslice, hz, subtree_null, callBlocks_nil]
  · set m2 : Mem := { m.write base off 0 with nr := m.row base off } with hm2
    have hres : freeTop bread apb d (m.write base off 0) (m.row base off) =
        krFreeBranches bread apb d .top m2 0 (0 + 1) := by simp [freeTop, hz, hm2]
    have hrow2 : ∀ b, b ≠ .top → m2.row b = (m.write base off 0).row b := by
      intro b hb
      cases b with
      | inode => rfl
      | block c => rfl
      | top => exact absurd rfl hb
    -- the tree below the detached pointer is the tree below the slot
    have hsame : m2.slice apb d .top 0 1 = m.slice apb d base off 1 := by
      rw [hslice, Mem.slice, slice_succ, slice_zero, add_zero]
      have hval : m2.row .top 0 = m.row base off := by simp [Mem.row, hm2]
      rw [hval]
      refine subtree_congr fun c hc i _ => ?_
      have hc' : Base.block c ≠ base := fun heq => hself c heq.symm (hslice ▸ hc)
      exact congrFun ((hrow2 (.block c) (by simp)).trans (m.row_write_ne hc' off 0)) i
    have hone : Base.top = .top → 0 + 1 ≤ 1 := fun _ => le_refl _
    have hapart : Apart .top (m2.slice apb d .top 0 1) := by simp [Apart]
    obtain ⟨hcl, hblocks, hpos⟩ := krFreeBranches_freed hread apb d hone (hsame ▸ hnd) hapart
    rw [hsame] at hcl hblocks
    rw [hres]
    have hself' : (krFreeBranches bread apb d .top m2 0 (0 + 1)).1.row base =
        (m.write base off 0).row base :=
      (hcl.others base hbase hself).trans (hrow2 base hbase)
    refine ⟨⟨fun i h1 h2 => ?_, fun i hi => ?_, fun b hb hgone => ?_⟩, hblocks, hpos⟩
    · rw [hself', hwrite, if_pos (by omega)]
    · rw [hself', hwrite, if_neg (by omega)]
    · by_cases hbt : b = .top
      · subst hbt
        funext i
        by_cases hi : i = 0
        · rw [hi, hcl.zero 0 (by omega) (by omega)]
          simp [Mem.row, hnr]
        · simp [Mem.row, hi]
      · rw [hcl.others b hbt hgone, hrow2 b hbt, m.row_write_ne hb]

theorem freeTop_exchanged (hread : ∀ b, bread b = true) {off : Nat} (hbase : base ≠ .top)
    (hnr : m.nr = 0) (hoff : off < n) (hlevel : level off = d)
    (hnd : (m.forest apb level base n).Nodup) (hself : Apart base (m.forest apb level base n)) :
    let res := freeTop bread apb d (m.write base off 0) (m.row base off)
    Exchanged apb level base n (callBlocks res.2) 0 m res.1 ∧ ∀ c ∈ res.2, 0 < c.2 := by
  intro res
  have hlevel' : ∀ i, off ≤ i → i < off + 1 → level i = d := by
    intro i h1 h2
    obtain rfl : i = off := by omega
    exact hlevel
  have hle : m.slice apb d base off 1 ≤ m.forest apb level base n :=
    Mem.slice_le_forest hlevel' hoff
  have hfreed := freeTop_freed hread hbase hnr (Multiset.nodup_of_le hle hnd)
    fun b hb hm => hself b hb (Multiset.mem_of_le hle hm)
  exact ⟨hfreed.exchanged hbase hlevel' hoff hnd hself, hfreed.pos⟩

/-- Freeing the end of an array of a block, from slot `off + 1` on. -/
theorem krFreeBranches_end (hread : ∀ b, bread b = true) {b off : Nat} (hoff : off < apb)
    (hnd : (m.whole apb d b).Nodup) :
    let res := krFreeBranches bread apb d (.block b) m (off + 1) apb
    Exchanged apb (fun _ => d) (.block b) apb (callBlocks res.2) 0 m res.1 ∧
      ∀ c ∈ res.2, 0 < c.2 := by
  intro res
  obtain ⟨hb, hfor⟩ := Multiset.nodup_cons.mp hnd
  obtain ⟨k, hk⟩ : ∃ k, apb = off + 1 + k := ⟨apb - (off + 1), by omega⟩
  have hself : Apart (.block b) (m.forest apb (fun _ => d) (.block b) apb) := by
    intro c hc
    rwa [← Base.block.inj hc]
  have hle : m.slice apb d (.block b) (off + 1) k ≤ m.forest apb (fun _ => d) (.block b) apb :=
    Mem.slice_le_forest (fun _ _ _ => rfl) hk.ge
  have hres : res = krFreeBranches bread apb d (.block b) m (off + 1) (off + 1 + k) := by
    rw [← hk]
  have hblock : Base.block b = .top → off + 1 + k ≤ 1 := fun ht => by cases ht
  have hfreed := krFreeBranches_freed hread apb d hblock (Multiset.nodup_of_le hle hfor)
    fun c hc hm => hself c hc (Multiset.mem_of_le hle hm)
  rw [← hres] at hfreed
  exact ⟨hfreed.exchanged (by simp) (fun _ _ _ => rfl) hk.ge hfor hself, hfreed.pos⟩

/-- Clearing the ends along a walk is a loss of the tree in which it starts,
after anything that was lost at its end. -/
theorem clearEnds_exchanged (hread : ∀ b, bread b = true) {b e x : Nat} {chain : List Indirect}
    {gone : Multiset Nat} (hwalk : Walk m apb d b chain e x) (hnd : (m.whole apb d b).Nodup)
    (htop : Exchanged apb (fun _ => e) (.block x) apb gone 0 m m1) :
    let res := clearEnds bread apb d m1 chain
    Exchanged apb (fun _ => d) (.block b) apb (gone + callBlocks res.2) 0 m res.1 ∧
      ∀ c ∈ res.2, 0 < c.2 := by
  induction hwalk with
  | @last d b p base off =>
    intro res
    obtain ⟨hend, hpos⟩ := krFreeBranches_end hread off (htop.whole_nodup hnd)
    have hres : res = krFreeBranches bread apb d (.block b) m1 (p.off + 1) apb := by
      simp [res, clearEnds, base]
    rw [hres]
    exact ⟨htop.trans hend, hpos⟩
  | @down d b e x p chain base off live below ih =>
    intro res
    have hle : m.whole apb d (m.ptr b p.off) ≤ m.forest apb (fun _ => d + 1) (.block b) apb :=
      Mem.whole_le_forest (.block b) off rfl live
    obtain ⟨hb, hfor⟩ := Multiset.nodup_cons.mp hnd
    have hself : Apart (.block b) (m.forest apb (fun _ => d + 1) (.block b) apb) := by
      intro c hc
      rwa [← Base.block.inj hc]
    obtain ⟨hbelow, hpos⟩ := ih (Multiset.nodup_of_le hle hfor) htop
    have hup : Exchanged apb (fun _ => d + 1) (.block b) apb
        (gone + callBlocks (clearEnds bread apb d m1 chain).2) 0 m
        (clearEnds bread apb d m1 chain).1 :=
      hbelow.parent off rfl live rfl (by simp) hfor hself (by simp)
    obtain ⟨hend, hpos'⟩ := krFreeBranches_end hread off (hup.whole_nodup hnd)
    have hres : res = ((krFreeBranches bread apb (d + 1) (.block b)
        (clearEnds bread apb d m1 chain).1 (p.off + 1) apb).1,
        (clearEnds bread apb d m1 chain).2 ++ (krFreeBranches bread apb (d + 1) (.block b)
          (clearEnds bread apb d m1 chain).1 (p.off + 1) apb).2) := by
      simp [res, clearEnds, base]
    rw [hres]
    refine ⟨?_, fun c hc => ?_⟩
    · rw [callBlocks_append, ← add_assoc]
      exact hup.trans hend
    · rcases List.mem_append.mp hc with hc | hc
      · exact hpos c hc
      · exact hpos' c hc

theorem sharedDepth_bounds (offsets : List Nat) : ∀ n : Nat, 1 ≤ n →
    1 ≤ sharedDepth offsets n ∧ sharedDepth offsets n ≤ n
  | 0, h => absurd h (by omega)
  | 1, _ => ⟨le_refl _, le_refl _⟩
  | n + 2, _ => by
    have ih := sharedDepth_bounds offsets (n + 1) (by omega)
    unfold sharedDepth
    split
    · omega
    · omega

theorem sharedIndex_le (m : Mem) (chain : List Indirect) (j : Nat) :
    sharedIndex m chain j ≤ j := by
  induction j with
  | zero => exact le_refl _
  | succ j ih =>
    unfold sharedIndex
    dsimp only
    split
    · omega
    · exact le_refl _

theorem take_succ_getD {α : Type} (l : List α) (j : Nat) (a : α) (hj : j < l.length) :
    l.take (j + 1) = l.take j ++ [l.getD j a] := by
  rw [List.take_succ_eq_append_getElem hj, List.getD_eq_getElem l a hj]

/-- `kr_find_shared` when its reads succeed: the chain is that of a quiet look-up
and nothing has continued the branch meanwhile. -/
theorem krFindShared_quiet (hread : ∀ i, readPath i = true) {offsets : List Nat}
    (hne : offsets ≠ []) {k j : Nat} {chain : List Indirect} {p : Indirect}
    (hk : k = sharedDepth offsets offsets.length) (hchain : chain = m.chain (offsets.take k))
    (hj : j = sharedIndex m chain (chain.length - 1)) (hp : p = chain.getD j ⟨.inode, 0, 0⟩) :
    krFindShared readPath m offsets =
      if j = k - 1 && 0 < j then (m, 0, chain.take j ++ [{ p with off := p.off - 1 }])
      else (m.write p.base p.off 0, m.row p.base p.off, chain.take (j + 1)) := by
  have hk1 := (sharedDepth_bounds offsets offsets.length (List.length_pos_of_ne_nil hne)).1
  have hpre : offsets.take k ≠ [] := by
    refine List.ne_nil_of_length_pos ?_
    rw [List.length_take]
    have := List.length_pos_of_ne_nil hne
    omega
  have hbranch : (krGetBranch (fun _ => m) readPath (offsets.take k)).chain = chain := by
    rw [krGetBranch_quiet m hread hpre, hchain]
  have hchainNe : chain ≠ [] := by
    obtain ⟨o, os, ho⟩ := List.exists_cons_of_ne_nil hpre
    rw [hchain, ho]
    simp [Mem.chain]
  have hkey : ¬ ((lastEntry chain).key = 0 &&
      m.row (lastEntry chain).base (lastEntry chain).off != 0) = true := by
    have hv := verifyChain_chain m (offsets.take k)
    rw [← hchain] at hv
    rw [← verifyChain_lastEntry hv hchainNe]
    simp
  unfold krFindShared
  dsimp only
  rw [← hk, hbranch, if_neg hkey, ← hj, ← hp]

/-- The three results `kr_find_shared` can have when its reads succeed: nothing
of the file stays on the branch, so it is detached at the inode; it is detached
in an indirect block that stays; or nothing is detached and the last entry moves
one slot to the left. -/
theorem krFindShared_cases (hread : ∀ i, readPath i = true) {o : Nat} {os : List Nat}
    (hlt : ∀ i ∈ os, i < apb) (hos : os ≠ []) :
    (∃ q, krFindShared readPath m (o :: os) = (m.write .inode o 0, m.iData o, [q])) ∨
    (m.iData o ≠ 0 ∧ ∃ q front p e x, Walk m apb (os.length - 1) (m.iData o) (front ++ [p]) e x ∧
      (krFindShared readPath m (o :: os) =
          (m.write (.block x) p.off 0, m.ptr x p.off, q :: (front ++ [p])) ∨
        krFindShared readPath m (o :: os) = (m, 0, q :: (front ++ [p])))) := by
  set k := sharedDepth (o :: os) (o :: os).length with hk
  obtain ⟨hk1, hkn⟩ := sharedDepth_bounds (o :: os) (o :: os).length (by simp)
  rw [← hk] at hk1 hkn
  obtain ⟨k', hk'⟩ : ∃ k', k = k' + 1 := ⟨k - 1, by omega⟩
  set q := addChain m .inode o with hq
  set tl := (if m.iData o = 0 then [] else m.walk (m.iData o) (os.take k')) with htl
  have hchain : q :: tl = m.chain ((o :: os).take k) := by
    rw [hk', List.take_succ_cons]
    rfl
  set j := sharedIndex m (q :: tl) ((q :: tl).length - 1) with hj
  have hjle : j ≤ tl.length := sharedIndex_le m (q :: tl) ((q :: tl).length - 1)
  have hshared := krFindShared_quiet hread (List.cons_ne_nil o os) hk hchain hj rfl
  by_cases hj0 : j = 0
  · refine Or.inl ⟨q, ?_⟩
    rw [hshared, hj0]
    simp [hq, addChain, Mem.row]
  · -- the branch stays in the block of entry `j`
    obtain ⟨i, hi⟩ : ∃ i, j = i + 1 := ⟨j - 1, by omega⟩
    have hilt : i < tl.length := by omega
    have hlive : m.iData o ≠ 0 := by
      intro hz
      simp [htl, hz] at hilt
    have htl' : tl = m.walk (m.iData o) (os.take k') := by rw [htl, if_neg hlive]
    have hk0 : os.take k' ≠ [] := by
      intro hnil
      simp [htl', hnil, Mem.walk] at hilt
    have hlen : (os.take k').length ≤ os.length - 1 + 1 := by
      have := List.length_pos_of_ne_nil hos
      rw [List.length_take]
      omega
    have hoffs : ∀ r ∈ os.take k', r < apb := fun r hr => hlt r (List.mem_of_mem_take hr)
    obtain ⟨e, x, hwalk⟩ : ∃ e x, Walk m apb (os.length - 1) (m.iData o) tl e x := by
      rw [htl']
      exact Mem.walk_spec (os.take k') hk0 hlen hoffs
    obtain ⟨e', x', hwalk'⟩ := hwalk.take (show 0 < i + 1 by omega)
    rw [take_succ_getD tl i ⟨.inode, 0, 0⟩ hilt] at hwalk'
    set p := tl.getD i ⟨.inode, 0, 0⟩ with hp
    have hget : (q :: tl).getD j ⟨.inode, 0, 0⟩ = p := by rw [hi, hp]; simp
    obtain ⟨hbase, hoff⟩ := hwalk'.lastEntry_eq
    have hlast : lastEntry (tl.take i ++ [p]) = p := by simp [lastEntry]
    rw [hlast] at hbase hoff
    rw [hget] at hshared
    refine Or.inr ⟨hlive, q, tl.take i, ?_⟩
    by_cases hcheat : (j = k - 1 && 0 < j) = true
    · have hmoved : Walk m apb (os.length - 1) (m.iData o)
          (tl.take i ++ [{ p with off := p.off - 1 }]) e' x' :=
        Walk.setLast (p := p) (q := { p with off := p.off - 1 }) rfl
          (Nat.lt_of_le_of_lt (Nat.sub_le _ _) hoff) hwalk'
      refine ⟨_, e', x', hmoved, Or.inr ?_⟩
      rw [hshared, if_pos hcheat, hi, List.take_succ_cons, List.cons_append]
    · refine ⟨p, e', x', hwalk', Or.inl ?_⟩
      rw [hshared, if_neg hcheat, hbase, hi, List.take_succ_cons,
        take_succ_getD tl i ⟨.inode, 0, 0⟩ hilt]
      rfl

/-- The shared branch of a truncation: its top and the ends of its blocks. -/
theorem truncateBranch_exchanged (hpath : ∀ i, readPath i = true) (hread : ∀ b, bread b = true)
    {o : Nat} {os : List Nat} (hlt : ∀ i ∈ os, i < apb) (hos : os ≠ []) (ho : o = 11 + os.length)
    (ho15 : o < 15) (hnr : m.nr = 0) (hnd : (m.fileTree apb).Nodup) :
    let shared := krFindShared readPath m (o :: os)
    let top := freeTop bread apb ((o :: os).length - shared.2.2.length) shared.1 shared.2.1
    let ends := clearEnds bread apb ((o :: os).length - 2) top.1 shared.2.2.tail
    Exchanged apb (fun slot => slot - 11) .inode 15 (callBlocks (top.2 ++ ends.2)) 0 m ends.1 ∧
      ∀ c ∈ top.2 ++ ends.2, 0 < c.2 := by
  intro shared top ends
  have hpos := List.length_pos_of_ne_nil hos
  obtain ⟨q, hshared⟩ | ⟨hlive, q, front, p, e, x, hwalk, hshared⟩ :=
    krFindShared_cases (m := m) (o := o) hpath hlt hos
  · have hdepth : (o :: os).length - 1 = o - 11 := by simp only [List.length_cons]; omega
    have htop : top = freeTop bread apb (o - 11) (m.write .inode o 0) (m.row .inode o) := by
      simp only [top, shared, hshared, List.length_singleton, hdepth]
      rfl
    have hends : ends = (top.1, []) := by simp [ends, shared, hshared, clearEnds]
    rw [hends, htop, List.append_nil]
    exact freeTop_exchanged hread (by simp) hnr ho15 rfl hnd
      (by simp [Apart])
  · have hlevel : o - 11 = (os.length - 1) + 1 := by omega
    have hle : m.whole apb (os.length - 1) (m.iData o) ≤ m.fileTree apb :=
      Mem.whole_le_forest .inode ho15 hlevel hlive
    have hnd' := Multiset.nodup_of_le hle hnd
    have hlen : (o :: os).length - 2 = os.length - 1 := by simp
    have hends : ends = clearEnds bread apb (os.length - 1) top.1 (front ++ [p]) := by
      rcases hshared with hshared | hshared
      · simp [ends, shared, hshared]
      · simp [ends, shared, hshared]
    -- what is lost at the end of the walk
    have hend : Exchanged apb (fun _ => e) (.block x) apb (callBlocks top.2) 0 m top.1 ∧
        ∀ c ∈ top.2, 0 < c.2 := by
      rcases hshared with hshared | hshared
      · have hdepth : (o :: os).length - shared.2.2.length = e := by
          have := hwalk.length
          simp only [shared, hshared, List.length_cons, List.length_append, List.length_nil] at this ⊢
          omega
        have htop : top = freeTop bread apb e (m.write (.block x) p.off 0)
            (m.row (.block x) p.off) := by
          simp only [top, hdepth]
          simp only [shared, hshared]
          rfl
        have hoff : p.off < apb := by
          have := hwalk.lastEntry_eq.2
          simpa [lastEntry] using this
        obtain ⟨hx, hfor⟩ := Multiset.nodup_cons.mp (Multiset.nodup_of_le hwalk.whole_le hnd')
        rw [htop]
        exact freeTop_exchanged hread (by simp) hnr hoff rfl hfor
          fun c hc => Base.block.inj hc ▸ hx
      · have htop : top = (m, []) := by simp [top, shared, hshared, freeTop]
        rw [htop]
        exact ⟨Exchanged.refl, by simp⟩
    obtain ⟨hbelow, hposEnds⟩ := clearEnds_exchanged hread hwalk hnd' hend.1
    rw [hends]
    refine ⟨?_, fun c hc => ?_⟩
    · rw [callBlocks_append]
      exact hbelow.parent ho15 rfl hlive hlevel (by simp) hnd (by simp [Apart]) (by simp)
    · rcases List.mem_append.mp hc with hc | hc
      · exact hend.2 c hc
      · exact hposEnds c hc

/-- A loss of the file leaves no block twice. -/
theorem Exchanged.fileTree_nodup {gone : Multiset Nat}
    (h : Exchanged apb (fun slot => slot - 11) .inode 15 gone 0 m m1)
    (hnd : (m.fileTree apb).Nodup) : (m1.fileTree apb).Nodup := by
  have htree : m1.fileTree apb + gone = m.fileTree apb + 0 := h.tree
  rw [add_zero] at htree
  rw [← htree] at hnd
  exact (Multiset.nodup_add.mp hnd).1

theorem killWhole_exchanged (hread : ∀ b, bread b = true) {slot : Nat} (hslot : slot < 15)
    (hnr : m.nr = 0) (hnd : (m.fileTree apb).Nodup) :
    Exchanged apb (fun slot => slot - 11) .inode 15 (callBlocks (killWhole bread apb slot m).2) 0 m
        (killWhole bread apb slot m).1 ∧
      ∀ c ∈ (killWhole bread apb slot m).2, 0 < c.2 := by
  unfold killWhole
  dsimp only
  split
  · exact ⟨Exchanged.refl, by simp⟩
  · exact freeTop_exchanged hread (by simp) hnr hslot rfl hnd (by simp [Apart])

theorem killWholes_exchanged (hread : ∀ b, bread b = true) (first : Nat) (slots : List Nat) :
    ∀ {m : Mem}, (∀ slot ∈ slots, slot < 15) → m.nr = 0 → (m.fileTree apb).Nodup →
    Exchanged apb (fun slot => slot - 11) .inode 15
        (callBlocks (killWholes bread apb first slots m).2) 0 m
        (killWholes bread apb first slots m).1 ∧
      ∀ c ∈ (killWholes bread apb first slots m).2, 0 < c.2 := by
  induction slots with
  | nil => exact fun _ _ _ => ⟨Exchanged.refl, by simp [killWholes]⟩
  | cons slot slots ih =>
    intro m hslots hnr hnd
    set here := (if first < slot then killWhole bread apb slot m else (m, [])) with hhere
    have hone : Exchanged apb (fun slot => slot - 11) .inode 15 (callBlocks here.2) 0 m here.1 ∧
        ∀ c ∈ here.2, 0 < c.2 := by
      by_cases hfirst : first < slot
      · rw [hhere, if_pos hfirst]
        exact killWhole_exchanged hread (hslots slot (by simp)) hnr hnd
      · rw [hhere, if_neg hfirst]
        exact ⟨Exchanged.refl, by simp⟩
    obtain ⟨hrest, hpos⟩ := ih (m := here.1) (fun s hs => hslots s (by simp [hs]))
      (hone.1.nr.trans hnr) (hone.1.fileTree_nodup hnd)
    have hres : killWholes bread apb first (slot :: slots) m =
        ((killWholes bread apb first slots here.1).1,
          here.2 ++ (killWholes bread apb first slots here.1).2) := rfl
    rw [hres]
    refine ⟨?_, fun c hc => ?_⟩
    · rw [callBlocks_append]
      exact hone.1.trans hrest
    · rcases List.mem_append.mp hc with hc | hc
      · exact hone.2 c hc
      · exact hpos c hc

/-- The part of a truncation before `do_indirects`. -/
def truncateFirst (readPath bread : Nat → Bool) (apb : Nat) (offsets : List Nat) (m : Mem) :
    Mem × List (Nat × Nat) :=
  if offsets.length = 1 then krFreeData .inode m (offsets.headD 0) KR_NDIR_BLOCKS
  else
    let shared := krFindShared readPath m offsets
    let top := freeTop bread apb (offsets.length - shared.2.2.length) shared.1 shared.2.1
    let ends := clearEnds bread apb (offsets.length - 2) top.1 shared.2.2.tail
    (ends.1, top.2 ++ ends.2)

theorem truncatePtrs_eq (readPath bread : Nat → Bool) (apb : Nat) (offsets : List Nat) (m : Mem) :
    truncatePtrs readPath bread apb offsets m =
      let first := truncateFirst readPath bread apb offsets m
      let rest := killWholes bread apb (offsets.headD 0)
        [KR_IND_BLOCK, KR_DIND_BLOCK, KR_TIND_BLOCK] first.1
      (rest.1, first.2 ++ rest.2) := rfl

theorem truncateFirst_exchanged (hpath : ∀ i, readPath i = true) (hread : ∀ b, bread b = true)
    {offsets : List Nat} (hoffs : IsPath apb offsets) (hnr : m.nr = 0)
    (hnd : (m.fileTree apb).Nodup) :
    let res := truncateFirst readPath bread apb offsets m
    Exchanged apb (fun slot => slot - 11) .inode 15 (callBlocks res.2) 0 m res.1 ∧
      ∀ c ∈ res.2, 0 < c.2 := by
  intro res
  obtain ⟨o, os, rfl⟩ := List.exists_cons_of_ne_nil hoffs.ne_nil
  have ho15 : o < 15 := hoffs.head_lt
  have hlen : os.length = o - 11 := by simpa using hoffs.length_eq
  by_cases hos : os = []
  · subst hos
    have ho12 : o + (KR_NDIR_BLOCKS - o) = KR_NDIR_BLOCKS := by
      simp only [List.length_nil, KR_NDIR_BLOCKS] at hlen ⊢
      omega
    have hdirect : o + (KR_NDIR_BLOCKS - o) ≤ 15 := by
      rw [ho12]
      decide
    have hfreed := krFreeData_freed .inode apb m (p := o) (k := KR_NDIR_BLOCKS - o) (by simp)
    have hres : res = krFreeData .inode m o (o + (KR_NDIR_BLOCKS - o)) := by
      rw [ho12]
      rfl
    rw [hres]
    refine ⟨hfreed.exchanged (by simp) (fun i _ hi => ?_) hdirect hnd (by simp [Apart]),
      hfreed.pos⟩
    simp only [KR_NDIR_BLOCKS] at hi
    omega
  · have hpos := List.length_pos_of_ne_nil hos
    have hne : ¬ (o :: os).length = 1 := by simp only [List.length_cons]; omega
    simp only [res, truncateFirst, if_neg hne]
    exact truncateBranch_exchanged hpath hread hoffs.tail_lt hos (by omega) ho15 hnr hnd

/-- What a truncation hands to `kr_free_blocks` is what the file loses. -/
theorem truncatePtrs_exchanged (hpath : ∀ i, readPath i = true) (hread : ∀ b, bread b = true)
    {offsets : List Nat} (hoffs : IsPath apb offsets) (hnr : m.nr = 0)
    (hnd : (m.fileTree apb).Nodup) :
    let res := truncatePtrs readPath bread apb offsets m
    Exchanged apb (fun slot => slot - 11) .inode 15 (callBlocks res.2) 0 m res.1 ∧
      ∀ c ∈ res.2, 0 < c.2 := by
  intro res
  have hfirst := truncateFirst_exchanged hpath hread hoffs hnr hnd
  obtain ⟨hrest, hpos⟩ := killWholes_exchanged hread (offsets.headD 0)
    [KR_IND_BLOCK, KR_DIND_BLOCK, KR_TIND_BLOCK] (by decide) (hfirst.1.nr.trans hnr)
    (hfirst.1.fileTree_nodup hnd)
  have hres := truncatePtrs_eq readPath bread apb offsets m
  dsimp only at hres
  simp only [res, hres]
  refine ⟨?_, fun c hc => ?_⟩
  · rw [callBlocks_append]
    exact hfirst.1.trans hrest
  · rcases List.mem_append.mp hc with hc | hc
    · exact hfirst.2 c hc
    · exact hpos c hc

end Cut

end KrFs
