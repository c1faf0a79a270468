import KrFs.FileTree

/-!
# Logical blocks

The physical block a path of slots leads to. In a tree without a block twice
every block is reached by one path only. A chain that `kr_get_branch` collected
while other threads were at work says where it ends as soon as `verify_chain`
confirms it.
-/

namespace KrFs

open PtrTree

def Mem.follow (m : Mem) : Nat → List Nat → Nat
  | nr, [] => nr
  | nr, off :: offsets => if nr = 0 then 0 else m.follow (m.ptr nr off) offsets

/-- The block at the end of a path; zero is a hole. -/
def Mem.blockAt (m : Mem) : List Nat → Nat
  | [] => 0
  | off :: offsets => m.follow (m.iData off) offsets

/-- The physical block of a logical block of a file. -/
def Fs.blockAt (fs : Fs) (ino iblock : Nat) : Nat := (fs.mem ino).blockAt (fs.path iblock).1

section Follow

variable {m m' : Mem} {apb : Nat}

@[simp] theorem Mem.follow_zero (offsets : List Nat) : m.follow 0 offsets = 0 := by
  cases offsets with
  | nil => rfl
  | cons off offsets => simp [Mem.follow]

theorem Mem.follow_cons {nr : Nat} (hnr : nr ≠ 0) (off : Nat) (offsets : List Nat) :
    m.follow nr (off :: offsets) = m.follow (m.ptr nr off) offsets := by
  simp [Mem.follow, hnr]

theorem Mem.follow_append (nr : Nat) (front back : List Nat) :
    m.follow nr (front ++ back) = m.follow (m.follow nr front) back := by
  induction front generalizing nr with
  | nil => rfl
  | cons off front ih =>
    by_cases hnr : nr = 0
    · simp [hnr]
    · rw [List.cons_append, Mem.follow_cons hnr, Mem.follow_cons hnr, ih]

theorem Mem.blockAt_append {front : List Nat} (hne : front ≠ []) (back : List Nat) :
    m.blockAt (front ++ back) = m.follow (m.blockAt front) back := by
  obtain ⟨o, os, rfl⟩ := List.exists_cons_of_ne_nil hne
  exact Mem.follow_append _ os back

/-- What is followed without meeting a hole is in the tree. -/
theorem Mem.follow_mem (offsets : List Nat) : ∀ {d nr : Nat}, offsets.length ≤ d →
    (∀ o ∈ offsets, o < apb) → m.follow nr offsets ≠ 0 →
    m.follow nr offsets ∈ subtree m.ptr apb d nr := by
  induction offsets with
  | nil => exact fun _ _ h => self_mem_subtree h
  | cons off offsets ih =>
    intro d nr hlen hlt h
    have hnr : nr ≠ 0 := by
      rintro rfl
      exact h (Mem.follow_zero _)
    rw [Mem.follow_cons hnr] at h ⊢
    obtain ⟨d, rfl⟩ : ∃ d', d = d' + 1 := ⟨d - 1, by simp only [List.length_cons] at hlen; omega⟩
    rw [subtree_succ hnr]
    refine Multiset.mem_cons_of_mem (mem_forest.mpr ⟨off, hlt off (by simp), ?_⟩)
    exact ih (by simpa using hlen) (fun o ho => hlt o (by simp [ho])) h

/-- In a tree without a block twice, one path leads to a block. -/
theorem Mem.follow_unique (p : List Nat) : ∀ {d nr : Nat} {q : List Nat},
    (subtree m.ptr apb d nr).Nodup → p.length ≤ d → q.length ≤ d → (∀ o ∈ p, o < apb) →
    (∀ o ∈ q, o < apb) → m.follow nr p ≠ 0 → m.follow nr q = m.follow nr p → p = q := by
  induction p with
  | nil =>
    intro d nr q hnd _ hq _ hqlt hne heq
    cases q with
    | nil => rfl
    | cons off q =>
      -- the root would be below itself
      exfalso
      have hnr : nr ≠ 0 := hne
      obtain ⟨d, rfl⟩ : ∃ d', d = d' + 1 := ⟨d - 1, by simp only [List.length_cons] at hq; omega⟩
      have hback : m.follow (m.ptr nr off) q = nr := by rwa [Mem.follow_cons hnr] at heq
      have hmem : m.follow (m.ptr nr off) q ∈ subtree m.ptr apb d (m.ptr nr off) :=
        Mem.follow_mem q (by simpa using hq) (fun o ho => hqlt o (by simp [ho])) (by rwa [hback])
      rw [hback] at hmem
      rw [subtree_succ hnr] at hnd
      exact (Multiset.nodup_cons.mp hnd).1 (mem_forest.mpr ⟨off, hqlt off (by simp), hmem⟩)
  | cons o1 p ih =>
    intro d nr q hnd hp hq hplt hqlt hne heq
    have hnr : nr ≠ 0 := by
      rintro rfl
      exact hne (Mem.follow_zero _)
    obtain ⟨d, rfl⟩ : ∃ d', d = d' + 1 := ⟨d - 1, by simp only [List.length_cons] at hp; omega⟩
    have hp1 : p.length ≤ d := by simpa using hp
    have hplt1 : ∀ o ∈ p, o < apb := fun o ho => hplt o (by simp [ho])
    rw [Mem.follow_cons hnr] at hne heq
    rw [subtree_succ hnr] at hnd
    obtain ⟨hself, hfor⟩ := Multiset.nodup_cons.mp hnd
    have ho1 : o1 < apb := hplt o1 (by simp)
    have hmem1 := Mem.follow_mem p hp1 hplt1 hne
    cases q with
    | nil =>
      exfalso
      have hback : m.follow (m.ptr nr o1) p = nr := heq.symm
      rw [hback] at hmem1
      exact hself (mem_forest.mpr ⟨o1, ho1, hmem1⟩)
    | cons o2 q =>
      rw [Mem.follow_cons hnr] at heq
      have hq1 : q.length ≤ d := by simpa using hq
      have hqlt1 : ∀ o ∈ q, o < apb := fun o ho => hqlt o (by simp [ho])
      have ho2 : o2 < apb := hqlt o2 (by simp)
      have hmem2 := Mem.follow_mem q hq1 hqlt1 (by rwa [heq])
      rw [heq] at hmem2
      have ho : o1 = o2 := by
        by_contra hneq
        exact forest_disjoint (fun _ => d) hfor ho1 ho2 hneq hmem1 hmem2
      subst ho
      have hnd1 := Multiset.nodup_of_le
        (subtree_le_forest (fun _ => d) ho1) hfor
      rw [ih hnd1 hp1 hq1 hplt1 hqlt1 hne heq]

/-- The beginning of a path. -/
structure SubPath (apb : Nat) (offsets : List Nat) : Prop where
  ne_nil : offsets ≠ []
  head_lt : offsets.headD 0 < 15
  length_le : offsets.length ≤ offsets.headD 0 - 11 + 1
  tail_lt : ∀ o ∈ offsets.tail, o < apb

theorem IsPath.subPath {offsets front back : List Nat} (h : IsPath apb offsets)
    (hsplit : offsets = front ++ back) (hne : front ≠ []) : SubPath apb front := by
  obtain ⟨o, os, rfl⟩ := List.exists_cons_of_ne_nil hne
  subst hsplit
  have hlen := h.length_eq
  simp only [List.cons_append, List.length_cons, List.length_append, List.headD_cons] at hlen
  refine ⟨hne, h.head_lt, ?_, fun i hi => h.tail_lt i ?_⟩
  · simp only [List.length_cons, List.headD_cons]
    omega
  · simp only [List.cons_append, List.tail_cons, List.mem_append]
    exact Or.inl hi

theorem Mem.blockAt_mem {offsets : List Nat} (h : SubPath apb offsets)
    (hne : m.blockAt offsets ≠ 0) : m.blockAt offsets ∈ m.fileTree apb := by
  obtain ⟨o, os, rfl⟩ := List.exists_cons_of_ne_nil h.ne_nil
  have hlen : os.length ≤ o - 11 := by simpa using h.length_le
  exact mem_forest.mpr ⟨o, h.head_lt, Mem.follow_mem os hlen h.tail_lt hne⟩

theorem Mem.blockAt_unique {p q : List Nat} (hp : SubPath apb p) (hq : SubPath apb q)
    (hnd : (m.fileTree apb).Nodup) (hne : m.blockAt p ≠ 0) (heq : m.blockAt q = m.blockAt p) :
    p = q := by
  obtain ⟨o1, p, rfl⟩ := List.exists_cons_of_ne_nil hp.ne_nil
  obtain ⟨o2, q, rfl⟩ := List.exists_cons_of_ne_nil hq.ne_nil
  have hlenp : p.length ≤ o1 - 11 := by simpa using hp.length_le
  have hlenq : q.length ≤ o2 - 11 := by simpa using hq.length_le
  have heq' : m.follow (m.iData o2) q = m.follow (m.iData o1) p := heq
  have hmem1 := Mem.follow_mem (m := m) p hlenp hp.tail_lt hne
  have hmem2 := Mem.follow_mem (m := m) q hlenq hq.tail_lt (by rw [heq']; exact hne)
  rw [heq'] at hmem2
  have ho : o1 = o2 := by
    by_contra hneq
    exact forest_disjoint (fun slot => slot - 11) hnd hp.head_lt hq.head_lt hneq hmem1 hmem2
  subst ho
  have hle : subtree m.ptr apb (o1 - 11) (m.iData o1) ≤ m.fileTree apb :=
    subtree_le_forest (fun slot => slot - 11) hp.head_lt
  rw [Mem.follow_unique p (Multiset.nodup_of_le hle hnd) hlenp hlenq hp.tail_lt hq.tail_lt hne heq']

/-- The array that holds the pointer after a beginning of a path. -/
def Mem.slotBase (m : Mem) (front : List Nat) : Base :=
  if front = [] then .inode else .block (m.blockAt front)

theorem Mem.blockAt_snoc {front : List Nat} (o : Nat) (hfront : front ≠ [] → m.blockAt front ≠ 0) :
    m.blockAt (front ++ [o]) = m.row (m.slotBase front) o := by
  by_cases hnil : front = []
  · subst hnil
    rfl
  · rw [Mem.blockAt_append hnil, Mem.follow_cons (hfront hnil), Mem.slotBase, if_neg hnil]
    rfl

/-- A path that goes on has met no hole. -/
theorem Mem.blockAt_front {front back : List Nat} (h : m.blockAt (front ++ back) ≠ 0)
    (hne : front ≠ []) : m.blockAt front ≠ 0 := by
  intro hz
  rw [Mem.blockAt_append hne, hz, Mem.follow_zero] at h
  exact h rfl

/-- Two beginnings of paths that lead to one array are the same. -/
theorem Mem.slotBase_inj {p q : List Nat} (hp : p ≠ [] → SubPath apb p ∧ m.blockAt p ≠ 0)
    (hq : q ≠ [] → SubPath apb q) (hnd : (m.fileTree apb).Nodup)
    (heq : m.slotBase q = m.slotBase p) : q = p := by
  unfold Mem.slotBase at heq
  by_cases hp0 : p = [] <;> by_cases hq0 : q = []
  · rw [hp0, hq0]
  · simp [hp0, hq0] at heq
  · simp [hp0, hq0] at heq
  · rw [if_neg hp0, if_neg hq0, Base.block.injEq] at heq
    obtain ⟨hsub, hne⟩ := hp hp0
    exact (Mem.blockAt_unique hsub (hq hq0) hnd hne heq).symm

/-- A path whose slots keep their values leads where it led, be it a hole. -/
theorem Mem.blockAt_same (offsets : List Nat)
    (hslot : ∀ front o rest, offsets = front ++ o :: rest → (front ≠ [] → m.blockAt front ≠ 0) →
      m'.row (m.slotBase front) o = m.row (m.slotBase front) o) :
    m'.blockAt offsets = m.blockAt offsets := by
  induction offsets using List.reverseRecOn with
  | nil => rfl
  | append_singleton front o ih =>
    have hih : m'.blockAt front = m.blockAt front :=
      ih fun f o' rest h => hslot f o' (rest ++ [o]) (by simp [h])
    have hbase : m'.slotBase front = m.slotBase front := by simp [Mem.slotBase, hih]
    by_cases hlive : front ≠ [] → m.blockAt front ≠ 0
    · rw [Mem.blockAt_snoc o hlive, ← hslot front o [] rfl hlive, ← hbase]
      exact Mem.blockAt_snoc o (by rwa [hih])
    · rw [Classical.not_imp, not_not] at hlive
      rw [Mem.blockAt_append hlive.1, Mem.blockAt_append hlive.1, hih, hlive.2, Mem.follow_zero,
        Mem.follow_zero]

/-- A mapped path whose slots keep their values keeps its block. -/
theorem Mem.blockAt_keep (offsets : List Nat)
    (hslot : ∀ front o rest, offsets = front ++ o :: rest → m.blockAt (front ++ [o]) ≠ 0 →
      m'.row (m.slotBase front) o = m.row (m.slotBase front) o)
    (hne : m.blockAt offsets ≠ 0) : m'.blockAt offsets = m.blockAt offsets := by
  refine Mem.blockAt_same offsets fun front o rest hsplit _ => hslot front o rest hsplit ?_
  have hcut : offsets = (front ++ [o]) ++ rest := by
    rw [hsplit]
    simp
  rw [hcut] at hne
  exact Mem.blockAt_front hne (by simp)

end Follow

/-! ## Chains -/

/-- The entries follow the offsets, each in the array its predecessor points to. -/
inductive Linked : Base → List Nat → List Indirect → Prop
  | last {base : Base} {off : Nat} {offsets : List Nat} {p : Indirect} (hbase : p.base = base)
    (hoff : p.off = off) : Linked base (off :: offsets) [p]
  | next {base : Base} {off : Nat} {offsets : List Nat} {p : Indirect} {chain : List Indirect}
    (hbase : p.base = base) (hoff : p.off = off) (live : p.key ≠ 0)
    (below : Linked (.block p.key) offsets chain) : Linked base (off :: offsets) (p :: chain)

/-- What the ways `kr_get_branch` ends say about the last entry. -/
structure Branch.Ends (br : Branch) (depth : Nat) : Prop where
  full : br.complete = true → (lastEntry br.chain).key ≠ 0
  hole : br.complete = false → br.err = none → (lastEntry br.chain).key = 0
  unread : br.err = some .eio → br.complete = false ∧ (lastEntry br.chain).key ≠ 0 ∧
    br.chain.length < depth
  errs : br.err = none ∨ br.err = some .eio ∨ br.err = some .eagain

theorem Linked.ne_nil {base : Base} {offsets : List Nat} {chain : List Indirect}
    (h : Linked base offsets chain) : chain ≠ [] := by
  cases h with
  | last => simp
  | next => simp

theorem getBranchLoop_spec (mem : Nat → Mem) (bread : Nat → Bool) (offsets : List Nat) :
    ∀ (i : Nat) (chain : List Indirect) (key : Nat), (lastEntry chain).key ≠ 0 →
    ∃ rest, (getBranchLoop mem bread i chain key offsets).chain = chain ++ rest ∧
      (rest = [] ∨ Linked (.block key) offsets rest) ∧
      (getBranchLoop mem bread i chain key offsets).Ends (chain.length + offsets.length) := by
  induction offsets with
  | nil =>
    intro i chain key hlast
    exact ⟨[], by simp [getBranchLoop], Or.inl rfl, fun _ => hlast, by simp [getBranchLoop],
      by simp [getBranchLoop], Or.inl rfl⟩
  | cons off offsets ih =>
    intro i chain key hlast
    unfold getBranchLoop
    split
    · exact ⟨[], by simp, Or.inl rfl, by simp, by simp, fun _ => ⟨rfl, hlast, by simp⟩,
        Or.inr (Or.inl rfl)⟩
    split
    · exact ⟨[], by simp, Or.inl rfl, by simp, by simp, by simp, Or.inr (Or.inr rfl)⟩
    dsimp only
    set p := addChain (mem (i + 1)) (.block key) off with hp
    have hsnoc : lastEntry (chain ++ [p]) = p := by simp [lastEntry]
    split
    · rename_i hz
      refine ⟨[p], rfl, Or.inr (.last rfl rfl), by simp, fun _ _ => ?_, by simp, Or.inl rfl⟩
      rw [hsnoc]
      exact hz
    · rename_i hlive
      obtain ⟨rest, hchain, hrest, hends⟩ := ih (i + 1) (chain ++ [p]) p.key (by rwa [hsnoc])
      refine ⟨p :: rest, by rw [hchain]; simp, Or.inr ?_, ?_⟩
      · rcases hrest with rfl | hrest
        · exact .last rfl rfl
        · exact .next rfl rfl hlive hrest
      · have hlen : (chain ++ [p]).length + offsets.length =
            chain.length + (off :: offsets).length := by simp; omega
        rwa [hlen] at hends

/-- Whatever the memory does between the steps of a look-up, its chain is linked. -/
theorem krGetBranch_spec (mem : Nat → Mem) (bread : Nat → Bool) {offsets : List Nat}
    (hne : offsets ≠ []) :
    Linked .inode offsets (krGetBranch mem bread offsets).chain ∧
      (krGetBranch mem bread offsets).Ends offsets.length := by
  obtain ⟨off, offsets, rfl⟩ := List.exists_cons_of_ne_nil hne
  unfold krGetBranch
  dsimp only
  set p := addChain (mem 0) .inode off with hp
  have hsingle : lastEntry [p] = p := rfl
  split
  · rename_i hz
    refine ⟨.last rfl rfl, by simp, fun _ _ => ?_, by simp, Or.inl rfl⟩
    rw [hsingle]
    exact hz
  · rename_i hlive
    obtain ⟨rest, hchain, hrest, hends⟩ := getBranchLoop_spec mem bread offsets 0 [p] p.key
      (by rwa [hsingle])
    refine ⟨?_, by rwa [List.length_singleton, Nat.add_comm] at hends⟩
    rw [hchain]
    rcases hrest with rfl | hrest
    · exact .last rfl rfl
    · exact .next rfl rfl hlive hrest

/-- A look-up that no other thread disturbs holds in the memory and never asks
for a retry. -/
theorem getBranchLoop_undisturbed (m : Mem) (bread : Nat → Bool) (offsets : List Nat) :
    ∀ (i : Nat) (chain : List Indirect) (key : Nat), verifyChain m chain = true →
    verifyChain m (getBranchLoop (fun _ => m) bread i chain key offsets).chain = true ∧
      (getBranchLoop (fun _ => m) bread i chain key offsets).err ≠ some .eagain := by
  induction offsets with
  | nil => exact fun _ _ _ hv => ⟨hv, by simp [getBranchLoop]⟩
  | cons off offsets ih =>
    intro i chain key hv
    unfold getBranchLoop
    have hv' : verifyChain m (chain ++ [addChain m (.block key) off]) = true := by
      rw [verifyChain_append, hv, verifyChain_addChain]
      rfl
    rw [hv]
    split
    · exact ⟨hv, by simp⟩
    split
    · rename_i h
      simp at h
    dsimp only
    split
    · exact ⟨hv', by simp⟩
    · exact ih _ _ _ hv'

theorem krGetBranch_undisturbed (m : Mem) (bread : Nat → Bool) (offsets : List Nat) :
    verifyChain m (krGetBranch (fun _ => m) bread offsets).chain = true ∧
      (krGetBranch (fun _ => m) bread offsets).err ≠ some .eagain := by
  cases offsets with
  | nil => exact ⟨rfl, by simp [krGetBranch]⟩
  | cons off offsets =>
    unfold krGetBranch
    dsimp only
    split
    · exact ⟨verifyChain_addChain m .inode off, by simp⟩
    · exact getBranchLoop_undisturbed m bread offsets 0 _ _ (verifyChain_addChain m .inode off)

section Place

variable {m : Mem}

theorem verifyChain_cons {p : Indirect} {chain : List Indirect} :
    verifyChain m (p :: chain) = true ↔ p.key = m.row p.base p.off ∧ verifyChain m chain = true := by
  simp [verifyChain]

/-- Where a linked chain ends that holds in the memory. -/
theorem Linked.follow {offsets : List Nat} {chain : List Indirect} {nr : Nat}
    (h : Linked (.block nr) offsets chain) (hnr : nr ≠ 0) (hv : verifyChain m chain = true) :
    ∃ front off back, offsets = front ++ off :: back ∧ chain.length = front.length + 1 ∧
      (lastEntry chain).off = off ∧ (lastEntry chain).base = .block (m.follow nr front) ∧
      m.follow nr front ≠ 0 ∧ (lastEntry chain).key = m.follow nr (front ++ [off]) := by
  generalize hbase : Base.block nr = base at h
  induction h generalizing nr with
  | @last base off offsets p hb hoff =>
    subst hbase
    have hkey := (verifyChain_cons.mp hv).1
    refine ⟨[], off, offsets, rfl, rfl, hoff, hb, hnr, ?_⟩
    rw [List.nil_append, Mem.follow_cons hnr]
    rw [hb, hoff] at hkey
    exact hkey
  | @next base off offsets p chain hb hoff live below ih =>
    subst hbase
    obtain ⟨hkey, hv'⟩ := verifyChain_cons.mp hv
    rw [hb, hoff] at hkey
    have hkey' : p.key = m.ptr nr off := hkey
    obtain ⟨front, o, back, rfl, hlen, ho, hbl, hfne, hk⟩ := ih live hv' rfl
    have hcons : ∀ l, m.follow nr (off :: l) = m.follow p.key l := by
      intro l
      rw [Mem.follow_cons hnr, hkey']
    refine ⟨off :: front, o, back, rfl, by simp [hlen], ?_, ?_, ?_, ?_⟩
    · rw [lastEntry_cons p below.ne_nil]
      exact ho
    · rw [lastEntry_cons p below.ne_nil, hcons]
      exact hbl
    · rw [hcons]
      exact hfne
    · rw [lastEntry_cons p below.ne_nil, List.cons_append, hcons]
      exact hk

theorem Linked.blockAt {offsets : List Nat} {chain : List Indirect}
    (h : Linked .inode offsets chain) (hv : verifyChain m chain = true) :
    ∃ front off back, offsets = front ++ off :: back ∧ chain.length = front.length + 1 ∧
      (lastEntry chain).off = off ∧ (lastEntry chain).key = m.blockAt (front ++ [off]) ∧
      (lastEntry chain).base = m.slotBase front ∧ (front ≠ [] → m.blockAt front ≠ 0) := by
  cases h with
  | @last _ off offsets p hb hoff =>
    have hkey := (verifyChain_cons.mp hv).1
    rw [hb, hoff] at hkey
    exact ⟨[], off, offsets, rfl, rfl, hoff, hkey, hb, fun h => absurd rfl h⟩
  | @next _ off offsets p chain hb hoff live below =>
    obtain ⟨hkey, hv'⟩ := verifyChain_cons.mp hv
    rw [hb, hoff] at hkey
    have hkey' : p.key = m.iData off := hkey
    obtain ⟨front, o, back, rfl, hlen, ho, hbl, hfne, hk⟩ := below.follow live hv'
    have hat : ∀ l, m.blockAt (off :: l) = m.follow p.key l := by
      intro l
      rw [hkey']
      rfl
    refine ⟨off :: front, o, back, rfl, by simp [hlen], ?_, ?_, ?_, fun _ => ?_⟩
    · rw [lastEntry_cons p below.ne_nil]
      exact ho
    · rw [lastEntry_cons p below.ne_nil, List.cons_append, hat]
      exact hk
    · rw [lastEntry_cons p below.ne_nil, hbl, Mem.slotBase, if_neg (by simp), hat]
    · rw [hat]
      exact hfne

end Place

end KrFs
