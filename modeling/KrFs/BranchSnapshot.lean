import KrFs.FileTree

/-!
# The branch under interference

`kr_get_branch` reads one pointer in each read-locked region, and between the regions other
threads may change the inode and every indirect block. In each region the pointers read
before are compared with what is there now, so a chain that is returned without an error
was there as a whole when its last pointer was read.
-/

namespace KrFs

/-- The program points of `kr_get_branch`. The chain is filled so far and `rest` are the offsets
that are left; `verify`, `add` and `unlock` lie in the read-locked region. -/
inductive BranchPoint where
  | begin (offsets : List Nat)
  | bread (chain : List Indirect) (rest : List Nat)
  | lock (chain : List Indirect) (rest : List Nat)
  | verify (chain : List Indirect) (rest : List Nat)
  | add (chain : List Indirect) (rest : List Nat)
  | unlock (chain : List Indirect) (rest : List Nat)
  | ret (branch : Branch)

def BranchPoint.locked : BranchPoint → Bool
  | .verify _ _ => true
  | .add _ _ => true
  | .unlock _ _ => true
  | _ => false

/-- The shared memory, what it was when the thread last read a pointer, and the program point. -/
structure BranchState where
  mem : Mem
  lastRead : Mem
  point : BranchPoint

/-- After a pointer was read: the look-up ends at a hole and at the last offset. -/
def advance (chain : List Indirect) (rest : List Nat) : BranchPoint :=
  if (lastEntry chain).key = 0 then .ret ⟨chain, false, none⟩
  else if rest = [] then .ret ⟨chain, true, none⟩
  else .bread chain rest

/-- A step of the thread, or of the others outside the locked region. -/
inductive BranchStep : BranchState → BranchState → Prop where
  | others {s : BranchState} (mem : Mem) :
      s.point.locked = false → BranchStep s { s with mem := mem }
  | first {m last : Mem} {off : Nat} {rest : List Nat} :
      BranchStep ⟨m, last, .begin (off :: rest)⟩ ⟨m, m, advance [addChain m .inode off] rest⟩
  | bread {m last : Mem} {chain : List Indirect} {rest : List Nat} :
      BranchStep ⟨m, last, .bread chain rest⟩ ⟨m, last, .lock chain rest⟩
  | failure {m last : Mem} {chain : List Indirect} {rest : List Nat} :
      BranchStep ⟨m, last, .bread chain rest⟩ ⟨m, last, .ret ⟨chain, false, some .eio⟩⟩
  | lock {m last : Mem} {chain : List Indirect} {rest : List Nat} :
      BranchStep ⟨m, last, .lock chain rest⟩ ⟨m, last, .verify chain rest⟩
  | verified {m last : Mem} {chain : List Indirect} {rest : List Nat} :
      verifyChain m chain = true →
      BranchStep ⟨m, last, .verify chain rest⟩ ⟨m, last, .add chain rest⟩
  | changed {m last : Mem} {chain : List Indirect} {rest : List Nat} :
      verifyChain m chain = false →
      BranchStep ⟨m, last, .verify chain rest⟩ ⟨m, last, .ret ⟨chain, false, some .eagain⟩⟩
  | add {m last : Mem} {chain : List Indirect} {off : Nat} {rest : List Nat} :
      BranchStep ⟨m, last, .add chain (off :: rest)⟩
        ⟨m, m, .unlock (chain ++ [addChain m (.block (lastEntry chain).key) off]) rest⟩
  | unlock {m last : Mem} {chain : List Indirect} {rest : List Nat} :
      BranchStep ⟨m, last, .unlock chain rest⟩ ⟨m, last, advance chain rest⟩

/-- The states in a call of `kr_get_branch` among other threads. -/
inductive BranchRun (offsets : List Nat) : BranchState → Prop where
  | call (m : Mem) : BranchRun offsets ⟨m, m, .begin offsets⟩
  | step {s s' : BranchState} : BranchRun offsets s → BranchStep s s' → BranchRun offsets s'

/-! ## The memories that the pointer reads meet -/

/-- The call has filled the chain as `krGetBranch` does, with its pointer reads at the memories
`mems`, and goes on as that does. -/
structure BranchFollows (offsets : List Nat) (chain : List Indirect) (rest : List Nat)
    (last : Mem) (mems : Nat → Mem) (bread : Nat → Bool) : Prop where
  nonempty : chain ≠ []
  last_eq : mems (chain.length - 1) = last
  goes_on : ∀ mems' bread', (∀ j < chain.length, mems' j = mems j) →
    (∀ j, j + 1 < chain.length → bread' j = bread j) →
    krGetBranch mems' bread' offsets = if (lastEntry chain).key = 0 then ⟨chain, false, none⟩
      else getBranchLoop mems' bread' (chain.length - 1) chain (lastEntry chain).key rest

theorem lastEntry_append (chain : List Indirect) (p : Indirect) :
    lastEntry (chain ++ [p]) = p := by
  simp [lastEntry]

section Follows

variable {offsets rest : List Nat} {chain : List Indirect} {last m : Mem} {mems : Nat → Mem}
  {bread : Nat → Bool} {off : Nat}

theorem BranchFollows.first (m : Mem) (off : Nat) (rest : List Nat) :
    BranchFollows (off :: rest) [addChain m .inode off] rest m (fun _ => m) (fun _ => true) := by
  refine ⟨by simp, rfl, fun mems' bread' hmems _ => ?_⟩
  rw [krGetBranch, hmems 0 (by simp)]
  rfl

/-- A round that finds the chain unchanged. -/
theorem BranchFollows.add (h : BranchFollows offsets chain (off :: rest) last mems bread)
    (hkey : (lastEntry chain).key ≠ 0) (hverify : verifyChain m chain = true) :
    BranchFollows offsets (chain ++ [addChain m (.block (lastEntry chain).key) off]) rest m
      (Function.update mems chain.length m) (Function.update bread (chain.length - 1) true) := by
  have hpos := List.length_pos_iff.mpr h.nonempty
  have hlen : ∀ p : Indirect, (chain ++ [p]).length = chain.length + 1 := fun p => by simp
  refine ⟨by simp, by rw [hlen]; simp, fun mems' bread' hmems hbread => ?_⟩
  rw [hlen] at hmems hbread
  have hround : mems' (chain.length - 1 + 1) = m := by
    rw [Nat.sub_add_cancel hpos, hmems _ (by omega), Function.update_self]
  have hread : bread' (chain.length - 1) = true := by
    rw [hbread _ (by omega), Function.update_self]
  rw [h.goes_on mems' bread', if_neg hkey, getBranchLoop, hround, hread, hverify, hlen,
    lastEntry_append, Nat.add_sub_cancel, Nat.sub_add_cancel hpos]
  · rfl
  · intro j hj
    rw [hmems j (by omega), Function.update_of_ne (by omega)]
  · intro j hj
    rw [hbread j (by omega), Function.update_of_ne (by omega)]

/-- A failing read of the next block. -/
theorem BranchFollows.failure (h : BranchFollows offsets chain (off :: rest) last mems bread)
    (hkey : (lastEntry chain).key ≠ 0) :
    krGetBranch mems (Function.update bread (chain.length - 1) false) offsets =
      ⟨chain, false, some .eio⟩ := by
  rw [h.goes_on mems, if_neg hkey, getBranchLoop, Function.update_self]
  · rfl
  · exact fun _ _ => rfl
  · intro j hj
    rw [Function.update_of_ne (by omega)]

/-- A round that finds the chain changed. -/
theorem BranchFollows.changed (h : BranchFollows offsets chain (off :: rest) last mems bread)
    (hkey : (lastEntry chain).key ≠ 0) (hverify : verifyChain m chain = false) :
    krGetBranch (Function.update mems chain.length m)
      (Function.update bread (chain.length - 1) true) offsets = ⟨chain, false, some .eagain⟩ := by
  have hpos := List.length_pos_iff.mpr h.nonempty
  rw [h.goes_on, if_neg hkey, getBranchLoop, Nat.sub_add_cancel hpos, Function.update_self,
    Function.update_self, hverify]
  · rfl
  · intro j hj
    rw [Function.update_of_ne (by omega)]
  · intro j hj
    rw [Function.update_of_ne (by omega)]

end Follows

/-- What holds at each program point. -/
def BranchState.Inv (offsets : List Nat) (s : BranchState) : Prop :=
  match s.point with
  | .begin rest => rest = offsets
  | .bread chain rest => rest ≠ [] ∧ (lastEntry chain).key ≠ 0 ∧
      ∃ mems bread, BranchFollows offsets chain rest s.lastRead mems bread
  | .lock chain rest => rest ≠ [] ∧ (lastEntry chain).key ≠ 0 ∧
      ∃ mems bread, BranchFollows offsets chain rest s.lastRead mems bread
  | .verify chain rest => rest ≠ [] ∧ (lastEntry chain).key ≠ 0 ∧
      ∃ mems bread, BranchFollows offsets chain rest s.lastRead mems bread
  | .add chain rest => (lastEntry chain).key ≠ 0 ∧ verifyChain s.mem chain = true ∧
      ∃ mems bread, BranchFollows offsets chain rest s.lastRead mems bread
  | .unlock chain rest => ∃ mems bread, BranchFollows offsets chain rest s.lastRead mems bread
  | .ret br => ∃ mems bread, krGetBranch mems bread offsets = br ∧
      mems (br.chain.length - 1) = s.lastRead

theorem advance_inv {offsets rest : List Nat} {chain : List Indirect} {m last : Mem}
    {mems : Nat → Mem} {bread : Nat → Bool}
    (h : BranchFollows offsets chain rest last mems bread) :
    BranchState.Inv offsets ⟨m, last, advance chain rest⟩ := by
  have hcall := h.goes_on mems bread (fun _ _ => rfl) fun _ _ => rfl
  unfold advance
  split
  · rename_i hzero
    rw [if_pos hzero] at hcall
    exact ⟨mems, bread, hcall, h.last_eq⟩
  rename_i hkey
  rw [if_neg hkey] at hcall
  split
  · rename_i hend
    subst hend
    exact ⟨mems, bread, hcall, h.last_eq⟩
  · rename_i hmore
    exact ⟨hmore, hkey, mems, bread, h⟩

theorem BranchStep.inv {offsets : List Nat} {s s' : BranchState} (hstep : BranchStep s s')
    (h : s.Inv offsets) : s'.Inv offsets := by
  cases hstep with
  | others mem hlocked =>
    obtain ⟨m, last, point⟩ := s
    cases point with
    | add chain rest => cases hlocked
    | _ => exact h
  | first =>
    obtain rfl : _ = offsets := h
    exact advance_inv (.first _ _ _)
  | bread => exact h
  | failure =>
    obtain ⟨hmore, hkey, mems, bread, hfollows⟩ := h
    obtain ⟨off, rest, rfl⟩ := List.exists_cons_of_ne_nil hmore
    exact ⟨_, _, hfollows.failure hkey, hfollows.last_eq⟩
  | lock => exact h
  | verified hverify => exact ⟨h.2.1, hverify, h.2.2⟩
  | changed hverify =>
    obtain ⟨hmore, hkey, mems, bread, hfollows⟩ := h
    obtain ⟨off, rest, rfl⟩ := List.exists_cons_of_ne_nil hmore
    refine ⟨_, _, hfollows.changed hkey hverify, ?_⟩
    have hpos := List.length_pos_iff.mpr hfollows.nonempty
    rw [Function.update_of_ne (by dsimp only; omega)]
    exact hfollows.last_eq
  | add =>
    obtain ⟨hkey, hverify, mems, bread, hfollows⟩ := h
    exact ⟨_, _, hfollows.add hkey hverify⟩
  | unlock =>
    obtain ⟨mems, bread, hfollows⟩ := h
    exact advance_inv hfollows

/-- A call among other threads returns what `krGetBranch` returns for some memories, and its
last pointer read met the last of them. -/
theorem BranchRun.krGetBranch {offsets : List Nat} {s : BranchState} (run : BranchRun offsets s)
    {br : Branch} (hret : s.point = .ret br) :
    ∃ mems bread, KrFs.krGetBranch mems bread offsets = br ∧
      mems (br.chain.length - 1) = s.lastRead := by
  have hinv : s.Inv offsets := by
    clear hret
    induction run with
    | call m => exact rfl
    | step _ hstep ih => exact hstep.inv ih
  rw [BranchState.Inv, hret] at hinv
  exact hinv

/-! ## The path in one memory -/

/-- The pointers that the offsets lead through from `base` on. -/
def Mem.entries (m : Mem) : Base → List Nat → List Indirect
  | _, [] => []
  | base, off :: offsets => addChain m base off :: m.entries (.block (m.row base off)) offsets

theorem Mem.entries_length (m : Mem) (offsets : List Nat) : ∀ base,
    (m.entries base offsets).length = offsets.length := by
  induction offsets with
  | nil => exact fun _ => rfl
  | cons off offsets ih =>
    intro base
    rw [entries, List.length_cons, ih, List.length_cons]

/-- A chain that verifies in another memory is the path there as well. -/
theorem Mem.entries_of_verifyChain {m m' : Mem} (offsets : List Nat) : ∀ base,
    verifyChain m' (m.entries base offsets) = true →
    m'.entries base offsets = m.entries base offsets := by
  induction offsets with
  | nil => exact fun _ _ => rfl
  | cons off offsets ih =>
    intro base h
    rw [entries, ← List.singleton_append, verifyChain_append, Bool.and_eq_true] at h
    obtain ⟨hfirst, hrest⟩ := h
    have hkey : m.row base off = m'.row base off := by
      simpa [verifyChain, addChain] using hfirst
    rw [entries, entries, addChain, addChain, ← hkey, ih _ hrest]

theorem Mem.entries_append (m : Mem) (off : Nat) (offsets : List Nat) : ∀ base,
    offsets ≠ [] → m.entries base (offsets ++ [off]) =
      m.entries base offsets ++
        [addChain m (.block (lastEntry (m.entries base offsets)).key) off] := by
  induction offsets with
  | nil => exact fun _ h => absurd rfl h
  | cons first offsets ih =>
    intro base _
    cases offsets with
    | nil => rfl
    | cons second offsets =>
      rw [List.cons_append, entries, ih _ (by simp), entries, List.cons_append]
      rfl

/-- The path leads through the chain: all of it and to no hole, or to a hole at its end. -/
def Branch.Snapshot (br : Branch) (m : Mem) (offsets : List Nat) : Prop :=
  (br.complete = true → br.chain = m.entries .inode offsets ∧ ∀ p ∈ br.chain, p.key ≠ 0) ∧
  (br.complete = false → br.chain = m.entries .inode (offsets.take br.chain.length) ∧
    ∃ front hole, br.chain = front ++ [hole] ∧ (∀ p ∈ front, p.key ≠ 0) ∧ hole.key = 0)

/-- The loop on a chain that is the path so far in the memory of its last read. -/
theorem getBranchLoop_snapshot (mems : Nat → Mem) (bread : Nat → Bool) (offsets : List Nat) :
    ∀ (i : Nat) (taken : List Nat), taken.length = i + 1 →
    (∀ p ∈ (mems i).entries .inode taken, p.key ≠ 0) →
    let chain := (mems i).entries .inode taken
    let br := getBranchLoop mems bread i chain (lastEntry chain).key offsets
    br.err = none → br.Snapshot (mems (br.chain.length - 1)) (taken ++ offsets) := by
  induction offsets with
  | nil =>
    intro i taken hlen hkeys chain br _
    have hchain : br.chain.length - 1 = i := by
      change chain.length - 1 = i
      rw [Mem.entries_length, hlen]
      omega
    rw [hchain, List.append_nil]
    exact ⟨fun _ => ⟨rfl, hkeys⟩, fun hpart => by cases hpart⟩
  | cons off offsets ih =>
    intro i taken hlen hkeys
    dsimp only
    rw [getBranchLoop]
    split
    · intro herr
      cases herr
    split
    · intro herr
      cases herr
    rename_i hverify
    have hsame := Mem.entries_of_verifyChain taken .inode (by simpa using hverify)
    have hne : taken ≠ [] := by
      rintro rfl
      cases hlen
    -- the new pointer continues the path in the memory it was read from
    have hpath := (mems (i + 1)).entries_append off taken .inode hne
    rw [hsame] at hpath
    have hlen' : (taken ++ [off]).length = i + 1 + 1 := by simp [hlen]
    dsimp only
    rw [← hpath]
    split
    · rename_i hzero
      intro _
      have hchain : ((mems (i + 1)).entries .inode (taken ++ [off])).length = i + 1 + 1 := by
        rw [Mem.entries_length, hlen']
      refine ⟨fun hwhole => (by cases hwhole), fun _ => ⟨?_, _, _, hpath, hkeys, hzero⟩⟩
      dsimp only
      rw [hchain, ← hlen', List.append_cons taken off offsets, List.take_left, hlen',
        Nat.add_sub_cancel]
    · rename_i hkey
      have hlast : (lastEntry ((mems (i + 1)).entries .inode (taken ++ [off]))).key =
          (addChain (mems (i + 1)) (.block (lastEntry ((mems i).entries .inode taken)).key) off).key := by
        rw [hpath, lastEntry_append]
      rw [← hlast, List.append_cons taken off offsets]
      refine ih (i + 1) (taken ++ [off]) hlen' ?_
      rw [hpath]
      intro p hp
      rcases List.mem_append.mp hp with hp | hp
      · exact hkeys p hp
      · obtain rfl := List.mem_singleton.mp hp
        exact hkey

theorem krGetBranch_snapshot (mems : Nat → Mem) (bread : Nat → Bool) (offsets : List Nat)
    (herr : (krGetBranch mems bread offsets).err = none) :
    (krGetBranch mems bread offsets).Snapshot
      (mems ((krGetBranch mems bread offsets).chain.length - 1)) offsets := by
  cases offsets with
  | nil => exact ⟨fun _ => ⟨rfl, by simp [krGetBranch]⟩, fun hpart => by cases hpart⟩
  | cons off offsets =>
    revert herr
    rw [krGetBranch]
    split
    · rename_i hzero
      intro _
      exact ⟨fun hwhole => (by cases hwhole), fun _ => ⟨rfl, [], _, rfl, by simp, hzero⟩⟩
    · rename_i hkey
      intro herr
      refine getBranchLoop_snapshot mems bread offsets 0 [off] rfl ?_ herr
      intro p hp
      obtain rfl := List.mem_singleton.mp hp
      exact hkey

/-- Whenever `kr_get_branch` returns without an error, however other threads changed the inode
and the indirect blocks between its locked regions, the chain was the path of the offsets when
its last pointer was read. -/
theorem krGetBranch_true_snapshot {offsets : List Nat} {s : BranchState} {br : Branch}
    (run : BranchRun offsets s) (hret : s.point = .ret br) (herr : br.err = none) :
    br.Snapshot s.lastRead offsets := by
  obtain ⟨mems, bread, rfl, hlast⟩ := run.krGetBranch hret
  rw [← hlast]
  exact krGetBranch_snapshot mems bread offsets herr

/-- Indirect block 7 under the inode, with the pointer `key` in its first slot. -/
def racedMem (key : Nat) : Mem :=
  ⟨fun off => if off = 12 then 7 else 0, fun b off => if b = 7 ∧ off = 0 then key else 0, 0⟩

/-- The last pointer is put there while the look-up is under way. -/
theorem krGetBranch_true_snapshot_raced : ∃ s br, BranchRun [12, 0] s ∧ s.point = .ret br ∧
    br.complete = true ∧ br.Snapshot s.lastRead [12, 0] := by
  have first := (@BranchRun.call [12, 0] (racedMem 0)).step .first
  have raced := first.step (.others (racedMem 9) rfl)
  have locked : BranchRun [12, 0] ⟨racedMem 9, racedMem 0,
      .verify [addChain (racedMem 0) .inode 12] [0]⟩ := (raced.step .bread).step .lock
  have done := ((locked.step (.verified rfl)).step .add).step .unlock
  exact ⟨_, _, done, rfl, rfl, krGetBranch_true_snapshot done rfl rfl⟩

end KrFs
