import KrFs.LogicalBlock

/-!
# What a look-up meets

`kr_get_branch` reads the pointers along a path while other threads change them, and
`kr_get_blocks` may read them again under `truncate_mutex`. How such a look-up ends is told by
the memories it sees, one for each pointer, and by the reads that fail.
-/

namespace KrFs

/-- A look-up that sees the memories `mem` has read the chain: the pointers along the path, the
`i`-th of them in `mem i`. By then the block it lies in had been read, and the pointers before it
were what they had been. -/
structure ReadChain (mem : Nat → Mem) (bread : Nat → Bool) (offsets : List Nat)
    (chain : List Indirect) : Prop where
  linked : Linked .inode offsets chain
  value : ∀ i p, chain[i]? = some p → p.key = (mem i).row p.base p.off
  read : ∀ i, i + 1 < chain.length → bread i = true
  held : ∀ i, i + 1 < chain.length → verifyChain (mem (i + 1)) (chain.take (i + 1)) = true

/-- Why a look-up goes no further: it has come to the data, to a hole, to a block that cannot be
read, or it finds that a pointer before has changed. -/
inductive LookEnd where
  | full | hole | unread | changed
deriving DecidableEq

namespace LookEnd

/-- `kr_get_branch` returns `NULL`. -/
def complete (e : LookEnd) : Bool := e = .full

/-- Its `*err`. -/
def err : LookEnd → Option Errno
  | .unread => some .eio
  | .changed => some .eagain
  | _ => none

@[simp] theorem complete_full : full.complete = true := rfl
@[simp] theorem complete_hole : hole.complete = false := rfl
@[simp] theorem complete_unread : unread.complete = false := rfl
@[simp] theorem complete_changed : changed.complete = false := rfl
@[simp] theorem err_full : full.err = none := rfl
@[simp] theorem err_hole : hole.err = none := rfl
@[simp] theorem err_unread : unread.err = some .eio := rfl
@[simp] theorem err_changed : changed.err = some .eagain := rfl

end LookEnd

/-- The last pointer that is read does not lead to another one. -/
def ChainEnds (mem : Nat → Mem) (bread : Nat → Bool) (offsets : List Nat) (chain : List Indirect) :
    LookEnd → Prop
  | .hole => (lastEntry chain).key = 0
  | .full => (lastEntry chain).key ≠ 0 ∧ chain.length = offsets.length
  | .unread => (lastEntry chain).key ≠ 0 ∧ chain.length < offsets.length ∧
      bread (chain.length - 1) = false
  | .changed => (lastEntry chain).key ≠ 0 ∧ chain.length < offsets.length ∧
      bread (chain.length - 1) = true ∧ verifyChain (mem chain.length) chain = false

/-- The look-up of a path reads the chain and ends there. -/
structure LookUp (mem : Nat → Mem) (bread : Nat → Bool) (offsets : List Nat)
    (chain : List Indirect) (e : LookEnd) : Prop extends ReadChain mem bread offsets chain where
  ends : ChainEnds mem bread offsets chain e

section Chains

variable {base : Base} {offsets : List Nat} {chain : List Indirect}

theorem Linked.length_le (h : Linked base offsets chain) : chain.length ≤ offsets.length := by
  induction h with
  | last => simp
  | next _ _ _ _ ih => simpa using ih

theorem Linked.snoc (h : Linked base offsets chain) (hlive : (lastEntry chain).key ≠ 0) {p : Indirect}
    (hbase : p.base = .block (lastEntry chain).key) (hoff : offsets[chain.length]? = some p.off) :
    Linked base offsets (chain ++ [p]) := by
  induction h with
  | @last base off offsets q hq hqoff =>
    obtain ⟨off', offsets, rfl⟩ : ∃ o os, offsets = o :: os := by
      cases offsets with
      | nil => cases hoff
      | cons o os => exact ⟨o, os, rfl⟩
    obtain rfl : off' = p.off := Option.some.inj hoff
    exact .next hq hqoff hlive (.last hbase rfl)
  | @next base off offsets q chain hq hqoff live below ih =>
    rw [lastEntry_cons q below.ne_nil] at hlive hbase
    exact .next hq hqoff live (ih hlive hbase hoff)

/-- A beginning of a chain; the pointer at its end leads on. -/
theorem Linked.take (h : Linked base offsets chain) {k : Nat} (hpos : 0 < k) (hk : k < chain.length) :
    Linked base offsets (chain.take k) ∧ (lastEntry (chain.take k)).key ≠ 0 := by
  induction h generalizing k with
  | last => simp at hk; omega
  | @next base off offsets q chain hq hqoff live below ih =>
    obtain ⟨k, rfl⟩ : ∃ j, k = j + 1 := ⟨k - 1, by omega⟩
    rw [List.take_succ_cons]
    by_cases hzero : k = 0
    · subst hzero
      exact ⟨.last hq hqoff, live⟩
    · obtain ⟨hlinked, hlive⟩ := ih (Nat.pos_of_ne_zero hzero) (by simpa using hk)
      exact ⟨.next hq hqoff live hlinked, by rwa [lastEntry_cons q hlinked.ne_nil]⟩

/-- Chains along one path that take their keys from the same places agree. -/
theorem Linked.unique (h : Linked base offsets chain) :
    ∀ {d : List Indirect} (key : Nat → Base → Nat → Nat), Linked base offsets d →
    (∀ i p, chain[i]? = some p → p.key = key i p.base p.off) →
    (∀ i p, d[i]? = some p → p.key = key i p.base p.off) → chain.length = d.length →
    chain = d := by
  -- the places of the heads agree, so the keys do, and then those of the tails
  have hhead : ∀ {base : Base} {off : Nat} {p p' : Indirect} (key : Nat → Base → Nat → Nat),
      p.base = base → p.off = off → p'.base = base → p'.off = off →
      p.key = key 0 p.base p.off → p'.key = key 0 p'.base p'.off → p = p' := by
    rintro base off ⟨b, o, k⟩ ⟨b', o', k'⟩ key rfl rfl rfl rfl hk hk'
    rw [show k = k' from hk.trans hk'.symm]
  induction h with
  | @last base off offsets p hp hpoff =>
    intro d key h' hkey hkey' hlen
    cases h' with
    | @last _ _ _ p' hp' hpoff' =>
      rw [hhead key hp hpoff hp' hpoff' (hkey 0 p rfl) (hkey' 0 p' rfl)]
    | next _ _ _ below =>
      exact absurd (List.length_eq_zero_iff.mp (by simpa using hlen.symm)) below.ne_nil
  | @next base off offsets p chain hp hpoff live below ih =>
    intro d key h' hkey hkey' hlen
    cases h' with
    | last =>
      exact absurd (List.length_eq_zero_iff.mp (by simpa using hlen)) below.ne_nil
    | @next _ _ _ p' chain' hp' hpoff' live' below' =>
      obtain rfl := hhead key hp hpoff hp' hpoff' (hkey 0 p rfl) (hkey' 0 p' rfl)
      rw [ih (fun i => key (i + 1)) below' (fun i q hq => hkey (i + 1) q (by simpa using hq))
        (fun i q hq => hkey' (i + 1) q (by simpa using hq)) (by simpa using hlen)]

end Chains

section Read

variable {mem : Nat → Mem} {bread : Nat → Bool} {offsets : List Nat} {chain c c' : List Indirect}
  {e e' : LookEnd}

theorem ReadChain.unique (h : ReadChain mem bread offsets c) (h' : ReadChain mem bread offsets c')
    (hlen : c.length = c'.length) : c = c' :=
  h.linked.unique (fun i => (mem i).row) h'.linked h.value h'.value hlen

/-- A chain that goes on has read its beginning, and that leads to another pointer. -/
theorem ReadChain.take (h : ReadChain mem bread offsets chain) {k : Nat} (hpos : 0 < k)
    (hk : k < chain.length) : ReadChain mem bread offsets (chain.take k) ∧
      ∀ e, ¬ ChainEnds mem bread offsets (chain.take k) e := by
  obtain ⟨hlinked, hlive⟩ := h.linked.take hpos hk
  have hlen : (chain.take k).length = k := List.length_take_of_le hk.le
  refine ⟨⟨hlinked, fun i p hp => ?_, fun i hi => ?_, fun i hi => ?_⟩, fun e hends => ?_⟩
  · rw [List.getElem?_take] at hp
    split at hp
    · exact h.value i p hp
    · cases hp
  · exact h.read i (by omega)
  · rw [List.take_take, min_eq_left (by omega)]
    exact h.held i (by omega)
  · have hmore := h.linked.length_le
    cases e with
    | hole => exact hlive hends
    | full =>
      have hall := hends.2
      omega
    | unread =>
      have hno := hends.2.2
      rw [hlen, h.read (k - 1) (by omega)] at hno
      cases hno
    | changed =>
      have hno := hends.2.2.2
      have hsame := h.held (k - 1) (by omega)
      rw [Nat.sub_add_cancel hpos] at hsame
      rw [hlen, hsame] at hno
      cases hno

theorem ChainEnds.unique (h : ChainEnds mem bread offsets chain e)
    (h' : ChainEnds mem bread offsets chain e') : e = e' := by
  cases e with
  | hole =>
    cases e' with
    | hole => rfl
    | full => exact absurd h h'.1
    | unread => exact absurd h h'.1
    | changed => exact absurd h h'.1
  | full =>
    have hall := h.2
    cases e' with
    | hole => exact absurd h' h.1
    | full => rfl
    | unread => exact absurd hall h'.2.1.ne
    | changed => exact absurd hall h'.2.1.ne
  | unread =>
    cases e' with
    | hole => exact absurd h' h.1
    | full => exact absurd h'.2 h.2.1.ne
    | unread => rfl
    | changed =>
      have hno := h.2.2
      rw [h'.2.2.1] at hno
      cases hno
  | changed =>
    cases e' with
    | hole => exact absurd h' h.1
    | full => exact absurd h'.2 h.2.1.ne
    | unread =>
      have hno := h'.2.2
      rw [h.2.2.1] at hno
      cases hno
    | changed => rfl

theorem LookUp.unique (h : LookUp mem bread offsets c e) (h' : LookUp mem bread offsets c' e') :
    c = c' ∧ e = e' := by
  have hpos := List.length_pos_of_ne_nil h.linked.ne_nil
  have hpos' := List.length_pos_of_ne_nil h'.linked.ne_nil
  have hnot : ∀ {c c' : List Indirect} {e : LookEnd}, LookUp mem bread offsets c e →
      ReadChain mem bread offsets c' → 0 < c.length → ¬ c.length < c'.length := by
    intro c c' e h h' hpos hlt
    obtain ⟨hread, hgoes⟩ := h'.take hpos hlt
    have heq := h.toReadChain.unique hread (List.length_take_of_le hlt.le).symm
    rw [← heq] at hgoes
    exact hgoes e h.ends
  have hlen : c.length = c'.length := by
    have h1 := hnot h h'.toReadChain hpos
    have h2 := hnot h' h.toReadChain hpos'
    omega
  obtain rfl := h.toReadChain.unique h'.toReadChain hlen
  exact ⟨rfl, h.ends.unique h'.ends⟩

/-- A pointer that is read after the chain. -/
theorem ReadChain.snoc (h : ReadChain mem bread offsets chain) (hlive : (lastEntry chain).key ≠ 0)
    {off : Nat} (hoff : offsets[chain.length]? = some off) (hread : bread (chain.length - 1) = true)
    (hheld : verifyChain (mem chain.length) chain = true) : ReadChain mem bread offsets
      (chain ++ [addChain (mem chain.length) (.block (lastEntry chain).key) off]) := by
  have hpos := List.length_pos_of_ne_nil h.linked.ne_nil
  have hlen : ∀ p : Indirect, (chain ++ [p]).length = chain.length + 1 := fun p => by simp
  refine ⟨h.linked.snoc hlive rfl hoff, fun i p hp => ?_, fun i hi => ?_, fun i hi => ?_⟩
  · rw [List.getElem?_append] at hp
    split at hp
    · exact h.value i p hp
    · obtain ⟨hzero, rfl⟩ : i - chain.length = 0 ∧ _ = p := by
        simpa [List.getElem?_singleton] using hp
      obtain rfl : i = chain.length := by omega
      rfl
  · rw [hlen] at hi
    by_cases hlast : i + 1 = chain.length
    · rwa [← Nat.sub_eq_of_eq_add hlast.symm]
    · exact h.read i (by omega)
  · rw [hlen] at hi
    rw [List.take_append_of_le_length (by omega)]
    by_cases hlast : i + 1 = chain.length
    · rw [hlast, List.take_length]
      exact hheld
    · exact h.held i (by omega)

/-- The loop of `kr_get_branch` on what has been read so far. -/
theorem getBranchLoop_lookUp (rest : List Nat) : ∀ {chain : List Indirect},
    ReadChain mem bread offsets chain → (lastEntry chain).key ≠ 0 →
    offsets.drop chain.length = rest →
    ∃ c e, getBranchLoop mem bread (chain.length - 1) chain (lastEntry chain).key rest =
      ⟨c, e.complete, e.err⟩ ∧ LookUp mem bread offsets c e := by
  induction rest with
  | nil =>
    intro chain h hlive hrest
    have hall := h.linked.length_le
    exact ⟨chain, .full, rfl, h, hlive, le_antisymm hall (List.drop_eq_nil_iff.mp hrest)⟩
  | cons off rest ih =>
    intro chain h hlive hrest
    have hpos := List.length_pos_of_ne_nil h.linked.ne_nil
    have hoff : offsets[chain.length]? = some off := by
      rw [← List.head?_drop, hrest, List.head?_cons]
    have hmore : chain.length < offsets.length := (List.getElem?_eq_some_iff.mp hoff).1
    have hround : chain.length - 1 + 1 = chain.length := Nat.sub_add_cancel hpos
    rw [getBranchLoop, hround]
    split
    · rename_i hno
      exact ⟨chain, .unread, rfl, h, hlive, hmore, by simpa using hno⟩
    rename_i hread
    have hread' : bread (chain.length - 1) = true := by simpa using hread
    split
    · rename_i hno
      exact ⟨chain, .changed, rfl, h, hlive, hmore, hread', by simpa using hno⟩
    rename_i hheld
    have hnext := h.snoc hlive hoff hread' (by simpa using hheld)
    have hlast : lastEntry (chain ++ [addChain (mem chain.length) (.block (lastEntry chain).key) off]) =
        addChain (mem chain.length) (.block (lastEntry chain).key) off := by simp [lastEntry]
    dsimp only
    split
    · rename_i hzero
      exact ⟨_, .hole, rfl, hnext, by rwa [ChainEnds, hlast]⟩
    · rename_i hkey
      have hdrop : offsets.drop (chain.length + 1) = rest := by
        rw [← List.drop_drop, hrest, List.drop_one, List.tail_cons]
      have hgoes := ih hnext (by rwa [hlast]) (by rw [List.length_append]; exact hdrop)
      rwa [hlast, List.length_append, List.length_singleton, Nat.add_sub_cancel] at hgoes

/-- `kr_get_branch` returns what the look-up comes to. -/
theorem krGetBranch_lookUp (mem : Nat → Mem) (bread : Nat → Bool) {offsets : List Nat}
    (hne : offsets ≠ []) : ∃ c e, krGetBranch mem bread offsets = ⟨c, e.complete, e.err⟩ ∧
      LookUp mem bread offsets c e := by
  obtain ⟨off, offsets, rfl⟩ := List.exists_cons_of_ne_nil hne
  have hfirst : ReadChain mem bread (off :: offsets) [addChain (mem 0) .inode off] := by
    refine ⟨.last rfl rfl, fun i p hp => ?_, fun i hi => ?_, fun i hi => ?_⟩
    · obtain ⟨rfl, rfl⟩ : i = 0 ∧ _ = p := by simpa [List.getElem?_singleton] using hp
      rfl
    · simp at hi
    · simp at hi
  unfold krGetBranch
  dsimp only
  split
  · rename_i hzero
    exact ⟨_, .hole, rfl, hfirst, hzero⟩
  · rename_i hkey
    exact getBranchLoop_lookUp offsets hfirst hkey rfl

theorem LookUp.offsets_ne_nil (h : LookUp mem bread offsets chain e) : offsets ≠ [] := by
  rintro rfl
  have hnone := h.linked.length_le
  exact h.linked.ne_nil (List.length_eq_zero_iff.mp (by simpa using hnone))

theorem LookUp.krGetBranch_eq (h : LookUp mem bread offsets chain e) :
    krGetBranch mem bread offsets = ⟨chain, e.complete, e.err⟩ := by
  obtain ⟨c, e', hbranch, hlook⟩ := krGetBranch_lookUp mem bread h.offsets_ne_nil
  obtain ⟨rfl, rfl⟩ := h.unique hlook
  exact hbranch

end Read

/-! ## The look-ups of `kr_get_blocks` -/

/-- After a complete look-up more blocks are mapped, from the count `count` and the moment `t` on:
the next `j` blocks follow, and then a pointer of the chain has changed. -/
def MapBreaks (look : Nat → Mem) (chain : List Indirect) (maxblocks : Nat) (blocksToBoundary : Int)
    (t count : Nat) : Prop :=
  ∃ j, count + j < maxblocks ∧ ((count + j : Nat) : Int) ≤ blocksToBoundary ∧
    verifyChain (look (t + 2 * j)) chain = false ∧
    ∀ i < j, verifyChain (look (t + 2 * i)) chain = true ∧
      (look (t + 2 * i + 1)).row (lastEntry chain).base ((lastEntry chain).off + (count + i)) =
        (lastEntry chain).key + (count + i)

/-- The look-up is repeated under the mutex: the first one was complete and its chain changed while
more blocks were mapped, or it met a change, or it came to a hole and its chain changed later. -/
def GetBlocksEnv.Relooks (env : GetBlocksEnv) (m : Mem) (offsets : List Nat) (blocksToBoundary : Int)
    (maxblocks : Nat) : Prop :=
  (∃ c, LookUp env.look env.bread offsets c .full ∧
    MapBreaks env.look c maxblocks blocksToBoundary offsets.length 1) ∨
  (∃ c, LookUp env.look env.bread offsets c .changed) ∨
  ∃ c, LookUp env.look env.bread offsets c .hole ∧ verifyChain m c = false

/-- Under the mutex the call goes on with the chain, of the look-up that is repeated in the memory
`m` or of a first one that came to a hole which is still there. -/
def GetBlocksEnv.LocksAt (env : GetBlocksEnv) (m : Mem) (offsets : List Nat) (blocksToBoundary : Int)
    (maxblocks : Nat) (chain : List Indirect) (e : LookEnd) : Prop :=
  env.Relooks m offsets blocksToBoundary maxblocks ∧
      LookUp (fun _ => m) env.breadAgain offsets chain e ∨
    LookUp env.look env.bread offsets chain .hole ∧ verifyChain m chain = true ∧ e = .hole

section MapMore

variable {look : Nat → Mem} {chain : List Indirect} {maxblocks : Nat} {blocksToBoundary : Int}

/-- The first round: the chain has changed, or the next block follows and the rest breaks. -/
theorem mapBreaks_iff {t count : Nat} : MapBreaks look chain maxblocks blocksToBoundary t count ↔
    count < maxblocks ∧ (count : Int) ≤ blocksToBoundary ∧ (verifyChain (look t) chain = false ∨
      verifyChain (look t) chain = true ∧ (look (t + 1)).row (lastEntry chain).base
        ((lastEntry chain).off + count) = (lastEntry chain).key + count ∧
      MapBreaks look chain maxblocks blocksToBoundary (t + 2) (count + 1)) := by
  constructor
  · rintro ⟨j, hlt, hle, hno, hall⟩
    refine ⟨by omega, by omega, ?_⟩
    cases j with
    | zero => exact Or.inl hno
    | succ j =>
      obtain ⟨hverify, hsame⟩ := hall 0 (Nat.succ_pos j)
      refine Or.inr ⟨hverify, hsame, j, by omega, by omega, ?_, fun i hi => ?_⟩
      · rwa [show t + 2 + 2 * j = t + 2 * (j + 1) by omega]
      · rw [show t + 2 + 2 * i = t + 2 * (i + 1) by omega,
          show count + 1 + i = count + (i + 1) by omega]
        exact hall (i + 1) (by omega)
  · rintro ⟨hlt, hle, hno | ⟨hverify, hsame, j, hlt', hle', hno, hall⟩⟩
    · exact ⟨0, hlt, hle, hno, by simp⟩
    · refine ⟨j + 1, by omega, by omega, ?_, fun i hi => ?_⟩
      · rwa [show t + 2 * (j + 1) = t + 2 + 2 * j by omega]
      · cases i with
        | zero => exact ⟨hverify, hsame⟩
        | succ i =>
          rw [show t + 2 * (i + 1) = t + 2 + 2 * i by omega,
            show count + (i + 1) = count + 1 + i by omega]
          exact hall i (by omega)

/-- The loop that maps more blocks. -/
theorem mapMore_eq_none_iff {env : GetBlocksEnv} (n : Nat) : ∀ {t count : Nat},
    maxblocks ≤ count + n → (mapMore env chain maxblocks blocksToBoundary n t count = none ↔
      MapBreaks env.look chain maxblocks blocksToBoundary t count) := by
  induction n with
  | zero =>
    intro t count hn
    refine iff_of_false (by simp [mapMore]) ?_
    rintro ⟨j, hj, -⟩
    omega
  | succ n ih =>
    intro t count hn
    rw [mapBreaks_iff, mapMore]
    split
    · rename_i hmore
      simp only [Bool.and_eq_true, decide_eq_true_eq] at hmore
      dsimp only
      split
      · rename_i hno
        have hno' : verifyChain (env.look t) chain = false := by simpa using hno
        exact iff_of_true rfl ⟨hmore.1, hmore.2, Or.inl hno'⟩
      rename_i hyes
      have hverify : verifyChain (env.look t) chain = true := by simpa using hyes
      split
      · rename_i hsame
        rw [ih (by omega)]
        simp [hmore, hverify, hsame]
      · rename_i hother
        simp [hverify, hother]
    · rename_i hmore
      refine iff_of_false (by simp) fun h => hmore ?_
      simpa using And.intro h.1 h.2.1

end MapMore

section Again

variable {env : GetBlocksEnv} {m : Mem} {offsets : List Nat} {blocksToBoundary : Int}
  {maxblocks : Nat} {first again chain : List Indirect} {e₁ e₂ e : LookEnd}

/-- Whether the look-up is repeated, by the end of the first one. -/
theorem relooks_iff (h : LookUp env.look env.bread offsets first e₁) :
    env.Relooks m offsets blocksToBoundary maxblocks ↔ match e₁ with
      | .full => MapBreaks env.look first maxblocks blocksToBoundary offsets.length 1
      | .changed => True
      | .hole => verifyChain m first = false
      | .unread => False := by
  constructor
  · rintro (⟨c, hlook, hbreaks⟩ | ⟨c, hlook⟩ | ⟨c, hlook, hverify⟩)
    · obtain ⟨rfl, rfl⟩ := h.unique hlook
      exact hbreaks
    · obtain ⟨rfl, rfl⟩ := h.unique hlook
      exact trivial
    · obtain ⟨rfl, rfl⟩ := h.unique hlook
      exact hverify
  · intro hmatch
    cases e₁ with
    | full => exact Or.inl ⟨first, h, hmatch⟩
    | changed => exact Or.inr (Or.inl ⟨first, h⟩)
    | hole => exact Or.inr (Or.inr ⟨first, h, hmatch⟩)
    | unread => exact hmatch.elim

theorem locksAt_iff (h : LookUp env.look env.bread offsets first e₁)
    (h' : LookUp (fun _ => m) env.breadAgain offsets again e₂) :
    env.LocksAt m offsets blocksToBoundary maxblocks chain e ↔
      env.Relooks m offsets blocksToBoundary maxblocks ∧ chain = again ∧ e = e₂ ∨
        e₁ = .hole ∧ verifyChain m first = true ∧ chain = first ∧ e = .hole := by
  refine or_congr (and_congr_right fun _ => ?_) ?_
  · constructor
    · exact fun hlook => hlook.unique h'
    · rintro ⟨rfl, rfl⟩
      exact h'
  · constructor
    · rintro ⟨hlook, hverify, rfl⟩
      obtain ⟨rfl, rfl⟩ := hlook.unique h
      exact ⟨rfl, hverify, rfl, rfl⟩
    · rintro ⟨rfl, hverify, rfl, rfl⟩
      exact ⟨h, hverify, rfl⟩

end Again

end KrFs
