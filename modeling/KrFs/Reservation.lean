import KrFs.Superblock
import KrFs.Lib.SearchTree

/-!
# Reservation windows

The reservation tree of `balloc.c`: every function that reads or changes the
tree under `s_rsv_window_lock`. A window node is named by the inode whose
`kr_block_alloc_info` holds it, so the tree is a tree of names and the windows
are kept beside it. Rebalancing is the parameter `ops`; only the order of the
nodes is assumed of it. Block numbers fit their `unsigned long` and are natural
numbers.
-/

namespace KrFs

open SearchTree

def KR_DEFAULT_RESERVE_BLOCKS : Nat := 8
def KR_MAX_RESERVE_BLOCKS : Nat := 1027
def KR_RESERVE_WINDOW_NOT_ALLOCATED : Nat := 0

/-- `struct kr_reserve_window_node` without its tree links. -/
structure ReserveWindowNode where
  rsvGoalSize : Nat
  rsvAllocHit : Nat
  rsvStart : Nat
  rsvEnd : Nat
deriving DecidableEq

/-- A node of the tree: `s_rsv_window_head` or the window of an inode. -/
inductive Window where
  | head
  | inode (ino : Nat)
deriving DecidableEq

structure Rsv where
  root : BinaryTree Window
  win : Window → ReserveWindowNode

/-- Store the fields of one window node. -/
def Rsv.setWin (r : Rsv) (me : Window) (w : ReserveWindowNode) : Rsv :=
  { r with win := Function.update r.win me w }

def rsvIsEmpty (w : ReserveWindowNode) : Bool := w.rsvEnd == KR_RESERVE_WINDOW_NOT_ALLOCATED

/-- Where a block lies relative to a window, by the two comparisons that
`search_reserve_window` and `kr_rsv_window_add` make. -/
def windowProbe (win : Window → ReserveWindowNode) (block : Nat) (k : Window) : Ordering :=
  if block < (win k).rsvStart then .lt
  else if (win k).rsvEnd < block then .gt
  else .eq

def goalInMyReservation (sbi : SbInfo) (w : ReserveWindowNode) (grpGoal : Int) (group : Nat) :
    Bool :=
  let groupFirstBlock := sbi.groupFirstBlockNo group
  let groupLastBlock := groupFirstBlock + sbi.sBlocksPerGroup - 1
  if groupLastBlock < w.rsvStart || w.rsvEnd < groupFirstBlock then false
  else if 0 ≤ grpGoal && (grpGoal + groupFirstBlock < w.rsvStart ||
      (w.rsvEnd : Int) < grpGoal + groupFirstBlock) then false
  else true

def searchReserveWindow (r : Rsv) (goal : Nat) : Option Window :=
  match descend (windowProbe r.win goal) r.root with
  | none => none
  | some rsv => if goal < (r.win rsv).rsvStart then prev r.root rsv else some rsv

section Locked

variable (ops : Rebalance Window)

def krRsvWindowAdd (r : Rsv) (rsv : Window) : Exec Rsv :=
  match link (windowProbe r.win (r.win rsv).rsvStart) rsv r.root with
  | none => .bug
  | some root => .done { r with root := ops.insertColor rsv root }

def rsvWindowRemove (r : Rsv) (rsv : Window) : Rsv :=
  { r.setWin rsv { r.win rsv with
      rsvStart := KR_RESERVE_WINDOW_NOT_ALLOCATED
      rsvEnd := KR_RESERVE_WINDOW_NOT_ALLOCATED
      rsvAllocHit := 0 } with
    root := ops.erase rsv r.root }

/-- The locked region that drops a window that may already be empty. -/
def rsvWindowDrop (r : Rsv) (rsv : Window) : Rsv :=
  if rsvIsEmpty (r.win rsv) then r else rsvWindowRemove ops r rsv

/-- The search position moved past a window it has not passed yet. -/
def pastWindow (w : ReserveWindowNode) (cur : Nat) : Nat :=
  if cur ≤ w.rsvEnd then w.rsvEnd + 1 else cur

theorem pastWindow_spec (w : ReserveWindowNode) (cur : Nat) :
    cur ≤ pastWindow w cur ∧ w.rsvEnd < pastWindow w cur := by
  unfold pastWindow
  split <;> omega

/-- The loop of `find_next_reservable_window`: `rsv` is the current node and
`rest` are the nodes `rb_next` would visit after it. -/
def reservableFrom (win : Window → ReserveWindowNode) (size lastBlock : Nat) :
    Nat → Window → List Window → Option (Nat × Window)
  | cur, rsv, rest =>
    let cur := pastWindow (win rsv) cur
    if lastBlock < cur then none
    else match rest with
      | [] => some (cur, rsv)
      | next :: rest' =>
        if cur + size ≤ (win next).rsvStart then some (cur, rsv)
        else reservableFrom win size lastBlock cur next rest'

/-- `find_next_reservable_window`; the value `none` is its return of -1. -/
def findNextReservableWindow (r : Rsv) (searchHead : Option Window) (myRsv : Window)
    (startBlock lastBlock : Nat) : Exec (Option Rsv) :=
  let size := (r.win myRsv).rsvGoalSize
  match searchHead with
  | none => .done none
  | some rsv =>
    match reservableFrom r.win size lastBlock startBlock rsv (successors r.root rsv) with
    | none => .done none
    | some (cur, prev) =>
      let r := if prev ≠ myRsv then rsvWindowDrop ops r myRsv else r
      let r := r.setWin myRsv { r.win myRsv with
        rsvStart := cur
        rsvEnd := cur + size - 1
        rsvAllocHit := 0 }
      if prev ≠ myRsv then (krRsvWindowAdd ops r myRsv).bind fun r => .done (some r)
      else .done (some r)

/-- The body of `alloc_new_reservation` from `spin_lock` to `spin_unlock`: on
a failed search the caller's window is dropped before the lock is released. -/
def reserveLocked (r : Rsv) (searchHead : Option Window) (myRsv : Window)
    (startBlock groupEndBlock : Nat) : Exec (Rsv × Bool) :=
  (findNextReservableWindow ops r searchHead myRsv startBlock groupEndBlock).bind fun found =>
    match found with
    | none => .done (rsvWindowDrop ops r myRsv, false)
    | some r => .done (r, true)

/-- `try_to_extend_reservation` with the outcome of `spin_trylock`. -/
def tryToExtendReservation (r : Rsv) (myRsv : Window) (size : Nat) (locked : Bool) : Rsv :=
  let w := r.win myRsv
  if !locked then r
  else match next r.root myRsv with
    | none => r.setWin myRsv { w with rsvEnd := w.rsvEnd + size }
    | some nextRsv =>
      let nextStart := (r.win nextRsv).rsvStart
      if size ≤ nextStart - w.rsvEnd - 1 then
        r.setWin myRsv { w with rsvEnd := w.rsvEnd + size }
      else r.setWin myRsv { w with rsvEnd := nextStart - 1 }

/-- The window of `kr_init_block_alloc_info`. -/
def krInitWindow (reservation : Bool) : ReserveWindowNode where
  rsvGoalSize := if reservation then KR_DEFAULT_RESERVE_BLOCKS else 0
  rsvAllocHit := 0
  rsvStart := KR_RESERVE_WINDOW_NOT_ALLOCATED
  rsvEnd := KR_RESERVE_WINDOW_NOT_ALLOCATED

/-- `kr_discard_reservation` of an inode that has a `kr_block_alloc_info`. -/
def krDiscardReservation (r : Rsv) (ino : Nat) : Rsv := rsvWindowDrop ops r (.inode ino)

/-- The reservation tree `kr_fill_super` sets up. -/
def rsvInit (win : Window → ReserveWindowNode) : Exec Rsv :=
  krRsvWindowAdd ops
    { root := .nil
      win := Function.update win .head
        { rsvGoalSize := 0, rsvAllocHit := 0, rsvStart := 0, rsvEnd := 0 } }
    .head

end Locked

/-- The part of `alloc_new_reservation` before the lock is taken. The value
`none` is the early return of -1 that keeps a window reaching into the next
group; otherwise the window node may have its goal size doubled. -/
def newReservationSize (w : ReserveWindowNode) (groupEndBlock startBlock : Nat) :
    Option ReserveWindowNode :=
  if rsvIsEmpty w then some w
  else if w.rsvStart ≤ groupEndBlock && groupEndBlock < w.rsvEnd && w.rsvStart ≤ startBlock then
    none
  else if (w.rsvEnd - w.rsvStart + 1) / 2 < w.rsvAllocHit then
    some { w with rsvGoalSize := min (w.rsvGoalSize * 2) KR_MAX_RESERVE_BLOCKS }
  else some w

/-! ## The order of the windows -/

/-- A list of windows is the contents of a reservation tree: disjoint and in
order, from the placeholder on, and with every inode's allocated window. -/
structure WindowsOrdered (win : Window → ReserveWindowNode) (l : List Window) : Prop where
  disjoint : l.Pairwise fun a b => (win a).rsvEnd < (win b).rsvStart
  start_le_end : ∀ k ∈ l, (win k).rsvStart ≤ (win k).rsvEnd
  head_first : l.head? = some .head
  head_window : (win .head).rsvStart = 0 ∧ (win .head).rsvEnd = 0
  mem_iff : ∀ ino, .inode ino ∈ l ↔ (win (.inode ino)).rsvEnd ≠ 0

def Rsv.Wf (r : Rsv) : Prop := WindowsOrdered r.win (inorder r.root)

namespace WindowsOrdered

variable {win : Window → ReserveWindowNode} {l pre post : List Window} {ino : Nat}
  {w : ReserveWindowNode}

theorem nodup (h : WindowsOrdered win l) : l.Nodup := by
  refine h.disjoint.imp_of_mem ?_
  intro a b ha _ hab heq
  subst heq
  have := h.start_le_end a ha
  omega

theorem head_mem (h : WindowsOrdered win l) : .head ∈ l := List.mem_of_mem_head? h.head_first

/-- Taking a window out of the list, whatever becomes of its other fields. -/
theorem erase (h : WindowsOrdered win l) (ino : Nat) (hw : w.rsvEnd = 0) :
    WindowsOrdered (Function.update win (.inode ino) w) (l.erase (.inode ino)) := by
  have other : ∀ k ∈ l.erase (.inode ino), k ≠ .inode ino ∧ k ∈ l := fun k hk =>
    h.nodup.mem_erase_iff.mp hk
  refine ⟨?_, ?_, ?_, ?_, ?_⟩
  · refine (h.disjoint.sublist List.erase_sublist).imp_of_mem ?_
    intro a b ha hb hab
    rwa [Function.update_of_ne (other a ha).1, Function.update_of_ne (other b hb).1]
  · intro k hk
    rw [Function.update_of_ne (other k hk).1]
    exact h.start_le_end k (other k hk).2
  · obtain ⟨rest, rfl⟩ : ∃ rest, l = .head :: rest := by
      cases l with
      | nil => simpa using h.head_first
      | cons a rest => exact ⟨rest, by simpa using h.head_first⟩
    simp
  · rw [Function.update_of_ne (by simp)]
    exact h.head_window
  · intro i
    by_cases hi : i = ino
    · subst hi
      simpa [hw] using h.nodup.not_mem_erase
    · rw [Function.update_of_ne (by simpa using hi), ← h.mem_iff,
        List.mem_erase_of_ne (by simpa using hi)]

/-- A window put between the windows before it and those after it. -/
theorem place (h : WindowsOrdered win (pre ++ post)) (hnew : .inode ino ∉ pre ++ post)
    (hpre : ∀ k ∈ pre, (win k).rsvEnd < w.rsvStart)
    (hpost : ∀ k ∈ post, w.rsvEnd < (win k).rsvStart) (hw : w.rsvStart ≤ w.rsvEnd) :
    WindowsOrdered (Function.update win (.inode ino) w) (pre ++ .inode ino :: post) := by
  have other : ∀ k ∈ pre ++ post, Function.update win (.inode ino) w k = win k := by
    intro k hk
    have hne : k ≠ .inode ino := by
      rintro rfl
      exact hnew hk
    exact Function.update_of_ne hne _ _
  have hhead : .head ∈ pre := by
    rcases List.mem_append.mp h.head_mem with hm | hm
    · exact hm
    · have := hpost _ hm
      have := h.head_window
      omega
  have hpos : 0 < w.rsvStart := by
    have := hpre _ hhead
    omega
  refine ⟨?_, ?_, ?_, ?_, ?_⟩
  · obtain ⟨h1, h2, h12⟩ := List.pairwise_append.mp h.disjoint
    refine List.pairwise_append.mpr ⟨?_, List.pairwise_cons.mpr ⟨?_, ?_⟩, ?_⟩
    · refine h1.imp_of_mem ?_
      intro a b ha hb hab
      rwa [other a (by simp [ha]), other b (by simp [hb])]
    · intro b hb
      rw [Function.update_self, other b (by simp [hb])]
      exact hpost b hb
    · refine h2.imp_of_mem ?_
      intro a b ha hb hab
      rwa [other a (by simp [ha]), other b (by simp [hb])]
    · intro a ha b hb
      rw [other a (by simp [ha])]
      rcases List.mem_cons.mp hb with rfl | hb
      · rw [Function.update_self]
        exact hpre a ha
      · rw [other b (by simp [hb])]
        exact h12 a ha b hb
  · intro k hk
    by_cases hki : k = .inode ino
    · subst hki
      rwa [Function.update_self]
    · have hk' : k ∈ pre ++ post := by simpa [hki] using hk
      rw [other k hk']
      exact h.start_le_end k hk'
  · cases pre with
    | nil => simp at hhead
    | cons a pre => simpa using h.head_first
  · rw [Function.update_of_ne (by simp)]
    exact h.head_window
  · intro i
    by_cases hi : i = ino
    · subst hi
      simp only [List.mem_append, List.mem_cons, true_or, or_true, Function.update_self,
        true_iff]
      omega
    · rw [Function.update_of_ne (by simpa using hi), ← h.mem_iff]
      simp [hi]

end WindowsOrdered

/-! ## The search and the insertion

Both walk down from the root and depend on the shape of the tree; what they find
depends on the order of the windows only.
-/

/-- A search tree of disjoint windows, of any shape. -/
structure Rsv.Sorted (r : Rsv) : Prop where
  disjoint : (inorder r.root).Pairwise fun a b => (r.win a).rsvEnd < (r.win b).rsvStart
  start_le_end : ∀ k ∈ inorder r.root, (r.win k).rsvStart ≤ (r.win k).rsvEnd

/-- The block lies in the window. -/
def Rsv.Holds (r : Rsv) (k : Window) (block : Nat) : Prop :=
  (r.win k).rsvStart ≤ block ∧ block ≤ (r.win k).rsvEnd

/-- The placeholder of the mount is in the tree. -/
def Rsv.HasPlaceholder (r : Rsv) : Prop :=
  ∃ k ∈ inorder r.root, (r.win k).rsvStart = 0 ∧ (r.win k).rsvEnd = 0

theorem Rsv.Wf.sorted {r : Rsv} (h : r.Wf) : r.Sorted := ⟨h.disjoint, h.start_le_end⟩

section Probe

variable {win : Window → ReserveWindowNode} {block : Nat} {k : Window}

theorem windowProbe_lt : windowProbe win block k = .lt ↔ block < (win k).rsvStart := by
  unfold windowProbe
  by_cases hlt : block < (win k).rsvStart
  · simp [hlt]
  · by_cases hgt : (win k).rsvEnd < block
    · simp [hlt, hgt]
    · simp [hlt, hgt]

theorem windowProbe_eq : windowProbe win block k = .eq ↔
    (win k).rsvStart ≤ block ∧ block ≤ (win k).rsvEnd := by
  unfold windowProbe
  by_cases hlt : block < (win k).rsvStart
  · simp [hlt]
  · by_cases hgt : (win k).rsvEnd < block
    · simp [hlt, hgt]
    · rw [if_neg hlt, if_neg hgt]
      exact ⟨fun _ => ⟨by omega, by omega⟩, fun _ => rfl⟩

theorem windowProbe_gt (hle : (win k).rsvStart ≤ (win k).rsvEnd) :
    windowProbe win block k = .gt ↔ (win k).rsvEnd < block := by
  unfold windowProbe
  by_cases hlt : block < (win k).rsvStart
  · have hnot : ¬ (win k).rsvEnd < block := by omega
    simp [hlt, hnot]
  · by_cases hgt : (win k).rsvEnd < block
    · simp [hlt, hgt]
    · simp [hlt, hgt]

end Probe

namespace Rsv.Sorted

variable {r : Rsv} {goal : Nat}

theorem directs (h : r.Sorted) (goal : Nat) :
    Directs (windowProbe r.win goal) (inorder r.root) := by
  refine h.disjoint.imp_of_mem ?_
  intro a b ha _ hab
  rw [windowProbe_gt (h.start_le_end a ha), windowProbe_lt]
  omega

theorem nodup (h : r.Sorted) : (inorder r.root).Nodup := by
  refine h.disjoint.imp_of_mem ?_
  rintro a b ha _ hab rfl
  have := h.start_le_end a ha
  omega

/-- Before the first node there is no other, so `rb_prev` of it is never taken. -/
theorem first_le (h : r.Sorted) (hplace : r.HasPlaceholder) {k : Window}
    (hfirst : (inorder r.root).head? = some k) : (r.win k).rsvStart = 0 := by
  obtain ⟨p, hp, hstart, -⟩ := hplace
  obtain ⟨rest, hl⟩ : ∃ rest, inorder r.root = k :: rest := by
    cases hin : inorder r.root with
    | nil => simp [hin] at hfirst
    | cons a rest => exact ⟨rest, by simpa [hin] using hfirst⟩
  rw [hl] at hp
  rcases List.mem_cons.mp hp with rfl | hp
  · exact hstart
  · have hlt := (List.pairwise_cons.mp (hl ▸ h.disjoint)).1 p hp
    omega

end Rsv.Sorted

/-- `search_reserve_window` finds the window with the goal, or else the last one
that ends before it. -/
theorem searchReserveWindow_spec {r : Rsv} (h : r.Sorted) (hplace : r.HasPlaceholder)
    (goal : Nat) :
    ∃ k ∈ inorder r.root, searchReserveWindow r goal = some k ∧
      (r.Holds k goal ∨ (∀ j ∈ inorder r.root, ¬ r.Holds j goal) ∧ (r.win k).rsvEnd < goal ∧
        ∀ j ∈ inorder r.root, (r.win j).rsvEnd < goal → (r.win j).rsvEnd ≤ (r.win k).rsvEnd) := by
  rcases (h.directs goal).split with
    ⟨before, k, after, hl, hbefore, hk, hafter⟩ | ⟨before, after, hl, hbefore, hafter⟩
  · have hdescend := descend_eq hl hbefore hk hafter
    rw [windowProbe_eq] at hk
    have hmem : k ∈ inorder r.root := by simp [hl]
    refine ⟨k, hmem, ?_, Or.inl hk⟩
    simp [searchReserveWindow, hdescend, hk.1]
  · obtain ⟨p, hp, hstart, -⟩ := hplace
    have hends : ∀ a ∈ before, (r.win a).rsvEnd < goal := by
      intro a ha
      exact (windowProbe_gt (h.start_le_end a (by simp [hl, ha]))).mp (hbefore a ha)
    have hstarts : ∀ b ∈ after, goal < (r.win b).rsvStart := fun b hb =>
      windowProbe_lt.mp (hafter b hb)
    -- the placeholder lies before the goal, so a node does
    obtain ⟨init, k, rfl⟩ : ∃ init k, before = init ++ [k] := by
      rcases List.eq_nil_or_concat' before with rfl | hlast
      · have := hstarts p (by simpa [hl] using hp)
        omega
      · exact hlast
    have hmem : k ∈ inorder r.root := by simp [hl]
    have hklt := hends k (by simp)
    have hkle := h.start_le_end k hmem
    refine ⟨k, hmem, ?_, Or.inr ⟨?_, hklt, ?_⟩⟩
    · obtain ⟨n, hn, hside⟩ := descend_gap hl hbefore hafter (by rintro hnil; simp [hnil] at hmem)
      rcases hside with hlast | hhead
      · obtain rfl : k = n := by simpa using hlast
        simp only [searchReserveWindow, hn]
        rw [if_neg (by omega)]
      · obtain ⟨rest, rfl⟩ : ∃ rest, after = n :: rest := by
          cases after with
          | nil => simp at hhead
          | cons a rest => exact ⟨rest, by simpa using hhead⟩
        have hnot : n ∉ init ++ [k] := by
          have hnd := hl ▸ h.nodup
          exact fun hm => (List.disjoint_of_nodup_append hnd) hm (by simp)
        simp only [searchReserveWindow, hn]
        rw [if_pos (hstarts n (by simp)), prev_eq hl hnot]
        simp
    · intro j hj hholds
      rw [hl] at hj
      rcases List.mem_append.mp hj with hj | hj
      · have := hends j hj
        have := hholds.2
        omega
      · have := hstarts j hj
        have := hholds.1
        omega
    · intro j hj hjlt
      have hle := h.start_le_end j hj
      rw [hl] at hj
      rcases List.mem_append.mp hj with hj | hj
      · rcases List.mem_append.mp hj with hj | hj
        · have hsep := (List.pairwise_append.mp (List.pairwise_append.mp (hl ▸ h.disjoint)).1).2.2
            j hj k (by simp)
          omega
        · have : j = k := by simpa using hj
          rw [this]
      · have := hstarts j hj
        omega

/-- A window that overlaps none of the tree goes to the one leaf at which the
tree stays in order. -/
theorem krRsvWindowAdd_spec (ops : Rebalance Window) {r : Rsv} (h : r.Sorted) {rsv : Window}
    (hle : (r.win rsv).rsvStart ≤ (r.win rsv).rsvEnd)
    (hapart : ∀ k ∈ inorder r.root, (r.win k).rsvEnd < (r.win rsv).rsvStart ∨
      (r.win rsv).rsvEnd < (r.win k).rsvStart) :
    ∃ t, krRsvWindowAdd ops r rsv = .done { r with root := ops.insertColor rsv t } ∧
      Grafted rsv r.root t ∧ Rsv.Sorted { r with root := t } ∧
      ∀ t', Grafted rsv r.root t' → Rsv.Sorted { r with root := t' } → t' = t := by
  obtain ⟨before, after, hl, hbefore, hafter⟩ : ∃ before after, inorder r.root = before ++ after ∧
      (∀ a ∈ before, windowProbe r.win (r.win rsv).rsvStart a = .gt) ∧
      ∀ b ∈ after, windowProbe r.win (r.win rsv).rsvStart b = .lt := by
    rcases (h.directs (r.win rsv).rsvStart).split with
      ⟨before, k, after, hl, -, hk, -⟩ | hgap
    · have hkapart := hapart k (by simp [hl])
      rw [windowProbe_eq] at hk
      omega
    · exact hgap
  obtain ⟨t, ht, hin⟩ : ∃ t, link (windowProbe r.win (r.win rsv).rsvStart) rsv r.root = some t ∧
      inorder t = before ++ rsv :: after := link_inorder hl hbefore hafter
  refine ⟨t, ?_, link_grafted ht, ⟨?_, ?_⟩, fun t' hgraft hsorted => ?_⟩
  · simp only [krRsvWindowAdd, ht]
  · -- the new window lies between its neighbours with both its ends
    obtain ⟨h1, h2, h12⟩ := List.pairwise_append.mp (hl ▸ h.disjoint)
    have hpre : ∀ a ∈ before, (r.win a).rsvEnd < (r.win rsv).rsvStart := by
      intro a ha
      exact (windowProbe_gt (h.start_le_end a (by simp [hl, ha]))).mp (hbefore a ha)
    have hpost : ∀ b ∈ after, (r.win rsv).rsvEnd < (r.win b).rsvStart := by
      intro b hb
      have hb' := windowProbe_lt.mp (hafter b hb)
      have := hapart b (by simp [hl, hb])
      have := h.start_le_end b (by simp [hl, hb])
      omega
    rw [hin]
    refine List.pairwise_append.mpr ⟨h1, List.pairwise_cons.mpr ⟨hpost, h2⟩, ?_⟩
    intro a ha b hb
    rcases List.mem_cons.mp hb with rfl | hb
    · exact hpre a ha
    · exact h12 a ha b hb
  · intro k hk
    rw [hin] at hk
    simp only [List.mem_append, List.mem_cons] at hk
    rcases hk with hk | rfl | hk
    · exact h.start_le_end k (by simp [hl, hk])
    · exact hle
    · exact h.start_le_end k (by simp [hl, hk])
  · have hlink : link (windowProbe r.win (r.win rsv).rsvStart) rsv r.root = some t' := by
      refine hgraft.link_eq (hsorted.disjoint.imp_of_mem ?_)
      intro a b ha _ hab
      have hale := hsorted.start_le_end a ha
      dsimp only at hab hale
      constructor
      · rintro rfl
        exact (windowProbe_gt hale).mpr hab
      · rintro rfl
        exact windowProbe_lt.mpr (by omega)
    exact Option.some.inj (hlink.symm.trans ht)

/-- On a search tree of disjoint windows with the placeholder, of any shape, the search
gives the window with the goal or the last one before it and asks for no node before
the first; the insertion takes the leaf that keeps the order. -/
theorem reservationTree_search_and_add (ops : Rebalance Window) {r : Rsv} (h : r.Sorted)
    (hplace : r.HasPlaceholder) :
    (∀ goal, (∃ k ∈ inorder r.root, searchReserveWindow r goal = some k ∧
        (r.Holds k goal ∨ (∀ j ∈ inorder r.root, ¬ r.Holds j goal) ∧ (r.win k).rsvEnd < goal ∧
          ∀ j ∈ inorder r.root, (r.win j).rsvEnd < goal →
            (r.win j).rsvEnd ≤ (r.win k).rsvEnd)) ∧
      ∀ j, descend (windowProbe r.win goal) r.root = some j → goal < (r.win j).rsvStart →
        (inorder r.root).head? ≠ some j) ∧
    ∀ rsv, (r.win rsv).rsvStart ≤ (r.win rsv).rsvEnd →
      (∀ k ∈ inorder r.root, (r.win k).rsvEnd < (r.win rsv).rsvStart ∨
        (r.win rsv).rsvEnd < (r.win k).rsvStart) →
      ∃ t, krRsvWindowAdd ops r rsv = .done { r with root := ops.insertColor rsv t } ∧
        Grafted rsv r.root t ∧ Rsv.Sorted { r with root := t } ∧
        ∀ t', Grafted rsv r.root t' → Rsv.Sorted { r with root := t' } → t' = t := by
  refine ⟨fun goal => ⟨searchReserveWindow_spec h hplace goal, ?_⟩, ?_⟩
  · intro j _ hlt hfirst
    rw [h.first_le hplace hfirst] at hlt
    omega
  · intro rsv hle hapart
    exact krRsvWindowAdd_spec ops h hle hapart

/-- Three windows under the root, the placeholder among them; inode 3 has a window to add. -/
def smallRsv : Rsv where
  root := .node (.inode 1) (.node .head .nil .nil) (.node (.inode 2) .nil .nil)
  win := fun k => match k with
    | .inode 1 => ⟨8, 0, 10, 17⟩
    | .inode 2 => ⟨8, 0, 30, 37⟩
    | .inode 3 => ⟨6, 0, 20, 25⟩
    | _ => ⟨0, 0, 0, 0⟩

theorem reservationTree_search_and_add_small :
    (∃ k ∈ inorder smallRsv.root, searchReserveWindow smallRsv 28 = some k ∧
      (smallRsv.win k).rsvEnd = 17) ∧
    ∃ t, krRsvWindowAdd .plain smallRsv (.inode 3) = .done { smallRsv with root := t } ∧
      Grafted (.inode 3) smallRsv.root t := by
  have hsorted : smallRsv.Sorted := ⟨by decide, by decide⟩
  have hplace : smallRsv.HasPlaceholder := ⟨.head, by decide, rfl, rfl⟩
  obtain ⟨hsearch, hadd⟩ := reservationTree_search_and_add .plain hsorted hplace
  obtain ⟨k, hmem, hk, -⟩ := (hsearch 28).1
  obtain ⟨t, ht, hgraft, -⟩ := hadd (.inode 3) (by decide) (by decide)
  refine ⟨⟨k, hmem, hk, ?_⟩, t, ht, hgraft⟩
  have hnode : searchReserveWindow smallRsv 28 = some (.inode 1) := by decide
  obtain rfl : Window.inode 1 = k := Option.some.inj (hnode.symm.trans hk)
  rfl

/-! ## What the locked regions leave -/

section Regions

variable (ops : Rebalance Window) {r : Rsv} {ino : Nat}

theorem rsvWindowRemove_wf (h : r.Wf) (hmem : .inode ino ∈ inorder r.root) :
    (rsvWindowRemove ops r (.inode ino)).Wf := by
  have herase := ops.inorder_erase _ _ hmem
  simp only [Rsv.Wf, rsvWindowRemove, Rsv.setWin, herase]
  exact WindowsOrdered.erase h ino rfl

/-- Dropping leaves the window empty and the rest as it was. -/
theorem rsvWindowDrop_wf (h : r.Wf) (ino : Nat) :
    (rsvWindowDrop ops r (.inode ino)).Wf ∧
      ((rsvWindowDrop ops r (.inode ino)).win (.inode ino)).rsvEnd = 0 ∧
      ((rsvWindowDrop ops r (.inode ino)).win (.inode ino)).rsvGoalSize =
        (r.win (.inode ino)).rsvGoalSize ∧
      (∀ k, k ≠ .inode ino → (rsvWindowDrop ops r (.inode ino)).win k = r.win k) ∧
      inorder (rsvWindowDrop ops r (.inode ino)).root = (inorder r.root).erase (.inode ino) := by
  unfold rsvWindowDrop
  by_cases he : (r.win (.inode ino)).rsvEnd = 0
  · have hnot : .inode ino ∉ inorder r.root := fun hm => (h.mem_iff ino).mp hm he
    simp [rsvIsEmpty, KR_RESERVE_WINDOW_NOT_ALLOCATED, he, h, List.erase_of_not_mem hnot]
  · have hmem := (h.mem_iff ino).mpr he
    rw [if_neg (by simpa [rsvIsEmpty, KR_RESERVE_WINDOW_NOT_ALLOCATED] using he)]
    refine ⟨rsvWindowRemove_wf ops h hmem, ?_, ?_, ?_, ops.inorder_erase _ _ hmem⟩
    · simp [rsvWindowRemove, Rsv.setWin, KR_RESERVE_WINDOW_NOT_ALLOCATED]
    · simp [rsvWindowRemove, Rsv.setWin]
    · intro k hk
      simp [rsvWindowRemove, Rsv.setWin, hk]

/-- A window that lies between the windows `pre` and `post` is linked there. -/
theorem krRsvWindowAdd_done {pre post : List Window} (h : WindowsOrdered r.win (pre ++ post))
    (hroot : inorder r.root = pre ++ post) (hnew : .inode ino ∉ pre ++ post)
    {w : ReserveWindowNode} (hpre : ∀ k ∈ pre, (r.win k).rsvEnd < w.rsvStart)
    (hpost : ∀ k ∈ post, w.rsvEnd < (r.win k).rsvStart) (hw : w.rsvStart ≤ w.rsvEnd) :
    ∃ r', krRsvWindowAdd ops (r.setWin (.inode ino) w) (.inode ino) = .done r' ∧
      inorder r'.root = pre ++ .inode ino :: post ∧
      r'.win = Function.update r.win (.inode ino) w := by
  have other : ∀ k ∈ pre ++ post, (r.setWin (.inode ino) w).win k = r.win k := by
    intro k hk
    have hne : k ≠ .inode ino := by
      rintro rfl
      exact hnew hk
    simp [Rsv.setWin, hne]
  have hself : ((r.setWin (.inode ino) w).win (.inode ino)).rsvStart = w.rsvStart := by
    simp [Rsv.setWin]
  have hgt : ∀ k ∈ pre, windowProbe (r.setWin (.inode ino) w).win w.rsvStart k = .gt := by
    intro k hk
    have hsame := other k (List.mem_append_left _ hk)
    have hle := h.start_le_end k (List.mem_append_left _ hk)
    rw [← hsame] at hle
    apply (windowProbe_gt hle).mpr
    rw [hsame]
    exact hpre k hk
  have hlt : ∀ k ∈ post, windowProbe (r.setWin (.inode ino) w).win w.rsvStart k = .lt := by
    intro k hk
    apply windowProbe_lt.mpr
    rw [other k (List.mem_append_right _ hk)]
    exact hw.trans_lt (hpost k hk)
  obtain ⟨t, ht, hin⟩ : ∃ t, link (windowProbe (r.setWin (.inode ino) w).win w.rsvStart)
      (.inode ino) r.root = some t ∧ inorder t = pre ++ .inode ino :: post :=
    link_inorder hroot hgt hlt
  refine ⟨{ r.setWin (.inode ino) w with root := ops.insertColor (.inode ino) t }, ?_, ?_, rfl⟩
  · unfold krRsvWindowAdd
    rw [hself, show (r.setWin (.inode ino) w).root = r.root from rfl, ht]
  · rw [ops.inorder_insertColor, hin]

/-- The block the scan stops at is free of windows: every window up to the
node it returns ends before it, and every later one starts at least `size`
blocks after it. -/
theorem reservableFrom_spec {win : Window → ReserveWindowNode} {size lastBlock : Nat}
    {l : List Window} (h : WindowsOrdered win l) (rest : List Window) :
    ∀ {pre : List Window} {rsv : Window} {start cur : Nat} {stop : Window},
    l = pre ++ rsv :: rest →
    reservableFrom win size lastBlock start rsv rest = some (cur, stop) →
    ∃ before after, l = before ++ stop :: after ∧ start ≤ cur ∧ cur ≤ lastBlock ∧
      (∀ k ∈ before ++ [stop], (win k).rsvEnd < cur) ∧
      ∀ k ∈ after, cur + size ≤ (win k).rsvStart := by
  -- the nodes before the current one end before it starts
  have ends : ∀ {pre rest : List Window} {rsv : Window} {cur : Nat}, l = pre ++ rsv :: rest →
      (win rsv).rsvEnd < cur → ∀ k ∈ pre ++ [rsv], (win k).rsvEnd < cur := by
    intro pre rest rsv cur hl hcur k hk
    rcases List.mem_append.mp hk with hk | hk
    · have hsep := (List.pairwise_append.mp (hl ▸ h.disjoint)).2.2 k hk rsv (by simp)
      have := h.start_le_end rsv (by simp [hl])
      omega
    · have : k = rsv := by simpa using hk
      rwa [this]
  induction rest with
  | nil =>
    intro pre rsv start cur stop hl hscan
    obtain ⟨hge, hpast⟩ := pastWindow_spec (win rsv) start
    by_cases hlast : lastBlock < pastWindow (win rsv) start
    · simp [reservableFrom, hlast] at hscan
    · simp only [reservableFrom, hlast, if_false, Option.some.injEq, Prod.mk.injEq] at hscan
      obtain ⟨rfl, rfl⟩ := hscan
      exact ⟨pre, [], hl, hge, by omega, ends hl hpast, by simp⟩
  | cons next rest ih =>
    intro pre rsv start cur stop hl hscan
    obtain ⟨hge, hpast⟩ := pastWindow_spec (win rsv) start
    by_cases hlast : lastBlock < pastWindow (win rsv) start
    · simp [reservableFrom, hlast] at hscan
    by_cases hfits : pastWindow (win rsv) start + size ≤ (win next).rsvStart
    · simp only [reservableFrom, hlast, hfits, if_false, if_true, Option.some.injEq,
        Prod.mk.injEq] at hscan
      obtain ⟨rfl, rfl⟩ := hscan
      refine ⟨pre, next :: rest, hl, hge, by omega, ends hl hpast, ?_⟩
      have hsub : (next :: rest).Sublist l := by
        rw [hl]
        exact (List.sublist_cons_self _ _).trans (List.sublist_append_right _ _)
      have hsep := (List.pairwise_cons.mp (h.disjoint.sublist hsub)).1
      intro k hk
      rcases List.mem_cons.mp hk with rfl | hk
      · exact hfits
      · have := hsep k hk
        have := h.start_le_end next (by simp [hl])
        omega
    · simp only [reservableFrom, hlast, hfits, if_false] at hscan
      have hl' : l = (pre ++ [rsv]) ++ next :: rest := by simp [hl]
      obtain ⟨before, after, heq, hcur, hrest⟩ := ih hl' hscan
      exact ⟨before, after, heq, hge.trans hcur, hrest⟩

/-- Removing a node leaves every other node on its side. -/
theorem erase_split (before after : List Window) (k : Window) :
    ∃ before' after', (before ++ after).erase k = before' ++ after' ∧
      (∀ x ∈ before', x ∈ before) ∧ ∀ x ∈ after', x ∈ after := by
  by_cases hk : k ∈ before
  · exact ⟨before.erase k, after, List.erase_append_left _ hk,
      fun _ hx => List.mem_of_mem_erase hx, fun _ hx => hx⟩
  · exact ⟨before, after.erase k, List.erase_append_right _ hk, fun _ hx => hx,
      fun _ hx => List.mem_of_mem_erase hx⟩

/-- A window may be moved to any gap between the other windows. -/
theorem WindowsOrdered.move {win : Window → ReserveWindowNode} {l pre post : List Window}
    {w : ReserveWindowNode} (h : WindowsOrdered win l) (hl : l.erase (.inode ino) = pre ++ post)
    (hpre : ∀ k ∈ pre, (win k).rsvEnd < w.rsvStart)
    (hpost : ∀ k ∈ post, w.rsvEnd < (win k).rsvStart) (hw : w.rsvStart ≤ w.rsvEnd) :
    WindowsOrdered (Function.update win (.inode ino) w) (pre ++ .inode ino :: post) := by
  have hnot : Window.inode ino ∉ pre ++ post := hl ▸ h.nodup.not_mem_erase
  have other : ∀ v, ∀ k ∈ pre ++ post, Function.update win (.inode ino) v k = win k := by
    intro v k hk
    have hne : k ≠ .inode ino := by
      rintro rfl
      exact hnot hk
    exact Function.update_of_ne hne _ _
  let dropped : ReserveWindowNode := { w with rsvEnd := 0 }
  have hdrop : WindowsOrdered (Function.update win (.inode ino) dropped) (pre ++ post) :=
    hl ▸ h.erase ino rfl
  have hplace := hdrop.place hnot
    (fun k hk => by rw [other _ k (by simp [hk])]; exact hpre k hk)
    (fun k hk => by rw [other _ k (by simp [hk])]; exact hpost k hk) hw
  simpa using hplace

/-- Dropping a window and linking it into a gap between the others. -/
theorem relink_done (h : r.Wf) {pre post : List Window}
    (hl : (inorder r.root).erase (.inode ino) = pre ++ post) {w : ReserveWindowNode}
    (hpre : ∀ k ∈ pre, (r.win k).rsvEnd < w.rsvStart)
    (hpost : ∀ k ∈ post, w.rsvEnd < (r.win k).rsvStart) (hw : w.rsvStart ≤ w.rsvEnd) :
    ∃ r', krRsvWindowAdd ops ((rsvWindowDrop ops r (.inode ino)).setWin (.inode ino) w)
        (.inode ino) = .done r' ∧ inorder r'.root = pre ++ .inode ino :: post ∧
      r'.win = Function.update r.win (.inode ino) w := by
  obtain ⟨hwf, -, -, hother, hroot⟩ := rsvWindowDrop_wf ops h ino
  set r0 := rsvWindowDrop ops r (.inode ino)
  rw [hl] at hroot
  rw [Rsv.Wf, hroot] at hwf
  have hnot : Window.inode ino ∉ pre ++ post := hl ▸ h.nodup.not_mem_erase
  have same : ∀ k ∈ pre ++ post, r0.win k = r.win k := by
    intro k hk
    refine hother k ?_
    rintro rfl
    exact hnot hk
  obtain ⟨r', hadd, hin, hwin⟩ := krRsvWindowAdd_done ops hwf hroot hnot
    (fun k hk => by rw [same k (by simp [hk])]; exact hpre k hk)
    (fun k hk => by rw [same k (by simp [hk])]; exact hpost k hk) hw
  refine ⟨r', hadd, hin, ?_⟩
  rw [hwin]
  funext k
  by_cases hk : k = .inode ino
  · simp [hk]
  · simp [hk, hother k hk]

/-- The window that `find_next_reservable_window` books for the caller. -/
def bookedWindow (w : ReserveWindowNode) (cur : Nat) : ReserveWindowNode :=
  { w with rsvStart := cur, rsvEnd := cur + w.rsvGoalSize - 1, rsvAllocHit := 0 }

/-- Started at a node of the tree, the search either fails and leaves the tree
alone or books a window for the caller inside the given range; every other
window stays where it is. -/
theorem findNextReservableWindow_spec (h : r.Wf) {searchHead : Window}
    (hhead : searchHead ∈ inorder r.root) (hsize : 1 ≤ (r.win (.inode ino)).rsvGoalSize)
    (startBlock lastBlock : Nat) :
    findNextReservableWindow ops r (some searchHead) (.inode ino) startBlock lastBlock =
        .done none ∨
      ∃ r' cur, findNextReservableWindow ops r (some searchHead) (.inode ino) startBlock
          lastBlock = .done (some r') ∧ r'.Wf ∧ 0 < cur ∧ startBlock ≤ cur ∧
        cur ≤ lastBlock ∧
        r'.win = Function.update r.win (.inode ino) (bookedWindow (r.win (.inode ino)) cur) := by
  obtain ⟨pre, rest, hl⟩ := List.append_of_mem hhead
  have hsucc : successors r.root searchHead = rest := by
    refine successors_eq hl ?_
    have hnd := hl ▸ h.nodup
    exact fun hm => (List.disjoint_of_nodup_append hnd) hm (by simp)
  cases hscan : reservableFrom r.win (r.win (.inode ino)).rsvGoalSize lastBlock startBlock
      searchHead rest with
  | none =>
    left
    simp [findNextReservableWindow, hsucc, hscan]
  | some found =>
    obtain ⟨cur, stop⟩ := found
    right
    obtain ⟨before, after, hl', hge, hle, hbefore, hafter⟩ := reservableFrom_spec h rest hl hscan
    have hpos : 0 < cur := Nat.zero_lt_of_lt (hbefore stop (by simp))
    have hbooked : (bookedWindow (r.win (.inode ino)) cur).rsvStart ≤
        (bookedWindow (r.win (.inode ino)) cur).rsvEnd := by
      simp only [bookedWindow]
      omega
    have hpre : ∀ k ∈ before ++ [stop],
        (r.win k).rsvEnd < (bookedWindow (r.win (.inode ino)) cur).rsvStart := hbefore
    have hpost : ∀ k ∈ after,
        (bookedWindow (r.win (.inode ino)) cur).rsvEnd < (r.win k).rsvStart := by
      intro k hk
      have := hafter k hk
      simp only [bookedWindow]
      omega
    by_cases hstop : stop = .inode ino
    · -- the caller's own window moves forward in place
      subst hstop
      refine ⟨r.setWin (.inode ino) (bookedWindow (r.win (.inode ino)) cur), cur, ?_, ?_, hpos,
        hge, hle, rfl⟩
      · simp [findNextReservableWindow, hsucc, hscan, bookedWindow]
      · have hbn : Window.inode ino ∉ before := by
          have hnd := hl' ▸ h.nodup
          exact fun hm => (List.disjoint_of_nodup_append hnd) hm (by simp)
        have hrest : (inorder r.root).erase (.inode ino) = before ++ after := by
          rw [hl', List.erase_append_right _ hbn, List.erase_cons_head]
        have hmove := h.move hrest (fun k hk => hpre k (by simp [hk])) hpost hbooked
        simpa [Rsv.Wf, Rsv.setWin, hl'] using hmove
    · -- the window is dropped and linked again after `stop`
      obtain ⟨before', after', hsplit, hsub, hsub'⟩ :=
        erase_split (before ++ [stop]) after (.inode ino)
      rw [List.append_assoc, List.singleton_append, ← hl'] at hsplit
      obtain ⟨r', hadd, hin, hwin⟩ := relink_done ops h hsplit (fun k hk => hpre k (hsub k hk))
        (fun k hk => hpost k (hsub' k hk)) hbooked
      refine ⟨r', cur, ?_, ?_, hpos, hge, hle, hwin⟩
      · have hgoal := (rsvWindowDrop_wf ops h ino).2.2.1
        have hnode : { (rsvWindowDrop ops r (.inode ino)).win (.inode ino) with
            rsvStart := cur, rsvEnd := cur + (r.win (.inode ino)).rsvGoalSize - 1,
            rsvAllocHit := 0 } = bookedWindow (r.win (.inode ino)) cur := by
          simp [bookedWindow, hgoal]
        simp [findNextReservableWindow, hsucc, hscan, hstop, hnode, hadd, Exec.bind]
      · rw [Rsv.Wf, hin, hwin]
        exact h.move hsplit (fun k hk => hpre k (hsub k hk)) (fun k hk => hpost k (hsub' k hk))
          hbooked

/-- The search of the tree ends at a node, because the placeholder starts at
block 0. -/
theorem searchReserveWindow_mem (h : r.Wf) (goal : Nat) :
    ∃ k, searchReserveWindow r goal = some k ∧ k ∈ inorder r.root := by
  obtain ⟨k, hmem, hk, -⟩ := searchReserveWindow_spec h.sorted ⟨.head, h.head_mem, h.head_window⟩
    goal
  exact ⟨k, hk, hmem⟩

/-- Extending grows the caller's window up to its successor at most. -/
theorem tryToExtendReservation_wf (h : r.Wf) (hmem : .inode ino ∈ inorder r.root)
    (size : Nat) (locked : Bool) :
    let r' := tryToExtendReservation r (.inode ino) size locked
    r'.Wf ∧ ∃ w, r'.win = Function.update r.win (.inode ino) w ∧
      w.rsvStart = (r.win (.inode ino)).rsvStart ∧
      w.rsvGoalSize = (r.win (.inode ino)).rsvGoalSize ∧
      (r.win (.inode ino)).rsvEnd ≤ w.rsvEnd := by
  obtain ⟨before, after, hl⟩ := List.append_of_mem hmem
  have hbefore : Window.inode ino ∉ before := by
    have hnd := hl ▸ h.nodup
    exact fun hm => (List.disjoint_of_nodup_append hnd) hm (by simp)
  have hnext : next r.root (.inode ino) = after.head? := by rw [next, successors_eq hl hbefore]
  have hrest : (inorder r.root).erase (.inode ino) = before ++ after := by
    rw [hl, List.erase_append_right _ hbefore, List.erase_cons_head]
  obtain ⟨-, hpost, hpre⟩ := List.pairwise_append.mp (hl ▸ h.disjoint)
  have hle := h.start_le_end _ hmem
  have grow : ∀ w : ReserveWindowNode, w.rsvStart = (r.win (.inode ino)).rsvStart →
      w.rsvGoalSize = (r.win (.inode ino)).rsvGoalSize →
      (r.win (.inode ino)).rsvEnd ≤ w.rsvEnd →
      (∀ k ∈ after, w.rsvEnd < (r.win k).rsvStart) →
      (r.setWin (.inode ino) w).Wf ∧ ∃ v, (r.setWin (.inode ino) w).win =
          Function.update r.win (.inode ino) v ∧
        v.rsvStart = (r.win (.inode ino)).rsvStart ∧
        v.rsvGoalSize = (r.win (.inode ino)).rsvGoalSize ∧
        (r.win (.inode ino)).rsvEnd ≤ v.rsvEnd := by
    intro w hstart hgoal hend hafter
    refine ⟨?_, w, rfl, hstart, hgoal, hend⟩
    have hmove := h.move hrest (fun k hk => by rw [hstart]; exact hpre k hk _ (by simp)) hafter
      (by omega)
    simpa [Rsv.Wf, Rsv.setWin, hl] using hmove
  cases locked with
  | false =>
    refine ⟨h, r.win (.inode ino), ?_, rfl, rfl, le_refl _⟩
    simp [tryToExtendReservation]
  | true =>
    cases hafter : after with
    | nil =>
      simp only [tryToExtendReservation, Bool.not_true, hnext, hafter]
      exact grow _ rfl rfl (by simp) (by simp [hafter])
    | cons n after' =>
      -- later windows start after the next one does
      have hn : ∀ k ∈ after, (r.win n).rsvStart ≤ (r.win k).rsvStart := by
        intro k hk
        rw [hafter] at hk hpost
        rcases List.mem_cons.mp hk with rfl | hk
        · exact le_refl _
        · have := (List.pairwise_cons.mp (List.pairwise_cons.mp hpost).2).1 k hk
          have := h.start_le_end n (by simp [hl, hafter])
          omega
      have hgap := (List.pairwise_cons.mp hpost).1 n (by simp [hafter])
      simp only [tryToExtendReservation, Bool.not_true, hnext, hafter, List.head?_cons]
      by_cases hfits : size ≤ (r.win n).rsvStart - (r.win (.inode ino)).rsvEnd - 1
      · rw [if_neg (by simp), if_pos hfits]
        exact grow _ rfl rfl (by simp) fun k hk => by have := hn k hk; simp only; omega
      · rw [if_neg (by simp), if_neg hfits]
        exact grow _ rfl rfl (by simp only; omega)
          fun k hk => by have := hn k hk; simp only; omega

/-- The tree the mount sets up holds the placeholder only. -/
theorem rsvInit_wf (win : Window → ReserveWindowNode)
    (hempty : ∀ ino, (win (.inode ino)).rsvEnd = 0) :
    ∃ r, rsvInit ops win = .done r ∧ r.Wf ∧ ∀ ino, r.win (.inode ino) = win (.inode ino) := by
  refine ⟨_, rfl, ?_, fun ino => by simp⟩
  have hroot : inorder (ops.insertColor .head (.node .head .nil .nil)) = [Window.head] := by
    rw [ops.inorder_insertColor]
    rfl
  rw [Rsv.Wf, hroot]
  exact ⟨by simp, by simp, rfl, by simp, fun ino => by simp [hempty ino]⟩

end Regions

end KrFs
