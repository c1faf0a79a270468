import KrFs.AllocReservation
import KrFs.Lib.Gap

/-!
# Where a new window goes

`find_next_reservable_window` finds the first gap between the windows, and
`alloc_new_reservation` the first of the places it comes to that has a clear bit. Both are
told by the windows alone, whatever the shape of the tree.
-/

namespace KrFs

open SearchTree Bitmap

/-- The windows of the inodes. -/
def Rsv.inodeWin (r : Rsv) (ino : Nat) : ReserveWindowNode := r.win (.inode ino)

/-- The blocks that the allocated windows of the inodes in `who` cover, and the placeholder. -/
def takenWindows (win : Nat → ReserveWindowNode) (who : Set Nat) : Set (Nat × Nat) :=
  {i | i = (0, 0) ∨ ∃ k ∈ who, (win k).rsvEnd ≠ 0 ∧ i = ((win k).rsvStart, (win k).rsvEnd)}

/-- The places that `alloc_new_reservation` may come to from block `start` on. The first is the
next gap, with the window of the caller itself in the way; the others are gaps behind clear
bits. A window is put where it begins in the group and holds a clear bit. -/
def WindowPlaces (sbi : SbInfo) (group : Nat) (bm : Nat → Bool) (win : Nat → ReserveWindowNode)
    (ino start : Nat) : Set Nat :=
  {c | (NextGap (takenWindows win Set.univ) (win ino).rsvGoalSize start c ∨
      ∃ c₁ b, NextGap (takenWindows win Set.univ) (win ino).rsvGoalSize start c₁ ∧
        c₁ ≤ sbi.groupFirstBlockNo group + b ∧ b < sbi.sBlocksPerGroup ∧ bm b = false ∧
        NextGap (takenWindows win {ino}ᶜ) (win ino).rsvGoalSize (sbi.groupFirstBlockNo group + b)
          c) ∧
    c ≤ groupEndBlock sbi group ∧ HoldsFree sbi group bm (bookedWindow (win ino) c)}

theorem WindowPlaces.start_le {sbi : SbInfo} {group : Nat} {bm : Nat → Bool}
    {win : Nat → ReserveWindowNode} {ino start c : Nat}
    (h : c ∈ WindowPlaces sbi group bm win ino start) : start ≤ c := by
  rcases h.1 with hfirst | ⟨c₁, b, hfirst, hle, -, -, hnext⟩
  · exact hfirst.le
  · exact hfirst.le.trans (hle.trans hnext.le)

/-- No window is put over the placeholder. -/
theorem WindowPlaces.pos {sbi : SbInfo} {group : Nat} {bm : Nat → Bool}
    {win : Nat → ReserveWindowNode} {ino start c : Nat} (hsize : 1 ≤ (win ino).rsvGoalSize)
    (h : c ∈ WindowPlaces sbi group bm win ino start) : 0 < c := by
  have hgap : c + (win ino).rsvGoalSize ≤ 0 ∨ 0 < c := by
    rcases h.1 with hfirst | ⟨_, _, _, _, _, _, hnext⟩
    · exact hfirst.gap (0, 0) (Or.inl rfl)
    · exact hnext.gap (0, 0) (Or.inl rfl)
  omega

section Gaps

variable {win : Nat → ReserveWindowNode} {who : Set Nat} {size c ino : Nat}

theorem gap_takenWindows_iff : Gap (takenWindows win who) size c ↔ (size = 0 ∧ c = 0 ∨ 0 < c) ∧
    ∀ k ∈ who, (win k).rsvEnd ≠ 0 → c + size ≤ (win k).rsvStart ∨ (win k).rsvEnd < c := by
  constructor
  · intro h
    refine ⟨?_, fun k hk hend => h _ (Or.inr ⟨k, hk, hend, rfl⟩)⟩
    have hzero : c + size ≤ 0 ∨ 0 < c := h (0, 0) (Or.inl rfl)
    omega
  · rintro ⟨hzero, h⟩ i (rfl | ⟨k, hk, hend, rfl⟩)
    · simp only
      omega
    · exact h k hk hend

/-- In the tree are the placeholder and the allocated windows. -/
theorem Rsv.Wf.gap_iff {r : Rsv} (h : r.Wf) : Gap (takenWindows r.inodeWin Set.univ) size c ↔
    ∀ k ∈ inorder r.root, c + size ≤ (r.win k).rsvStart ∨ (r.win k).rsvEnd < c := by
  have hhead := h.head_window
  constructor
  · intro hgap k hk
    cases k with
    | head =>
      rw [hhead.1, hhead.2]
      exact hgap (0, 0) (Or.inl rfl)
    | inode i => exact hgap _ (Or.inr ⟨i, trivial, (h.mem_iff i).mp hk, rfl⟩)
  · rintro hgap i (rfl | ⟨k, -, hend, rfl⟩)
    · have hmem := hgap .head (WindowsOrdered.head_mem h)
      rwa [hhead.1, hhead.2] at hmem
    · exact hgap _ ((h.mem_iff k).mpr hend)

/-- A window that lies before the gap is not in its way. -/
theorem gap_others_iff (hbefore : (win ino).rsvEnd < c) :
    Gap (takenWindows win Set.univ) size c ↔ Gap (takenWindows win {ino}ᶜ) size c := by
  rw [gap_takenWindows_iff, gap_takenWindows_iff]
  refine and_congr_right fun _ => ⟨fun h k _ hend => h k trivial hend, fun h k _ hend => ?_⟩
  by_cases hk : k = ino
  · exact Or.inr (hk ▸ hbefore)
  · exact h k hk hend

theorem takenWindows_others (w : ReserveWindowNode) :
    takenWindows (Function.update win ino w) {ino}ᶜ = takenWindows win {ino}ᶜ := by
  ext i
  refine or_congr_right (exists_congr fun k => and_congr_right fun hk => ?_)
  rw [Function.update_of_ne hk]

end Gaps

/-! ## The scan -/

/-- The scan stops at no later place than one that fits. -/
theorem reservableFrom_le {win : Window → ReserveWindowNode} {size lastBlock c : Nat}
    (hsize : 1 ≤ size) (hlast : c ≤ lastBlock) (rest : List Window) : ∀ {rsv : Window} {start : Nat},
    (win rsv).rsvStart ≤ c → start ≤ c → (∀ k ∈ rest, (win k).rsvStart ≤ (win k).rsvEnd) →
    (∀ k ∈ rsv :: rest, c + size ≤ (win k).rsvStart ∨ (win k).rsvEnd < c) →
    ∃ cur stop, reservableFrom win size lastBlock start rsv rest = some (cur, stop) ∧ cur ≤ c := by
  induction rest with
  | nil =>
    intro rsv start hfirst hstart _ hgap
    have hpast : pastWindow (win rsv) start ≤ c := by
      have := hgap rsv (by simp)
      unfold pastWindow
      split <;> omega
    refine ⟨_, rsv, ?_, hpast⟩
    simp only [reservableFrom]
    rw [if_neg (by omega)]
  | cons next rest ih =>
    intro rsv start hfirst hstart hordered hgap
    have hpast : pastWindow (win rsv) start ≤ c := by
      have := hgap rsv (by simp)
      unfold pastWindow
      split <;> omega
    simp only [reservableFrom]
    rw [if_neg (by omega)]
    by_cases hfits : pastWindow (win rsv) start + size ≤ (win next).rsvStart
    · rw [if_pos hfits]
      exact ⟨_, rsv, rfl, hpast⟩
    · rw [if_neg hfits]
      have hnext := hgap next (by simp)
      have hle := hordered next (by simp)
      exact ih (by omega) hpast (fun k hk => hordered k (by simp [hk]))
        (fun k hk => hgap k (List.mem_cons_of_mem _ hk))

section Find

variable (ops : Rebalance Window) {r : Rsv} {ino : Nat}

theorem krRsvWindowAdd_win {r r' : Rsv} {rsv : Window} (h : krRsvWindowAdd ops r rsv = .done r') :
    r'.win = r.win := by
  unfold krRsvWindowAdd at h
  split at h
  · cases h
  · cases h
    rfl

/-- The window is booked where the scan has stopped. -/
theorem findNextReservableWindow_start {r' : Rsv} {searchHead me : Window} {start last cur : Nat}
    {stop : Window} (hscan : reservableFrom r.win (r.win me).rsvGoalSize last start searchHead
      (successors r.root searchHead) = some (cur, stop))
    (h : findNextReservableWindow ops r (some searchHead) me start last = .done (some r')) :
    (r'.win me).rsvStart = cur := by
  simp only [findNextReservableWindow, hscan] at h
  split at h
  · obtain ⟨r₁, hadd, hdone⟩ := Exec.bind_eq_done.mp h
    cases hdone
    rw [krRsvWindowAdd_win ops hadd]
    simp [Rsv.setWin]
  · cases h
    simp [Rsv.setWin]

/-- From a node that does not start behind `start`, the search finds the first gap from there
on, or none before the last block. -/
theorem findNextReservableWindow_first (h : r.Wf) {searchHead : Window}
    (hhead : searchHead ∈ inorder r.root) {start : Nat} (last : Nat)
    (hbefore : (r.win searchHead).rsvStart ≤ start)
    (hsize : 1 ≤ (r.win (.inode ino)).rsvGoalSize) :
    (findNextReservableWindow ops r (some searchHead) (.inode ino) start last = .done none ∧
      ∀ c, start ≤ c → Gap (takenWindows r.inodeWin Set.univ) (r.win (.inode ino)).rsvGoalSize c →
        last < c) ∨
    ∃ r' cur, findNextReservableWindow ops r (some searchHead) (.inode ino) start last =
        .done (some r') ∧ r'.Wf ∧
      NextGap (takenWindows r.inodeWin Set.univ) (r.win (.inode ino)).rsvGoalSize start cur ∧
      cur ≤ last ∧
      r'.win = Function.update r.win (.inode ino) (bookedWindow (r.win (.inode ino)) cur) := by
  obtain ⟨pre, rest, hl⟩ := List.append_of_mem hhead
  have hsucc : successors r.root searchHead = rest := by
    refine successors_eq hl ?_
    have hnd := hl ▸ h.nodup
    exact fun hm => (List.disjoint_of_nodup_append hnd) hm (by simp)
  have hordered : ∀ k ∈ rest, (r.win k).rsvStart ≤ (r.win k).rsvEnd := fun k hk =>
    h.start_le_end k (by simp [hl, hk])
  -- a gap before the last block makes the scan stop there or earlier
  have hstops : ∀ c, start ≤ c → c ≤ last →
      Gap (takenWindows r.inodeWin Set.univ) (r.win (.inode ino)).rsvGoalSize c →
      ∃ cur stop, reservableFrom r.win (r.win (.inode ino)).rsvGoalSize last start searchHead rest =
        some (cur, stop) ∧ cur ≤ c := by
    intro c hstart hlast hgap
    refine reservableFrom_le hsize hlast rest (hbefore.trans hstart) hstart hordered fun k hk => ?_
    exact h.gap_iff.mp hgap k (by rw [hl]; exact List.mem_append_right _ hk)
  rcases findNextReservableWindow_spec ops h hhead hsize start last with
    hnone | ⟨r', cur, hfound, hwf, -, hge, hle, hwin⟩
  · refine Or.inl ⟨hnone, fun c hstart hgap => ?_⟩
    by_contra hlast
    obtain ⟨cur, stop, hscan, -⟩ := hstops c hstart (by omega) hgap
    rw [← hsucc] at hscan
    simp only [findNextReservableWindow, hscan] at hnone
    split at hnone
    · obtain ⟨r₁, -, hdone⟩ := Exec.bind_eq_done.mp hnone
      cases hdone
    · cases hnone
  · refine Or.inr ⟨r', cur, hfound, hwf, ⟨⟨hge, ?_⟩, ?_⟩, hle, hwin⟩
    · cases hscan : reservableFrom r.win (r.win (.inode ino)).rsvGoalSize last start searchHead
          rest with
      | none =>
        rw [← hsucc] at hscan
        simp [findNextReservableWindow, hscan] at hfound
      | some found =>
        obtain ⟨cur', stop⟩ := found
        obtain ⟨before, after, hl', -, -, hends, hstarts⟩ := reservableFrom_spec h rest hl hscan
        rw [← hsucc] at hscan
        have hcur := findNextReservableWindow_start ops hscan hfound
        rw [hwin, Function.update_self] at hcur
        obtain rfl : cur = cur' := hcur
        refine h.gap_iff.mpr fun k hk => ?_
        rw [hl'] at hk
        rcases List.mem_append.mp hk with hk | hk
        · exact Or.inr (hends k (by simp [hk]))
        · rcases List.mem_cons.mp hk with rfl | hk
          · exact Or.inr (hends k (by simp))
          · exact Or.inl (hstarts k hk)
    · rintro c ⟨hstart, hgap⟩
      by_contra hlt
      obtain ⟨cur', stop, hscan, hcle⟩ := hstops c hstart (by omega) hgap
      rw [← hsucc] at hscan
      have hcur := findNextReservableWindow_start ops hscan hfound
      rw [hwin, Function.update_self] at hcur
      have hcur : cur = cur' := hcur
      omega

end Find

/-! ## The window that is reserved -/

/-- A window that is not allocated, with its goal size. -/
def emptyWindow (size : Nat) : ReserveWindowNode := ⟨size, 0, 0, 0⟩

/-- What `alloc_new_reservation` leaves of the windows, by the places it may come to. -/
def PlacedAt (r r' : Rsv) (ino : Nat) (w : ReserveWindowNode) (places : Set Nat) (reserved : Bool) :
    Prop :=
  r'.Wf ∧ (∀ k, k ≠ .inode ino → r'.win k = r.win k) ∧
    ((reserved = true ∧ ∃ c, IsLeast places c ∧ r'.win (.inode ino) = bookedWindow w c) ∨
      (reserved = false ∧ places = ∅ ∧ (r'.win (.inode ino)).rsvEnd = 0 ∧
        (r'.win (.inode ino)).rsvGoalSize = w.rsvGoalSize))

section Reserve

variable (ops : Rebalance Window) {sbi : SbInfo} {group ino : Nat} {bm : Nat → Bool} {r r' : Rsv}
  {w : ReserveWindowNode} {reserved : Bool}

theorem groupEndBlock_bits (hbpg : 0 < sbi.sBlocksPerGroup) :
    groupEndBlock sbi group - sbi.groupFirstBlockNo group + 1 = sbi.sBlocksPerGroup := by
  unfold groupEndBlock
  omega

/-- The search for a clear bit of the group from `c` on. -/
theorem bitmapSearch_none (hbpg : 0 < sbi.sBlocksPerGroup) {c : Nat}
    (h : bitmapSearchNextUsableBlock (c - sbi.groupFirstBlockNo group) bm
      (groupEndBlock sbi group - sbi.groupFirstBlockNo group + 1) = none) {b : Nat}
    (hb : b < sbi.sBlocksPerGroup) (hc : c ≤ sbi.groupFirstBlockNo group + b) : bm b = true := by
  rw [groupEndBlock_bits hbpg] at h
  obtain ⟨-, -, hset⟩ := nextZero_spec bm sbi.sBlocksPerGroup (c - sbi.groupFirstBlockNo group)
  unfold bitmapSearchNextUsableBlock at h
  dsimp only at h
  split at h
  · exact hset b (by omega) (by omega)
  · cases h

theorem bitmapSearch_least (hbpg : 0 < sbi.sBlocksPerGroup) {c p : Nat}
    (h : bitmapSearchNextUsableBlock (c - sbi.groupFirstBlockNo group) bm
      (groupEndBlock sbi group - sbi.groupFirstBlockNo group + 1) = some p) {b : Nat}
    (hc : c ≤ sbi.groupFirstBlockNo group + b) (hclear : bm b = false) : p ≤ b := by
  rw [groupEndBlock_bits hbpg] at h
  obtain ⟨-, -, hset⟩ := nextZero_spec bm sbi.sBlocksPerGroup (c - sbi.groupFirstBlockNo group)
  unfold bitmapSearchNextUsableBlock at h
  dsimp only at h
  split at h
  · cases h
  · cases h
    by_contra hlt
    have hbit := hset b (by omega) (by omega)
    rw [hclear] at hbit
    cases hbit

/-- A round that fails drops the window. -/
theorem placedAt_dropped {places : Set Nat} (h : r.Wf)
    (hsize : (r.win (.inode ino)).rsvGoalSize = w.rsvGoalSize) (hplaces : places = ∅) :
    PlacedAt r (rsvWindowDrop ops r (.inode ino)) ino w places false := by
  obtain ⟨hwf, hend, hgoal, hother, -⟩ := rsvWindowDrop_wf ops h ino
  exact ⟨hwf, hother, Or.inr ⟨rfl, hplaces, hend, hgoal.trans hsize⟩⟩

theorem bookedWindow_congr {w₁ w₂ : ReserveWindowNode} (h : w₁.rsvGoalSize = w₂.rsvGoalSize) (c : Nat) :
    bookedWindow w₁ c = bookedWindow w₂ c := by
  simp only [bookedWindow, h]

/-- A place that has been booked and holds no clear bit does not count, and the search goes on
at the next clear bit. -/
theorem windowPlaces_next {win : Nat → ReserveWindowNode} {start cur p : Nat}
    (hcur : NextGap (takenWindows win Set.univ) (win ino).rsvGoalSize start cur)
    (hp : p < sbi.sBlocksPerGroup) (hclear : bm p = false)
    (hleast : ∀ b, cur ≤ sbi.groupFirstBlockNo group + b → bm b = false → p ≤ b)
    (hpast : (bookedWindow (win ino) cur).rsvEnd < sbi.groupFirstBlockNo group + p)
    (hge : cur ≤ sbi.groupFirstBlockNo group + p) :
    WindowPlaces sbi group bm (Function.update win ino (bookedWindow (win ino) cur)) ino
      (sbi.groupFirstBlockNo group + p) = WindowPlaces sbi group bm win ino start := by
  have hnew : Function.update win ino (bookedWindow (win ino) cur) ino =
      bookedWindow (win ino) cur := Function.update_self _ _ _
  have hgoal : (bookedWindow (win ino) cur).rsvGoalSize = (win ino).rsvGoalSize := rfl
  -- the booked window lies before the clear bit
  have hothers : ∀ a c, sbi.groupFirstBlockNo group + p ≤ a →
      (NextGap (takenWindows (Function.update win ino (bookedWindow (win ino) cur)) Set.univ)
        (win ino).rsvGoalSize a c ↔ NextGap (takenWindows win {ino}ᶜ) (win ino).rsvGoalSize a c) := by
    intro a c ha
    have hset : {d | a ≤ d ∧ Gap (takenWindows (Function.update win ino (bookedWindow (win ino) cur))
        Set.univ) (win ino).rsvGoalSize d} =
          {d | a ≤ d ∧ Gap (takenWindows win {ino}ᶜ) (win ino).rsvGoalSize d} := by
      ext d
      refine and_congr_right fun hd => ?_
      rw [gap_others_iff (by rw [hnew]; omega), takenWindows_others]
    unfold NextGap
    rw [hset]
  have hempty : ¬ HoldsFree sbi group bm (bookedWindow (win ino) cur) := by
    rintro ⟨b, -, hb, hlow, hhigh⟩
    have := hleast b hlow hb
    omega
  unfold WindowPlaces
  rw [hnew, hgoal, takenWindows_others]
  ext c
  have hbooked : bookedWindow (bookedWindow (win ino) cur) c = bookedWindow (win ino) c :=
    bookedWindow_congr rfl c
  simp only [Set.mem_ofPred_eq, hbooked]
  refine and_congr_left fun hfits => ?_
  constructor
  · rintro (hfirst | ⟨c₁, b, hfirst, hle, hb, hbclear, hnext⟩)
    · exact Or.inr ⟨cur, p, hcur, hge, hp, hclear, (hothers _ _ le_rfl).mp hfirst⟩
    · have hc₁ := hfirst.le
      exact Or.inr ⟨cur, b, hcur, by omega, hb, hbclear, hnext⟩
  · rintro (hfirst | ⟨c₁, b, hfirst, hle, hb, hbclear, hnext⟩)
    · obtain rfl := hcur.unique hfirst
      exact absurd hfits.2 hempty
    · obtain rfl := hcur.unique hfirst
      have hpb := hleast b hle hbclear
      have hc := hnext.le
      obtain ⟨c₁, hc₁⟩ : ∃ c₁, NextGap (takenWindows win {ino}ᶜ) (win ino).rsvGoalSize
          (sbi.groupFirstBlockNo group + p) c₁ := NextGap.exists_of_gap (by omega) hnext.gap
      by_cases hbefore : c₁ ≤ sbi.groupFirstBlockNo group + b
      · exact Or.inr ⟨c₁, b, (hothers _ _ le_rfl).mpr hc₁, hbefore, hb, hbclear, hnext⟩
      · obtain rfl := (hc₁.between (by omega) (by omega)).unique hnext
        exact Or.inl ((hothers _ _ le_rfl).mpr hc₁)

/-- The loop at `retry` ends at the first of the places, and fails when there is none. -/
theorem reserveRetry_places (hbpg : 0 < sbi.sBlocksPerGroup) (fuel : Nat) :
    ∀ {r : Rsv} {searchHead : Window} {start : Nat}, r.Wf → searchHead ∈ inorder r.root →
    (r.win searchHead).rsvStart ≤ start → (r.win (.inode ino)).rsvGoalSize = w.rsvGoalSize →
    1 ≤ w.rsvGoalSize → sbi.groupFirstBlockNo group ≤ start →
    reserveRetry ops sbi (.inode ino) group bm fuel r (some searchHead) start =
      .done (r', reserved) →
    PlacedAt r r' ino w (WindowPlaces sbi group bm r.inodeWin ino start) reserved := by
  induction fuel with
  | zero =>
    intro r searchHead start _ _ _ _ _ _ hrun
    cases hrun
  | succ fuel ih =>
    intro r searchHead start h hhead hbefore hgoal hsize hlow hrun
    have hself : r.inodeWin ino = r.win (.inode ino) := rfl
    have hfirst := findNextReservableWindow_first ops h hhead (groupEndBlock sbi group) hbefore
      (hgoal ▸ hsize)
    rcases hfirst with ⟨hnone, hfar⟩ | ⟨r₁, cur, hfound, hwf, hcur, hle, hwin⟩
    · simp only [reserveRetry, reserveLocked, hnone, Exec.bind, Bool.not_false, if_true] at hrun
      cases hrun
      refine placedAt_dropped ops h hgoal (Set.eq_empty_of_forall_notMem ?_)
      rintro c ⟨hplace, hend, -⟩
      rcases hplace with hc | ⟨c₁, b, hc₁, hc₁b, hb, -, hnext⟩
      · have := hfar c hc.le hc.gap
        omega
      · have := hfar c₁ hc₁.le hc₁.gap
        have := hnext.le
        omega
    have hbooked : r₁.win (.inode ino) = bookedWindow (r.win (.inode ino)) cur := by
      rw [hwin, Function.update_self]
    have hother : ∀ k, k ≠ .inode ino → r₁.win k = r.win k := by
      intro k hk
      rw [hwin, Function.update_of_ne hk]
    have hgoal₁ : (r₁.win (.inode ino)).rsvGoalSize = w.rsvGoalSize := by
      rw [hbooked]
      exact hgoal
    have hstart₁ : (r₁.win (.inode ino)).rsvStart = cur := by
      rw [hbooked]
      rfl
    have hend₁ : (r₁.win (.inode ino)).rsvEnd = cur + w.rsvGoalSize - 1 := by
      rw [hbooked]
      simp only [bookedWindow, hgoal]
    have hgecur := hcur.le
    -- the search comes to no place before the one that has been booked
    have hplaces : ∀ {c}, (NextGap (takenWindows r.inodeWin Set.univ) (r.inodeWin ino).rsvGoalSize
        start c ∨ ∃ c₁ b, NextGap (takenWindows r.inodeWin Set.univ) (r.inodeWin ino).rsvGoalSize
          start c₁ ∧ c₁ ≤ sbi.groupFirstBlockNo group + b ∧ b < sbi.sBlocksPerGroup ∧
            bm b = false ∧ NextGap (takenWindows r.inodeWin {ino}ᶜ) (r.inodeWin ino).rsvGoalSize
              (sbi.groupFirstBlockNo group + b) c) → cur ≤ c := by
      intro c hplace
      rcases hplace with hc | ⟨c₁, b, hc₁, hle₁, -, -, hnext⟩
      · exact hcur.mono hc le_rfl
      · have := hcur.mono hc₁ le_rfl
        have := hnext.le
        omega
    simp only [reserveRetry, reserveLocked, hfound, Exec.bind, Bool.not_true, Bool.false_eq_true,
      if_false, hstart₁] at hrun
    cases hsearch : bitmapSearchNextUsableBlock (cur - sbi.groupFirstBlockNo group) bm
        (groupEndBlock sbi group - sbi.groupFirstBlockNo group + 1) with
    | none =>
      rw [hsearch] at hrun
      cases hrun
      have hnone : WindowPlaces sbi group bm r.inodeWin ino start = ∅ := by
        refine Set.eq_empty_of_forall_notMem ?_
        rintro c ⟨hplace, -, b, hb, hclear, hfrom, -⟩
        have hset := bitmapSearch_none hbpg hsearch hb ((hplaces hplace).trans hfrom)
        rw [hclear] at hset
        cases hset
      have hdrop := placedAt_dropped ops hwf hgoal₁ hnone
      exact ⟨hdrop.1, fun k hk => (hdrop.2.1 k hk).trans (hother k hk), hdrop.2.2⟩
    | some p =>
      rw [hsearch] at hrun
      dsimp only at hrun
      obtain ⟨hp1, hp2, hclear⟩ := bitmapSearchNextUsableBlock_some hsearch
      rw [groupEndBlock_bits hbpg] at hp2
      have hleast : ∀ b, cur ≤ sbi.groupFirstBlockNo group + b → bm b = false → p ≤ b :=
        fun b hc hb => bitmapSearch_least hbpg hsearch hc hb
      by_cases hin : p + sbi.groupFirstBlockNo group ≤ (r₁.win (.inode ino)).rsvEnd
      · rw [if_pos (by simpa using ⟨by omega, hin⟩)] at hrun
        cases hrun
        rw [hend₁] at hin
        refine ⟨hwf, hother, Or.inl ⟨rfl, cur, ⟨⟨Or.inl hcur, hle, p, hp2, hclear, ?_, ?_⟩, ?_⟩, ?_⟩⟩
        · simp only [bookedWindow]
          omega
        · simp only [bookedWindow, hself, hgoal]
          omega
        · rintro c ⟨hplace, -, -⟩
          exact hplaces hplace
        · rw [hbooked]
          exact bookedWindow_congr hgoal cur
      · rw [hend₁] at hin
        rw [if_neg (by simpa [hend₁] using fun _ => by omega)] at hrun
        have hpos : cur + _ ≤ 0 ∨ 0 < cur := hcur.gap (0, 0) (Or.inl rfl)
        have hmem : .inode ino ∈ inorder r₁.root := by
          rw [hwf.mem_iff, hend₁]
          omega
        rw [Nat.add_comm p] at hrun
        have hrest := ih hwf hmem (by omega) hgoal₁ hsize (by omega) hrun
        have hwin₁ : r₁.inodeWin = Function.update r.inodeWin ino
            (bookedWindow (r.inodeWin ino) cur) := by
          funext k
          by_cases hk : k = ino
          · subst hk
            rw [Function.update_self]
            exact hbooked
          · rw [Function.update_of_ne hk]
            exact hother _ (by simpa using hk)
        have hnext : WindowPlaces sbi group bm r₁.inodeWin ino (sbi.groupFirstBlockNo group + p) =
            WindowPlaces sbi group bm r.inodeWin ino start := by
          rw [hwin₁]
          refine windowPlaces_next hcur hp2 hclear hleast ?_ (by omega)
          simp only [bookedWindow, hself, hgoal]
          omega
        rw [hnext] at hrest
        exact ⟨hrest.1, fun k hk => (hrest.2.1 k hk).trans (hother k hk), hrest.2.2⟩

/-- `alloc_new_reservation` with the goal size it has settled on. -/
theorem allocNewReservation_places (hbpg : 0 < sbi.sBlocksPerGroup) (h : r.Wf)
    (hsize : 1 ≤ (r.win (.inode ino)).rsvGoalSize) {grpGoal : Int} {fuel : Nat}
    (hrun : allocNewReservation ops sbi (.inode ino) group bm fuel r grpGoal = .done (r', reserved)) :
    (newReservationSize (r.win (.inode ino)) (groupEndBlock sbi group)
        (startBlockNo sbi group grpGoal) = none ∧ reserved = false ∧ r' = r) ∨
      ∃ w, newReservationSize (r.win (.inode ino)) (groupEndBlock sbi group)
          (startBlockNo sbi group grpGoal) = some w ∧
        PlacedAt r r' ino w (WindowPlaces sbi group bm (Function.update r.inodeWin ino w) ino
          (startBlockNo sbi group grpGoal)) reserved := by
  have hlow : sbi.groupFirstBlockNo group ≤ startBlockNo sbi group grpGoal := by
    unfold startBlockNo
    split
    · exact le_refl _
    · exact Nat.le_add_left _ _
  rw [allocNewReservation_eq] at hrun
  cases hnew : newReservationSize (r.win (.inode ino)) (groupEndBlock sbi group)
      (startBlockNo sbi group grpGoal) with
  | none =>
    rw [hnew] at hrun
    cases hrun
    exact Or.inl ⟨rfl, rfl, rfl⟩
  | some w =>
    rw [hnew] at hrun
    dsimp only at hrun
    obtain ⟨hstart, hend, hpos⟩ := newReservationSize_some hnew
    have hwf : (r.setWin (.inode ino) w).Wf := h.setWin hstart hend
    have hself : (r.setWin (.inode ino) w).win (.inode ino) = w := by simp [Rsv.setWin]
    obtain ⟨node, hmem, hnode, hwhere⟩ := searchReserveWindow_spec hwf.sorted
      ⟨.head, hwf.head_mem, hwf.head_window⟩ (startBlockNo sbi group grpGoal)
    have hbefore : ((r.setWin (.inode ino) w).win node).rsvStart ≤ startBlockNo sbi group grpGoal := by
      have hle := hwf.start_le_end node hmem
      rcases hwhere with hholds | ⟨-, hlt, -⟩
      · exact hholds.1
      · omega
    have hplaced := reserveRetry_places ops hbpg fuel hwf hmem hbefore (w := w) (by rw [hself])
      (hpos hsize) hlow (by rw [← hrun, ← hnode])
    have hwin : (r.setWin (.inode ino) w).inodeWin = Function.update r.inodeWin ino w := by
      funext k
      by_cases hk : k = ino
      · subst hk
        rw [Function.update_self]
        exact hself
      · rw [Function.update_of_ne hk]
        exact setWin_other r _ w _ (by simpa using hk)
    rw [hwin] at hplaced
    exact Or.inr ⟨w, rfl, hplaced.1, fun k hk => (hplaced.2.1 k hk).trans (setWin_other r _ w k hk),
      hplaced.2.2⟩

end Reserve

end KrFs
