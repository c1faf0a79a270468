import KrFs.DirSafe

/-!
# Records and stores

What the stores of `dir.c` do to the records of a page. A record is read from its own
bytes only, so records outside of a store stay, and a stretch of records can be
replaced by another one of the same length. The records here may be as short as their
header: `kr_add_link` cuts a record without a name down to 8 bytes, and no loop is
harmed by that.
-/

namespace KrFs

open Bytes Tiling

/-- A record with room for its name that stays in its chunk. -/
structure Fits (g : DirGeom) (p : Nat → UInt8) (de : Nat) : Prop where
  align : 4 ∣ deRecLen g p de
  name : krDirRecLen (deNameLen p de) ≤ deRecLen g p de
  span : (de + deRecLen g p de - 1) / g.chunkSize = de / g.chunkSize
  inumber : deInode p de ≤ g.sInodesCount

/-- A stretch of a page cut into such records. -/
def PageFits (g : DirGeom) (p : Nat → UInt8) : Nat → Nat → List Nat → Prop :=
  Tiled (deRecLen g p) (Fits g p)

/-- Name, inode number and type of a record. -/
def entryAt (p : Nat → UInt8) (de : Nat) : List UInt8 × (Nat × UInt8) :=
  (deName p de, deInode p de, deFileType p de)

section Read

variable {g : DirGeom} {p p' : Nat → UInt8} {a b s t de x : Nat} {offs xs ys seg seg' : List Nat}

theorem EntryOk.fits (h : EntryOk g p de) : Fits g p de := ⟨h.align, h.name, h.span, h.inumber⟩

theorem Fits.entryOk (h : Fits g p de) (hmin : 12 ≤ deRecLen g p de) : EntryOk g p de :=
  ⟨hmin, h.align, h.name, h.span, h.inumber⟩

theorem Fits.room (h : Fits g p de) : 8 + deNameLen p de ≤ deRecLen g p de := by
  have hname := h.name
  have hlen := krDirRecLen_le (deNameLen p de)
  omega

theorem Fits.pos (h : Fits g p de) : 0 < deRecLen g p de := by
  have hroom := h.room
  omega

theorem PageTiled.fits (h : PageTiled g p a b offs) : PageFits g p a b offs :=
  Tiled.congr h fun _ _ => ⟨rfl, EntryOk.fits⟩

theorem PageFits.tiled (h : PageFits g p a b offs) (hmin : ∀ x ∈ offs, 12 ≤ deRecLen g p x) :
    PageTiled g p a b offs :=
  Tiled.congr h fun x hx => ⟨rfl, fun hfits => hfits.entryOk (hmin x hx)⟩

/-! ### Reading from unchanged bytes -/

theorem deInode_congr (h : ∀ i, x ≤ i → i < x + 4 → p' i = p i) : deInode p' x = deInode p x := by
  unfold deInode
  rw [load_congr h]

theorem deRecLen_congr (h : ∀ i, x + 4 ≤ i → i < x + 6 → p' i = p i) :
    deRecLen g p' x = deRecLen g p x := by
  unfold deRecLen
  rw [load_congr h]

theorem deNameLen_congr (h : p' (x + 6) = p (x + 6)) : deNameLen p' x = deNameLen p x := by
  unfold deNameLen
  rw [h]

theorem deName_congr (hlen : p' (x + 6) = p (x + 6))
    (h : ∀ i, x + 8 ≤ i → i < x + 8 + deNameLen p x → p' i = p i) : deName p' x = deName p x := by
  unfold deName
  rw [deNameLen_congr hlen, load_congr h]

theorem deName_eq_one {x : UInt8} : deName p de = [x] ↔ deNameLen p de = 1 ∧ p (de + 8) = x := by
  unfold deName load
  constructor
  · intro h
    have hlen := congrArg List.length h
    rw [List.length_map, List.length_range, List.length_singleton] at hlen
    rw [hlen] at h
    exact ⟨hlen, by simpa using h⟩
  · rintro ⟨hlen, hx⟩
    rw [hlen]
    simpa using hx

theorem deName_eq_two {x y : UInt8} :
    deName p de = [x, y] ↔ deNameLen p de = 2 ∧ p (de + 8) = x ∧ p (de + 9) = y := by
  unfold deName load
  constructor
  · intro h
    have hlen := congrArg List.length h
    rw [List.length_map, List.length_range, List.length_cons, List.length_singleton] at hlen
    rw [hlen] at h
    exact ⟨hlen, by simpa [List.range_succ] using h⟩
  · rintro ⟨hlen, hx, hy⟩
    rw [hlen]
    simpa [List.range_succ] using ⟨hx, hy⟩

/-- A record is read from its header and its name. -/
theorem header_congr (h : ∀ i, x ≤ i → i < x + 8 + deNameLen p x → p' i = p i) :
    deRecLen g p' x = deRecLen g p x ∧ deNameLen p' x = deNameLen p x ∧ entryAt p' x = entryAt p x := by
  have hlenByte : p' (x + 6) = p (x + 6) := h _ (by omega) (by omega)
  have hino : deInode p' x = deInode p x :=
    deInode_congr fun i hlow hhigh => h i (by omega) (by omega)
  have hname : deName p' x = deName p x :=
    deName_congr hlenByte fun i hlow hhigh => h i (by omega) (by omega)
  have htype : deFileType p' x = deFileType p x := h _ (by omega) (by omega)
  refine ⟨deRecLen_congr fun i hlow hhigh => h i (by omega) (by omega), deNameLen_congr hlenByte, ?_⟩
  unfold entryAt
  rw [hname, hino, htype]

theorem deInode_of_entryAt {e : List UInt8 × (Nat × UInt8)} (h : entryAt p de = e) :
    deInode p de = e.2.1 :=
  congrArg (fun e => e.2.1) h

/-- A record whose bytes stay is the same record. -/
theorem Fits.congr (h : Fits g p x) (hsame : ∀ i, x ≤ i → i < x + deRecLen g p x → p' i = p i) :
    deRecLen g p' x = deRecLen g p x ∧ Fits g p' x ∧ entryAt p' x = entryAt p x := by
  have hroom := h.room
  obtain ⟨hrec, hlen, hentry⟩ :=
    header_congr (g := g) (p := p) (x := x) fun i hlow hhigh => hsame i hlow (by omega)
  have hino : deInode p' x = deInode p x := deInode_of_entryAt hentry
  refine ⟨hrec, ⟨?_, ?_, ?_, ?_⟩, hentry⟩
  · rw [hrec]
    exact h.align
  · rw [hlen, hrec]
    exact h.name
  · rw [hrec]
    exact h.span
  · rw [hino]
    exact h.inumber

theorem PageFits.congr (h : PageFits g p a b offs) (hsame : ∀ i, a ≤ i → i < b → p' i = p i) :
    PageFits g p' a b offs ∧
      ∀ x ∈ offs, deRecLen g p' x = deRecLen g p x ∧ entryAt p' x = entryAt p x := by
  have hrecord : ∀ x ∈ offs,
      deRecLen g p' x = deRecLen g p x ∧ Fits g p' x ∧ entryAt p' x = entryAt p x := by
    intro x hx
    obtain ⟨hlow, hhigh⟩ := h.bounds hx
    exact (h.ok_of_mem hx).congr fun i hi hlt => hsame i (by omega) (by omega)
  exact ⟨Tiled.congr h fun x hx => ⟨(hrecord x hx).1, fun _ => (hrecord x hx).2.1⟩,
    fun x hx => ⟨(hrecord x hx).1, (hrecord x hx).2.2⟩⟩

/-- A stretch of records is replaced by another one. -/
theorem PageFits.replace (hxs : PageFits g p a s xs) (hys : PageFits g p t b ys)
    (hseg : PageFits g p' s t seg') (hsame : ∀ i, i < s ∨ t ≤ i → p' i = p i) :
    PageFits g p' a b (xs ++ (seg' ++ ys)) ∧
      (∀ x ∈ xs, deRecLen g p' x = deRecLen g p x ∧ entryAt p' x = entryAt p x) ∧
      ∀ x ∈ ys, deRecLen g p' x = deRecLen g p x ∧ entryAt p' x = entryAt p x := by
  obtain ⟨hxs', hleft⟩ := PageFits.congr hxs fun i _ hlt => hsame i (Or.inl hlt)
  obtain ⟨hys', hright⟩ := PageFits.congr hys fun i hle _ => hsame i (Or.inr hle)
  exact ⟨hxs'.append (Tiled.append hseg hys'), hleft, hright⟩

end Read

/-! ### Lengths on disk -/

section Length

variable {g : DirGeom} {p : Nat → UInt8} {de len : Nat}

/-- A length that a record may have comes back from disk. -/
theorem krRecLen_disk (hmax : len ≤ 2 ^ 16) (halign : 4 ∣ len)
    (hpage : len = 2 ^ 16 → 65536 ≤ g.pageSize) :
    krRecLenFromDisk g (value (digits 2 (krRecLenToDisk g len))) = len := by
  rw [value_digits]
  by_cases hbig : len = 2 ^ 16
  · have hdisk : krRecLenToDisk g len = 65535 := if_pos ⟨hpage hbig, hbig⟩
    rw [hdisk]
    exact (if_pos ⟨hpage hbig, by decide⟩).trans hbig.symm
  · have hdisk : krRecLenToDisk g len = len % 2 ^ 16 := if_neg fun h => hbig h.2
    have hlen : len % 2 ^ 16 % 256 ^ 2 = len := by omega
    rw [hdisk, hlen]
    apply if_neg
    unfold KR_MAX_REC_LEN
    omega

/-- The length of a record in a chunk of at most 64 KiB. -/
theorem krRecLen_chunk (hchunk : g.chunkBits ≤ 16) (hmax : len ≤ g.chunkSize) (halign : 4 ∣ len) :
    krRecLenFromDisk g (value (digits 2 (krRecLenToDisk g len))) = len := by
  have hpow : g.chunkSize ≤ 2 ^ 16 := Nat.pow_le_pow_right (Nat.succ_pos 1) hchunk
  have hpage := g.chunkSize_le
  exact krRecLen_disk (by omega) halign (by omega)

end Length

theorem DirGeom.chunkSize_align (g : DirGeom) : 4 ∣ g.chunkSize := by
  have hpow : 2 ^ 2 ∣ g.chunkSize := Nat.pow_dvd_pow 2 (by have := g.chunk_min; omega)
  exact hpow

/-! ### Single records after stores -/

section Stores

variable {g : DirGeom} {p q : Nat → UInt8} {de pde len need : Nat} {name : List UInt8}
  {inode : LinkTarget}

/-- `kr_set_link` changes the inode number and the type of the record. -/
theorem setStores_fields (g : DirGeom) (p : Nat → UInt8) (de : Nat) (hino : inode.iIno < 2 ^ 32) :
    let p' := apply p [⟨de, digits 4 inode.iIno⟩, ⟨de + 7, [deTypeOf g inode.iMode]⟩]
    deRecLen g p' de = deRecLen g p de ∧ deNameLen p' de = deNameLen p de ∧
      entryAt p' de = (deName p de, inode.iIno, deTypeOf g inode.iMode) := by
  intro p'
  have houtside : ∀ i, de + 4 ≤ i → i ≠ de + 7 → p' i = p i := by
    intro i hlow hne
    refine apply_outside ?_
    simp only [List.forall_mem_cons, length_digits, List.length_singleton]
    refine ⟨by omega, by omega, by simp⟩
  have hlen : p' (de + 6) = p (de + 6) := houtside _ (by omega) (by omega)
  have hino' : deInode p' de = inode.iIno := by
    unfold deInode
    simp only [p', apply_cons, apply_nil]
    rw [load_store_of_disjoint (by simp), load_store_self (by simp), value_digits]
    omega
  have htype : deFileType p' de = deTypeOf g inode.iMode :=
    store_inside (by simp : 0 < [deTypeOf g inode.iMode].length)
  have hname : deName p' de = deName p de :=
    deName_congr hlen fun i hlow _ => houtside i (by omega) (by omega)
  refine ⟨deRecLen_congr fun i hlow hhigh => houtside i (by omega) (by omega), deNameLen_congr hlen, ?_⟩
  unfold entryAt
  rw [hname, hino', htype]

/-- The stores for a new record leave its length alone. -/
theorem entryStores_fields (g : DirGeom) (p : Nat → UInt8) (de : Nat) (hname : name.length ≤ 255) (hino : inode.iIno < 2 ^ 32) :
    let p' := apply p (entryStores g name inode de)
    deRecLen g p' de = deRecLen g p de ∧ deNameLen p' de = name.length ∧
      entryAt p' de = (name, inode.iIno, deTypeOf g inode.iMode) := by
  intro p'
  have hrec : deRecLen g p' de = deRecLen g p de := by
    refine deRecLen_congr fun i hlow hhigh => apply_outside ?_
    simp only [entryStores, List.forall_mem_cons, length_digits, List.length_singleton]
    refine ⟨by omega, by omega, by omega, by omega, by simp⟩
  have hlenByte : p' (de + 6) = UInt8.ofNat name.length := by
    have hlast : ∀ s ∈ [(⟨de + 8, name⟩ : Store), ⟨de, digits 4 inode.iIno⟩,
        ⟨de + 7, [deTypeOf g inode.iMode]⟩], de + 6 < s.off ∨ s.off + s.data.length ≤ de + 6 := by
      simp only [List.forall_mem_cons, length_digits, List.length_singleton]
      refine ⟨by omega, by omega, by omega, by simp⟩
    exact (apply_outside hlast).trans (store_inside (by simp : 0 < [UInt8.ofNat name.length].length))
  have hlen : deNameLen p' de = name.length := by
    unfold deNameLen
    rw [hlenByte, UInt8.toNat_ofNat']
    omega
  have hino' : deInode p' de = inode.iIno := by
    unfold deInode
    simp only [p', entryStores, apply_cons, apply_nil]
    rw [load_store_of_disjoint (by simp), load_store_self (by simp), value_digits]
    omega
  have htype : deFileType p' de = deTypeOf g inode.iMode :=
    store_inside (by simp : 0 < [deTypeOf g inode.iMode].length)
  have hname' : deName p' de = name := by
    unfold deName
    rw [hlen]
    simp only [p', entryStores, apply_cons, apply_nil]
    rw [load_store_of_disjoint (by simp), load_store_of_disjoint (by simp), load_store_self rfl]
  refine ⟨hrec, hlen, ?_⟩
  unfold entryAt
  rw [hname', hino', htype]

/-- Outside of the bytes for the new record nothing changes. -/
theorem entryStores_outside {i : Nat} (h : i < de ∨ de + 8 + name.length ≤ i) :
    apply p (entryStores g name inode de) i = p i := by
  refine apply_outside ?_
  simp only [entryStores, List.forall_mem_cons, length_digits, List.length_singleton]
  refine ⟨by omega, by omega, by omega, by omega, by simp⟩

/-- A new length at `de`. -/
theorem lengthStore_fields (p : Nat → UInt8) (de : Nat)
    (hlen : krRecLenFromDisk g (value (digits 2 (krRecLenToDisk g len))) = len) :
    let p' := store p (de + 4) (digits 2 (krRecLenToDisk g len))
    deRecLen g p' de = len ∧ deNameLen p' de = deNameLen p de ∧ entryAt p' de = entryAt p de := by
  intro p'
  have houtside : ∀ i, i < de + 4 ∨ de + 6 ≤ i → p' i = p i := by
    intro i hi
    refine store_outside ?_
    rw [length_digits]
    omega
  have hlenByte : p' (de + 6) = p (de + 6) := houtside _ (by omega)
  have hrec : deRecLen g p' de = len := by
    unfold deRecLen
    rw [load_store_self (by simp), hlen]
  have hname : deName p' de = deName p de :=
    deName_congr hlenByte fun i hlow _ => houtside i (by omega)
  have hino : deInode p' de = deInode p de := deInode_congr fun i _ hhigh => houtside i (by omega)
  have htype : deFileType p' de = deFileType p de := houtside _ (by omega)
  refine ⟨hrec, deNameLen_congr hlenByte, ?_⟩
  unfold entryAt
  rw [hname, hino, htype]

/-- A record is taken out of use. -/
theorem clearStore_fields (g : DirGeom) (p : Nat → UInt8) (de : Nat) :
    let p' := store p de (digits 4 0)
    deRecLen g p' de = deRecLen g p de ∧ deNameLen p' de = deNameLen p de ∧ deInode p' de = 0 := by
  intro p'
  have houtside : ∀ i, de + 4 ≤ i → p' i = p i := by
    intro i hi
    refine store_outside ?_
    rw [length_digits]
    omega
  refine ⟨deRecLen_congr fun i hlow _ => houtside i hlow, deNameLen_congr (houtside _ (by omega)), ?_⟩
  unfold deInode
  rw [load_store_self (by simp), value_digits_zero]

end Stores

/-! ### The records of a page in use -/

/-- Which records of a page are in use, by their places. -/
def pageSlots (p : Nat → UInt8) (offs : List Nat) (x : Nat) : Option (List UInt8 × (Nat × UInt8)) :=
  if x ∈ offs ∧ deInode p x ≠ 0 then some (entryAt p x) else none

section Slots

variable {g : DirGeom} {p p' : Nat → UInt8} {a b s t de x : Nat} {offs xs ys seg seg' : List Nat}
  {new : Option (List UInt8 × (Nat × UInt8))}

theorem pageSlots_append (p : Nat → UInt8) (xs ys : List Nat) (x : Nat) :
    pageSlots p (xs ++ ys) x = (pageSlots p xs x).or (pageSlots p ys x) := by
  unfold pageSlots
  by_cases hlive : deInode p x = 0
  · simp [hlive]
  · by_cases hxs : x ∈ xs
    · simp [hlive, hxs]
    · simp [hxs]

theorem pageSlots_of_not_mem (h : x ∉ offs) : pageSlots p offs x = none := if_neg fun hx => h hx.1

theorem pageSlots_congr (h : ∀ x ∈ offs, entryAt p' x = entryAt p x) :
    pageSlots p' offs x = pageSlots p offs x := by
  unfold pageSlots
  by_cases hx : x ∈ offs
  · have heq := h x hx
    have hino : deInode p' x = deInode p x := congrArg (fun e => e.2.1) heq
    rw [heq, hino]
  · rw [if_neg fun h => hx h.1, if_neg fun h => hx h.1]

/-- One stretch of records is replaced, in which only the record at `de` changes. -/
theorem pageSlots_replace (seg seg' : List Nat) (hxs : PageFits g p a s xs) (hys : PageFits g p t b ys)
    (hlow : s ≤ de) (hhigh : de < t) (hxs' : ∀ x ∈ xs, entryAt p' x = entryAt p x)
    (hys' : ∀ x ∈ ys, entryAt p' x = entryAt p x)
    (hseg : pageSlots p' seg' = Function.update (pageSlots p seg) de new) :
    pageSlots p' (xs ++ (seg' ++ ys)) = Function.update (pageSlots p (xs ++ (seg ++ ys))) de new := by
  funext x
  rw [pageSlots_append, pageSlots_append, hseg, pageSlots_congr hxs', pageSlots_congr hys']
  by_cases hx : x = de
  · subst hx
    have hleft : x ∉ xs := fun hmem => by
      have := hxs.bounds hmem
      have := (hxs.ok_of_mem hmem).pos
      omega
    have hright : x ∉ ys := fun hmem => by
      have := hys.bounds hmem
      omega
    rw [pageSlots_of_not_mem hleft, pageSlots_of_not_mem hright, Function.update_self,
      Function.update_self, Option.none_or, Option.or_none]
  · rw [Function.update_of_ne hx, Function.update_of_ne hx, pageSlots_append, pageSlots_append]

/-- A single record that changes. -/
theorem pageSlots_single (hde : pageSlots p' [de] de = new) :
    pageSlots p' [de] = Function.update (pageSlots p [de]) de new := by
  funext x
  by_cases hx : x = de
  · subst hx
    rw [Function.update_self, hde]
  · rw [Function.update_of_ne hx, pageSlots_of_not_mem (by simpa using hx),
      pageSlots_of_not_mem (by simpa using hx)]

end Slots

/-- What a call does to the records of a page: the used part may grow, and only the
slot at `de` changes. If the records had the length of the shortest name before, they
have it after, under a condition. -/
def PageEdit (g : DirGeom) (p p' : Nat → UInt8) (b' : Nat) (offs : List Nat) (de : Nat)
    (new : Option (List UInt8 × (Nat × UInt8))) (keeps : Prop) : Prop :=
  ∃ offs', PageFits g p' 0 b' offs' ∧ pageSlots p' offs' = Function.update (pageSlots p offs) de new ∧
    (keeps → (∀ x ∈ offs, 12 ≤ deRecLen g p x) → ∀ x ∈ offs', 12 ≤ deRecLen g p' x)

section Edit

variable {g : DirGeom} {p p' : Nat → UInt8} {b de pde recLen : Nat} {offs xs ys : List Nat}
  {name : List UInt8} {inode : LinkTarget} {new : Option (List UInt8 × (Nat × UInt8))}

theorem pageSlots_self (hino : deInode p de ≠ 0) : pageSlots p [de] de = some (entryAt p de) :=
  if_pos ⟨List.mem_singleton_self de, hino⟩

theorem pageSlots_dead (hino : deInode p de = 0) : pageSlots p offs de = none :=
  if_neg fun h => h.2 hino

/-- A record is changed in place. -/
theorem edit_inPlace (h : PageFits g p 0 b offs) (hde : de ∈ offs)
    (hsame : ∀ i, i < de ∨ de + deRecLen g p de ≤ i → p' i = p i)
    (hrec : deRecLen g p' de = deRecLen g p de) (hfits : Fits g p' de)
    (hnew : pageSlots p' [de] de = new) : PageEdit g p p' b offs de new True := by
  obtain ⟨xs, ys, rfl⟩ := List.append_of_mem hde
  obtain ⟨hxs, hok, hys⟩ := h.split
  have hseg : PageFits g p' de (de + deRecLen g p de) [de] := by
    refine Tiled.cons hfits ?_
    rw [hrec]
    exact Tiled.nil _
  obtain ⟨htiled, hleft, hright⟩ := PageFits.replace hxs hys hseg hsame
  have hpos := hok.pos
  refine ⟨_, htiled, ?_, ?_⟩
  · exact pageSlots_replace [de] [de] hxs hys (Nat.le_refl de) (by omega)
      (fun x hx => (hleft x hx).2) (fun x hx => (hright x hx).2) (pageSlots_single hnew)
  · intro _ hlong x hx
    have hmem : x ∈ xs ++ de :: ys := hx
    rcases List.mem_append.mp hx with hx | hx
    · rw [(hleft x hx).1]
      exact hlong x hmem
    · rcases List.mem_cons.mp hx with rfl | hx
      · rw [hrec]
        exact hlong x hmem
      · rw [(hright x hx).1]
        exact hlong x hmem

/-- `kr_set_link`. -/
theorem edit_set (h : PageFits g p 0 b offs) (hde : de ∈ offs) (hlow : inode.iIno ≠ 0)
    (hhigh : inode.iIno ≤ g.sInodesCount) (hcount : g.sInodesCount < 2 ^ 32) :
    PageEdit g p (apply p [⟨de, digits 4 inode.iIno⟩, ⟨de + 7, [deTypeOf g inode.iMode]⟩]) b offs de
      (some (deName p de, inode.iIno, deTypeOf g inode.iMode)) True := by
  have hok := h.ok_of_mem hde
  have hroom := hok.room
  obtain ⟨hrec, hlen, hentry⟩ := setStores_fields g p de (show inode.iIno < 2 ^ 32 by omega)
  have hino := deInode_of_entryAt hentry
  refine edit_inPlace h hde ?_ hrec ⟨?_, ?_, ?_, ?_⟩ ?_
  · intro i hi
    refine apply_outside ?_
    simp only [List.forall_mem_cons, length_digits, List.length_singleton]
    refine ⟨by omega, by omega, by simp⟩
  · rw [hrec]
    exact hok.align
  · rw [hlen, hrec]
    exact hok.name
  · rw [hrec]
    exact hok.span
  · rw [hino]
    exact hhigh
  · rw [pageSlots_self (by rw [hino]; exact hlow), hentry]

/-- `kr_add_link` takes a record that is not in use. -/
theorem edit_reuse (h : PageFits g p 0 b offs) (hde : de ∈ offs) (hname : name.length ≤ 255)
    (hfits : krDirRecLen name.length ≤ deRecLen g p de) (hlow : inode.iIno ≠ 0)
    (hhigh : inode.iIno ≤ g.sInodesCount) (hcount : g.sInodesCount < 2 ^ 32) :
    PageEdit g p (apply p (entryStores g name inode de)) b offs de
      (some (name, inode.iIno, deTypeOf g inode.iMode)) True := by
  have hok := h.ok_of_mem hde
  have hlen := krDirRecLen_le name.length
  obtain ⟨hrec, hlen', hentry⟩ :=
    entryStores_fields g p de hname (show inode.iIno < 2 ^ 32 by omega)
  have hino := deInode_of_entryAt hentry
  refine edit_inPlace h hde ?_ hrec ⟨?_, ?_, ?_, ?_⟩ ?_
  · intro i hi
    exact entryStores_outside (by omega)
  · rw [hrec]
    exact hok.align
  · rw [hlen', hrec]
    exact hfits
  · rw [hrec]
    exact hok.span
  · rw [hino]
    exact hhigh
  · rw [pageSlots_self (by rw [hino]; exact hlow), hentry]

/-- `kr_delete_entry` on the first record of a chunk. -/
theorem edit_clear (h : PageFits g p 0 b offs) (hde : de ∈ offs) :
    PageEdit g p (apply p [⟨de, digits 4 0⟩]) b offs de none True := by
  rw [apply_cons, apply_nil]
  have hok := h.ok_of_mem hde
  have hroom := hok.room
  obtain ⟨hrec, hlen, hino⟩ := clearStore_fields g p de
  refine edit_inPlace h hde ?_ hrec ⟨?_, ?_, ?_, ?_⟩ (pageSlots_dead hino)
  · intro i hi
    refine store_outside ?_
    rw [length_digits]
    dsimp only
    omega
  · rw [hrec]
    exact hok.align
  · rw [hlen, hrec]
    exact hok.name
  · rw [hrec]
    exact hok.span
  · rw [hino]
    exact Nat.zero_le _

/-- Two places in one chunk are less than a chunk apart. -/
theorem sub_le_chunk (g : DirGeom) {x y : Nat} (h : y / g.chunkSize = x / g.chunkSize) :
    y + 1 - x ≤ g.chunkSize := by
  have hx := Nat.div_add_mod x g.chunkSize
  have hy := Nat.div_add_mod y g.chunkSize
  have hlt := Nat.mod_lt y g.chunkSize_pos
  rw [h] at hy
  omega

/-- `kr_delete_entry` joins a record to the one before it in the chunk. -/
theorem edit_merge (hchunk : g.chunkBits ≤ 16) (h : PageFits g p 0 b (xs ++ pde :: de :: ys))
    (hsame : pde / g.chunkSize = de / g.chunkSize) :
    PageEdit g p (apply p [⟨pde + 4, digits 2 (krRecLenToDisk g (de + deRecLen g p de - pde))⟩,
      ⟨de, digits 4 0⟩]) b (xs ++ pde :: de :: ys) de none True := by
  obtain ⟨hxs, hpde, hrest⟩ := h.split
  obtain ⟨hjoin, hde, hys⟩ : pde + deRecLen g p pde = de ∧ Fits g p de ∧
      PageFits g p (de + deRecLen g p de) b ys := by
    generalize hmid : pde + deRecLen g p pde = mid at hrest
    cases hrest with
    | cons ok rest => exact ⟨rfl, ok, rest⟩
  have hproom := hpde.room
  have hdroom := hde.room
  set len := de + deRecLen g p de - pde with hlenDef
  set q := store p (pde + 4) (digits 2 (krRecLenToDisk g len)) with hq
  set p' := apply p [⟨pde + 4, digits 2 (krRecLenToDisk g len)⟩, ⟨de, digits 4 0⟩] with hp'
  have hspan : (de + deRecLen g p de - 1) / g.chunkSize = pde / g.chunkSize := hde.span.trans hsame.symm
  have hmax : len ≤ g.chunkSize := by
    have := sub_le_chunk g hspan
    omega
  have halign : 4 ∣ len := by
    have heq : len = deRecLen g p pde + deRecLen g p de := by omega
    rw [heq]
    exact Nat.dvd_add hpde.align hde.align
  obtain ⟨hqrec, hqlen, hqentry⟩ :=
    lengthStore_fields p pde (krRecLen_chunk hchunk hmax halign)
  have hbelow : ∀ i, pde ≤ i → i < pde + 8 + deNameLen q pde → p' i = q i := by
    intro i _ hhigh
    rw [hqlen] at hhigh
    refine store_outside (Or.inl ?_)
    show i < de
    omega
  obtain ⟨hrec, hlen, hentry⟩ := header_congr (g := g) hbelow
  have hrec' : deRecLen g p' pde = len := hrec.trans hqrec
  have hentry' : entryAt p' pde = entryAt p pde := hentry.trans hqentry
  have houtside : ∀ i, i < pde ∨ de + deRecLen g p de ≤ i → p' i = p i := by
    intro i hi
    refine apply_outside ?_
    simp only [List.forall_mem_cons, length_digits]
    refine ⟨by omega, by omega, by simp⟩
  have hfits : Fits g p' pde := by
    refine ⟨by rw [hrec']; exact halign, ?_, ?_, ?_⟩
    · have hname := hpde.name
      rw [hlen, hqlen, hrec']
      omega
    · have heq : pde + len - 1 = de + deRecLen g p de - 1 := by omega
      rw [hrec', heq, hspan]
    · rw [deInode_of_entryAt hentry']
      exact hpde.inumber
  have hseg : PageFits g p' pde (de + deRecLen g p de) [pde] := by
    refine Tiled.cons hfits ?_
    have heq : pde + deRecLen g p' pde = de + deRecLen g p de := by omega
    rw [heq]
    exact Tiled.nil _
  obtain ⟨htiled, hleft, hright⟩ := PageFits.replace hxs hys hseg houtside
  have hpos := hde.pos
  have hne : pde ≠ de := by omega
  refine ⟨_, htiled, ?_, ?_⟩
  · refine pageSlots_replace [pde, de] [pde] hxs hys (by omega) (by omega)
      (fun x hx => (hleft x hx).2) (fun x hx => (hright x hx).2) ?_
    funext x
    by_cases hx : x = de
    · subst hx
      rw [Function.update_self, pageSlots_of_not_mem (by simpa using hne.symm)]
    · have hsplit : pageSlots p [pde, de] x = (pageSlots p [pde] x).or (pageSlots p [de] x) :=
        pageSlots_append p [pde] [de] x
      have hno : x ∉ [de] := by simpa using hx
      rw [Function.update_of_ne hx, hsplit, pageSlots_of_not_mem hno, Option.or_none]
      exact pageSlots_congr (by simpa using hentry')
  · intro _ hlong x hx
    rcases List.mem_append.mp hx with hx | hx
    · rw [(hleft x hx).1]
      exact hlong x (List.mem_append_left _ hx)
    · rcases List.mem_cons.mp hx with rfl | hx
      · have hold := hlong x (by simp)
        omega
      · rw [(hright x hx).1]
        exact hlong x (by simp [List.mem_append, List.mem_cons, show x ∈ ys from hx])

/-- `kr_add_link` cuts a record in two and takes the second part. -/
theorem edit_split (hchunk : g.chunkBits ≤ 16) (h : PageFits g p 0 b offs) (hmem : de ∈ offs)
    (hnonempty : 1 ≤ name.length) (hname : name.length ≤ 255)
    (hroom : krDirRecLen (deNameLen p de) + krDirRecLen name.length ≤ deRecLen g p de)
    (hlow : inode.iIno ≠ 0) (hhigh : inode.iIno ≤ g.sInodesCount) (hcount : g.sInodesCount < 2 ^ 32) :
    PageEdit g p
      (apply p ([⟨de + krDirRecLen (deNameLen p de) + 4,
            digits 2 (krRecLenToDisk g (deRecLen g p de - krDirRecLen (deNameLen p de)))⟩,
          ⟨de + 4, digits 2 (krRecLenToDisk g (krDirRecLen (deNameLen p de)))⟩] ++
        entryStores g name inode (de + krDirRecLen (deNameLen p de)))) b offs
      (de + krDirRecLen (deNameLen p de)) (some (name, inode.iIno, deTypeOf g inode.iMode))
      (deNameLen p de ≠ 0) := by
  obtain ⟨xs, ys, rfl⟩ := List.append_of_mem hmem
  obtain ⟨hxs, hde, hys⟩ := h.split
  set need := krDirRecLen (deNameLen p de) with hneed
  set len := deRecLen g p de - need with hlen
  have hneedLe : deNameLen p de + 8 ≤ need := krDirRecLen_le _
  have hnameLe := krDirRecLen_le name.length
  have hmax : deRecLen g p de ≤ g.chunkSize := by
    have := sub_le_chunk g hde.span
    omega
  have hneedAlign : 4 ∣ need := krDirRecLen_dvd _
  have hlenAlign : 4 ∣ len := Nat.dvd_sub hde.align hneedAlign
  set q := store p (de + need + 4) (digits 2 (krRecLenToDisk g len)) with hq
  set r := store q (de + 4) (digits 2 (krRecLenToDisk g need)) with hr
  set p' := apply r (entryStores g name inode (de + need)) with hp'
  have hpage : apply p ([⟨de + need + 4, digits 2 (krRecLenToDisk g len)⟩,
      ⟨de + 4, digits 2 (krRecLenToDisk g need)⟩] ++ entryStores g name inode (de + need)) = p' := by
    rw [apply_append]
    rfl
  rw [hpage]
  -- the first part keeps its name and gets the length that it needs
  have hqp : ∀ i, i < de + need → q i = p i := fun i hi => store_outside (Or.inl (by omega))
  have hframe : ∀ i, de ≤ i → i < de + 8 + deNameLen p de → q i = p i :=
    fun i _ hlt => hqp i (by omega)
  obtain ⟨hqrec, hqlen, hqentry⟩ := header_congr (g := g) hframe
  obtain ⟨hrrec, hrlen, hrentry⟩ := lengthStore_fields q de
    (krRecLen_chunk hchunk (show need ≤ g.chunkSize by omega) hneedAlign)
  have hp'r : ∀ i, i < de + need → p' i = r i := fun i hi => entryStores_outside (Or.inl hi)
  have hframe' : ∀ i, de ≤ i → i < de + 8 + deNameLen r de → p' i = r i := by
    intro i _ hlt
    rw [hrlen, hqlen] at hlt
    exact hp'r i (by omega)
  obtain ⟨hfrec, hflen, hfentry⟩ := header_congr (g := g) hframe'
  have hrec : deRecLen g p' de = need := hfrec.trans hrrec
  have hnameLen : deNameLen p' de = deNameLen p de := hflen.trans (hrlen.trans hqlen)
  have hentry : entryAt p' de = entryAt p de := hfentry.trans (hrentry.trans hqentry)
  -- the second part has the rest
  obtain ⟨hsrec, -, -⟩ := lengthStore_fields p (de + need)
    (krRecLen_chunk hchunk (show len ≤ g.chunkSize by omega) hlenAlign)
  have hkeep : deRecLen g r (de + need) = len := by
    refine (deRecLen_congr fun i hle _ => ?_).trans hsrec
    refine store_outside (Or.inr ?_)
    rw [length_digits]
    omega
  obtain ⟨hnrec, hnlen, hnentry⟩ := entryStores_fields g r (de + need) hname
    (show inode.iIno < 2 ^ 32 by omega)
  have hrec' : deRecLen g p' (de + need) = len := hnrec.trans hkeep
  have hino := deInode_of_entryAt hnentry
  have houtside : ∀ i, i < de ∨ de + deRecLen g p de ≤ i → p' i = p i := by
    intro i hi
    refine (entryStores_outside (by omega)).trans ?_
    refine (store_outside ?_).trans (store_outside ?_)
    · rw [length_digits]
      omega
    · rw [length_digits]
      omega
  have hbetween : ∀ y, de ≤ y → y ≤ de + deRecLen g p de - 1 → y / g.chunkSize = de / g.chunkSize := by
    intro y hle hge
    have hspan := hde.span
    have hleft := Nat.div_le_div_right (c := g.chunkSize) hle
    have hright := Nat.div_le_div_right (c := g.chunkSize) hge
    omega
  have hfirst : Fits g p' de := by
    refine ⟨by rw [hrec]; exact hneedAlign, ?_, ?_, ?_⟩
    · rw [hnameLen, hrec]
    · rw [hrec]
      exact hbetween _ (by omega) (by omega)
    · rw [deInode_of_entryAt hentry]
      exact hde.inumber
  have hsecond : Fits g p' (de + need) := by
    refine ⟨by rw [hrec']; exact hlenAlign, ?_, ?_, ?_⟩
    · rw [hnlen, hrec']
      omega
    · rw [hrec', hbetween (de + need) (by omega) (by omega)]
      exact hbetween _ (by omega) (by omega)
    · rw [hino]
      exact hhigh
  have hseg : PageFits g p' de (de + deRecLen g p de) [de, de + need] := by
    refine Tiled.cons hfirst ?_
    rw [hrec]
    refine Tiled.cons hsecond ?_
    have heq : de + need + deRecLen g p' (de + need) = de + deRecLen g p de := by omega
    rw [heq]
    exact Tiled.nil _
  obtain ⟨htiled, hleft, hright⟩ := PageFits.replace hxs hys hseg houtside
  refine ⟨_, htiled, ?_, ?_⟩
  · refine pageSlots_replace [de] [de, de + need] hxs hys (by omega) (by omega)
      (fun x hx => (hleft x hx).2) (fun x hx => (hright x hx).2) ?_
    have hparts : ∀ x, pageSlots p' [de, de + need] x =
        (pageSlots p' [de] x).or (pageSlots p' [de + need] x) :=
      fun x => pageSlots_append p' [de] [de + need] x
    have hold : ∀ x, pageSlots p' [de] x = pageSlots p [de] x :=
      fun x => pageSlots_congr (by simpa using hentry)
    funext x
    rw [hparts, hold]
    by_cases hx : x = de + need
    · subst hx
      have hne : de + need ∉ [de] := by
        rw [List.mem_singleton]
        omega
      rw [Function.update_self, pageSlots_of_not_mem hne, Option.none_or,
        pageSlots_self (by rw [hino]; exact hlow), hnentry]
    · have hno : x ∉ [de + need] := by simpa using hx
      rw [Function.update_of_ne hx, pageSlots_of_not_mem hno, Option.or_none]
  · intro hnamed hlong x hx
    rcases List.mem_append.mp hx with hx | hx
    · rw [(hleft x hx).1]
      exact hlong x (List.mem_append_left _ hx)
    · rcases List.mem_cons.mp hx with rfl | hx
      · rw [hrec, hneed]
        unfold krDirRecLen KR_DIR_ROUND KR_DIR_PAD
        omega
      · rcases List.mem_cons.mp hx with rfl | hx
        · rw [hrec']
          have hnew : 12 ≤ krDirRecLen name.length := by
            unfold krDirRecLen KR_DIR_ROUND KR_DIR_PAD
            omega
          omega
        · rw [(hright x hx).1]
          exact hlong x (List.mem_append_right xs (List.mem_cons_of_mem de hx))

/-- `kr_add_link` makes a new chunk of one record. -/
theorem edit_fresh (hchunk : g.chunkBits ≤ 16) (h : PageFits g p 0 b offs) (hb : g.chunkSize ∣ b)
    (hname : name.length ≤ 255)
    (hlow : inode.iIno ≠ 0) (hhigh : inode.iIno ≤ g.sInodesCount) (hcount : g.sInodesCount < 2 ^ 32) :
    PageEdit g p
      (apply p ([⟨b + 4, digits 2 (krRecLenToDisk g g.chunkSize)⟩, ⟨b, digits 4 0⟩] ++
        entryStores g name inode b)) (b + g.chunkSize) offs b
      (some (name, inode.iIno, deTypeOf g inode.iMode)) True := by
  have hmin := g.chunkSize_min
  have hmax := krDirRecLen_max hname
  have halign := g.chunkSize_align
  set q := store p (b + 4) (digits 2 (krRecLenToDisk g g.chunkSize)) with hq
  set r := store q b (digits 4 0) with hr
  set p' := apply r (entryStores g name inode b) with hp'
  have hpage : apply p ([⟨b + 4, digits 2 (krRecLenToDisk g g.chunkSize)⟩, ⟨b, digits 4 0⟩] ++
      entryStores g name inode b) = p' := by
    rw [apply_append]
    rfl
  rw [hpage]
  obtain ⟨hqrec, -, -⟩ := lengthStore_fields p b
    (krRecLen_chunk hchunk (Nat.le_refl g.chunkSize) halign)
  obtain ⟨hrrec, -, -⟩ := clearStore_fields g q b
  obtain ⟨hnrec, hnlen, hnentry⟩ := entryStores_fields g r b hname
    (show inode.iIno < 2 ^ 32 by omega)
  have hrec : deRecLen g p' b = g.chunkSize := hnrec.trans (hrrec.trans hqrec)
  have hino := deInode_of_entryAt hnentry
  have hlast : (b + g.chunkSize - 1) / g.chunkSize = b / g.chunkSize := by
    obtain ⟨k, rfl⟩ := hb
    have hpos := g.chunkSize_pos
    rw [Nat.mul_div_cancel_left k hpos, Nat.add_sub_assoc hpos, Nat.mul_add_div hpos,
      Nat.div_eq_of_lt (by omega), Nat.add_zero]
  have hfits : Fits g p' b := by
    refine ⟨by rw [hrec]; exact halign, ?_, by rw [hrec]; exact hlast, ?_⟩
    · rw [hnlen, hrec]
      omega
    · rw [hino]
      exact hhigh
  have houtside : ∀ i, i < b ∨ b + g.chunkSize ≤ i → p' i = p i := by
    intro i hi
    refine (entryStores_outside (by have := krDirRecLen_le name.length; omega)).trans ?_
    refine (store_outside ?_).trans (store_outside ?_)
    · rw [length_digits]
      omega
    · rw [length_digits]
      omega
  have hseg : PageFits g p' b (b + g.chunkSize) [b] := by
    refine Tiled.cons hfits ?_
    rw [hrec]
    exact Tiled.nil _
  have hnil : PageFits g p (b + g.chunkSize) (b + g.chunkSize) [] := Tiled.nil _
  obtain ⟨htiled, hleft, hright⟩ := PageFits.replace h hnil hseg houtside
  have hslot : pageSlots p' [b] b = some (name, inode.iIno, deTypeOf g inode.iMode) := by
    rw [pageSlots_self (by rw [hino]; exact hlow), hnentry]
  refine ⟨_, htiled, ?_, ?_⟩
  · have hsame : offs = offs ++ ([] ++ []) := by simp
    nth_rewrite 2 [hsame]
    refine pageSlots_replace [] [b] h hnil (Nat.le_refl b) (by omega)
      (fun x hx => (hleft x hx).2) (by simp) ?_
    funext x
    by_cases hx : x = b
    · subst hx
      rw [Function.update_self, hslot]
    · rw [Function.update_of_ne hx, pageSlots_of_not_mem (by simpa using hx),
        pageSlots_of_not_mem (by simp)]
  · intro _ hlong x hx
    rcases List.mem_append.mp hx with hx | hx
    · rw [(hleft x hx).1]
      exact hlong x hx
    · obtain rfl : x = b := by simpa using hx
      rw [hrec]
      omega

end Edit

end KrFs
