import KrFs.DirWalk

/-!
# The grammar of directory pages

What `kr_check_page` looks for on the way through a page, as a grammar: the used
part is a whole number of chunks, and records are laid end to end in every one of
them. The test that a record does not span chunks is no part of the grammar; it
follows from the layout and the layout from it.
-/

namespace KrFs

open Tiling

/-- A record on its own: long enough for any record and for its name, a multiple of
four, with an inode that the file system has. -/
structure RecordOk (g : DirGeom) (p : Nat → UInt8) (de : Nat) : Prop where
  min : 12 ≤ deRecLen g p de
  align : 4 ∣ deRecLen g p de
  name : krDirRecLen (deNameLen p de) ≤ deRecLen g p de
  inumber : deInode p de ≤ g.sInodesCount

/-- Records laid end to end fill the chunk that begins at `c`. -/
def ChunkTiled (g : DirGeom) (p : Nat → UInt8) (c : Nat) : Prop :=
  ∃ offs, Tiled (deRecLen g p) (RecordOk g p) c (c + g.chunkSize) offs

section Grammar

variable {g : DirGeom} {p : Nat → UInt8} {a b c de : Nat} {offs : List Nat}

theorem EntryOk.record (h : EntryOk g p de) : RecordOk g p de :=
  ⟨h.min, h.align, h.name, h.inumber⟩

/-- A record inside of a chunk does not span chunks. -/
theorem RecordOk.entry (h : RecordOk g p de) (hc : g.chunkSize ∣ c) (hlow : c ≤ de)
    (hhigh : de + deRecLen g p de ≤ c + g.chunkSize) : EntryOk g p de := by
  have hpos := g.chunkSize_pos
  have hmin := h.min
  obtain ⟨k, rfl⟩ := hc
  have hquot : ∀ x, g.chunkSize * k ≤ x → x < g.chunkSize * k + g.chunkSize →
      x / g.chunkSize = k := by
    intro x hx hlt
    apply Nat.div_eq_of_lt_le
    · rwa [Nat.mul_comm]
    · rwa [Nat.mul_comm, Nat.mul_succ]
  exact ⟨h.min, h.align, h.name,
    (hquot _ (by omega) (by omega)).trans (hquot de hlow (by omega)).symm, h.inumber⟩

/-- The records of a page that lie in one chunk. -/
theorem PageTiled.chunk (h : PageTiled g p a b offs) (ha : a ≤ c) (hb : c + g.chunkSize ≤ b)
    (hc : g.chunkSize ∣ c) : ChunkTiled g p c := by
  obtain ⟨xs, rest, rfl, -, hrest⟩ := h.cut_chunk ha (by omega) hc
  obtain ⟨ys, zs, rfl, hys, -⟩ := PageTiled.cut_chunk hrest (Nat.le_add_right c _) hb
    ((Nat.dvd_add_right hc).mpr (Nat.dvd_refl _))
  exact ⟨ys, hys.congr fun x _ => ⟨rfl, EntryOk.record⟩⟩

/-- The records of a chunk, as records of the page. -/
theorem ChunkTiled.page (h : ChunkTiled g p c) (hc : g.chunkSize ∣ c) :
    ∃ offs, PageTiled g p c (c + g.chunkSize) offs := by
  obtain ⟨offs, htiled⟩ := h
  refine ⟨offs, htiled.congr fun x hx => ⟨rfl, fun hok => ?_⟩⟩
  obtain ⟨hlow, hhigh⟩ := htiled.bounds hx
  exact hok.entry hc hlow hhigh

/-- A run of chunks is tiled if each of them is. -/
theorem pageTiled_of_chunks {k : Nat}
    (h : ∀ c, g.chunkSize ∣ c → c + g.chunkSize ≤ k * g.chunkSize → ChunkTiled g p c) :
    ∃ offs, PageTiled g p 0 (k * g.chunkSize) offs := by
  induction k with
  | zero =>
    rw [Nat.zero_mul]
    exact ⟨[], Tiled.nil 0⟩
  | succ k ih =>
    rw [Nat.succ_mul] at h ⊢
    obtain ⟨xs, hxs⟩ := ih fun c hc hle => h c hc (by omega)
    obtain ⟨ys, hys⟩ := (h _ (Nat.dvd_mul_left _ k) (Nat.le_refl _)).page (Nat.dvd_mul_left _ k)
    exact ⟨xs ++ ys, hxs.append hys⟩

end Grammar

/-- `kr_check_page` accepts a page just when the used part of it is a whole number of
chunks and each of them is filled with records laid end to end. -/
theorem krCheckPage_accepts_iff (g : DirGeom) (d : Dir) {n : Nat}
    (hn : n ≤ d.iSize / g.pageSize) :
    krCheckPage g d n = none ↔ g.chunkSize ∣ d.used g n ∧
      ∀ c, g.chunkSize ∣ c → c + g.chunkSize ≤ d.used g n → ChunkTiled g (d.page n) c := by
  have hin : n * g.pageSize ≤ d.iSize := (Nat.le_div_iff_mul_le g.pageSize_pos).mp hn
  rw [krCheckPage_eq_none hin]
  constructor
  · rintro ⟨hdvd, offs, htiled⟩
    exact ⟨hdvd, fun c hc hle => PageTiled.chunk htiled (Nat.zero_le c) hle hc⟩
  · rintro ⟨⟨k, hk⟩, hchunks⟩
    refine ⟨⟨k, hk⟩, ?_⟩
    rw [hk, Nat.mul_comm] at hchunks ⊢
    exact pageTiled_of_chunks hchunks

/-- In a page of one chunk of 1 KiB, two records of 12 and 1012 bytes are accepted. -/
theorem krCheckPage_accepts_iff_two :
    let g : DirGeom := ⟨12, 10, 100, true, by decide, by decide, by decide⟩
    let p : Nat → UInt8 := Bytes.apply (fun _ => 0)
      [⟨4, [12, 0, 1]⟩, ⟨16, [0xF4, 0x03, 2]⟩]
    let d : Dir := ⟨11, 1024, 2, 1, 0, fun _ => p, fun _ => true⟩
    krCheckPage g d 0 = none ∧ ChunkTiled g p 0 := by
  intro g p d
  have haccepted : krCheckPage g d 0 = none := by decide +kernel
  exact ⟨haccepted, ((krCheckPage_accepts_iff g d (Nat.zero_le _)).mp haccepted).2 0 (Nat.dvd_zero _)
    (by decide +kernel)⟩

end KrFs
