import KrFs.DirMap
import KrFs.InodeCodec

/-!
# Growing a directory

`kr_add_link` puts a new chunk at the end of a directory when no record has room, and asks for no
limit. The size of a directory has 32 bits on disk, and `kr_last_byte` cuts it to 32 bits in
memory; both hold the size just below 4 GiB.
-/

namespace KrFs

open Bytes Tiling

section Size

variable {g : DirGeom} {d : Dir} {n : Nat} {name : List UInt8} {inode : LinkTarget}
  {env : ChunkEnv} {scans : List Scan}

/-! ### What holds a size -/

/-- The size of the directory is what `kr_iget` reads after `__kr_write_inode`. -/
def Dir.SizeSurvives (d : Dir) : Prop :=
  ∀ (m : Mount) (table : Nat × Nat → RawInode) (ino : Nat) (inode : Inode) (syncFails : Bool)
    (inode' : Inode) (m' : Mount) (table' : Nat × Nat → RawInode) (err : Option Errno)
    (after : Inode), S_ISDIR inode.iMode = true → inode.iSize = d.iSize →
    krWriteInode m table ino inode syncFails = .ok (inode', m', table', err) →
    krIget m' table' ino = .ok after → after.iSize = d.iSize

/-- `kr_last_byte` gives the end of the directory in each of its pages. -/
def Dir.LastByteRight (g : DirGeom) (d : Dir) : Prop :=
  ∀ n < d.pages g, krLastByte g d n = min g.pageSize (d.iSize - n * g.pageSize)

/-- The size of the directory is represented on disk and in memory. -/
structure Dir.Represented (g : DirGeom) (d : Dir) : Prop where
  survives : d.SizeSurvives
  lastByte : d.LastByteRight g

theorem krIget_dir_size {m m' : Mount} {table table' : Nat × Nat → RawInode} {ino : Nat}
    {inode inode' after : Inode} {syncFails : Bool} {err : Option Errno}
    (hdir : S_ISDIR inode.iMode = true)
    (hwrite : krWriteInode m table ino inode syncFails = .ok (inode', m', table', err))
    (hread : krIget m' table' ino = .ok after) : after.iSize = inode.iSize % 2 ^ 32 := by
  unfold krWriteInode at hwrite
  cases hslot : krGetInode m.sbi m.bread ino with
  | error e =>
    simp only [hslot] at hwrite
    cases hwrite
  | ok slot =>
    simp only [hslot, Except.ok.injEq, Prod.mk.injEq] at hwrite
    obtain ⟨-, hmount, htable, -⟩ := hwrite
    have hfound : krGetInode m'.sbi m'.bread ino = .ok slot := by
      rw [← hmount]
      exact (krGetInode_largeFileSuper m inode ino).trans hslot
    have hmine : table' slot = rawOfInode m (krGetInodeFlags inode) (table slot) := by
      rw [← htable]
      exact if_pos rfl
    have hreg : S_ISREG inode.iMode = false := by
      unfold S_ISDIR at hdir
      unfold S_ISREG
      rw [beq_iff_eq.mp hdir]
      rfl
    unfold krIget at hread
    simp only [hfound, hmine] at hread
    have hsize : (inodeFields m' ino (rawOfInode m (krGetInodeFlags inode) (table slot))).iSize =
        inode.iSize % 2 ^ 32 := by
      simp [inodeFields, rawOfInode, krGetInodeFlags, hreg]
    unfold inodeOfRaw at hread
    split at hread
    · cases hread
    · split at hread
      · cases hread
      · cases hread
        unfold krSetInodeFlags
        dsimp only
        rw [krIgetByType_eq]
        exact hsize

theorem Dir.survives_of_small (hsize : d.iSize < 2 ^ 32) : d.SizeSurvives := by
  intro m table ino inode syncFails inode' m' table' err after hdir heq hwrite hread
  rw [krIget_dir_size hdir hwrite hread, heq, Nat.mod_eq_of_lt hsize]

/-- In a directory of 4 GiB, `kr_last_byte` is wrong for the page that is 4 GiB before the end. -/
theorem Dir.lastByteRight_iff : d.LastByteRight g ↔ d.iSize < 2 ^ 32 := by
  constructor
  · intro h
    by_contra hbig
    have hpos := g.pageSize_pos
    have hlt := g.pageSize_lt
    have hmod := Nat.mod_add_div (d.iSize - 2 ^ 32) g.pageSize
    have hrest := Nat.mod_lt (d.iSize - 2 ^ 32) hpos
    rw [Nat.mul_comm] at hmod
    have hpage : (d.iSize - 2 ^ 32) / g.pageSize < d.pages g := by
      rw [Dir.lt_pages]
      omega
    have hlast := h _ hpage
    unfold krLastByte sub32 at hlast
    omega
  · intro hsize n hn
    exact krLastByte_eq hsize (Dir.lt_pages.mp hn).le

theorem Dir.represented_iff : d.Represented g ↔ d.iSize < 2 ^ 32 := by
  constructor
  · intro h
    exact Dir.lastByteRight_iff.mp h.lastByte
  · intro hsize
    exact ⟨Dir.survives_of_small hsize, Dir.lastByteRight_iff.mpr hsize⟩

/-! ### One call -/

/-- The scan of `kr_add_link` comes to the end of the directory, in page `n`. -/
def Dir.ScanEnds (g : DirGeom) (d : Dir) (name : List UInt8) : Prop :=
  ∃ n de, (∀ m < n, ∃ p, krGetPage g d m = some p ∧
      (addWalk g name p (krLastByte g d m) 0).2 = .past) ∧
    ∃ p, krGetPage g d n = some p ∧ (addWalk g name p (krLastByte g d n) 0).2 = .fresh de

/-- How a call of `kr_add_link` ends: it adds a chunk behind the end, or the size stays. -/
inductive AddSize (g : DirGeom) (d : Dir) (name : List UInt8) (inode : LinkTarget) (env : ChunkEnv)
    (c : DirCall) : Prop
  | grows (n b : Nat) (scans : List Scan) (hends : d.ScanEnds g name)
      (hend : n * g.pageSize + b = d.iSize)
      (heq : c = addLinkAt g d name inode env n b (g.chunkSize % 2 ^ 16) 0
        [⟨b + 4, digits 2 (krRecLenToDisk g g.chunkSize)⟩, ⟨b, digits 4 0⟩] scans)
  | keeps (hends : ¬ d.ScanEnds g name) (hsize : c.dir.iSize = d.iSize)

/-- A scan that ends at the end of the directory goes over a page to its end or ends there. -/
theorem Dir.ScanEnds.page (h : d.ScanEnds g name)
    (hpast : ∀ m < n, ∃ p, krGetPage g d m = some p ∧
      (addWalk g name p (krLastByte g d m) 0).2 = .past) :
    ∃ p, krGetPage g d n = some p ∧ ((addWalk g name p (krLastByte g d n) 0).2 = .past ∨
      ∃ de, (addWalk g name p (krLastByte g d n) 0).2 = .fresh de) := by
  obtain ⟨m, de, hbefore, p, hget, hfresh⟩ := h
  rcases Nat.lt_trichotomy m n with hlt | rfl | hlt
  · obtain ⟨p', hget', hpast'⟩ := hpast m hlt
    rw [hget] at hget'
    cases hget'
    rw [hfresh] at hpast'
    cases hpast'
  · exact ⟨p, hget, Or.inr ⟨de, hfresh⟩⟩
  · obtain ⟨p', hget', hpast'⟩ := hbefore n hlt
    exact ⟨p', hget', Or.inl hpast'⟩

theorem addPages_size (hsize : d.iSize < 2 ^ 32) (hname : name.length ≤ 255) (k : Nat)
    (hk : d.pages g < n + k) (hn : n * g.pageSize ≤ d.iSize)
    (hpast : ∀ m < n, ∃ p, krGetPage g d m = some p ∧
      (addWalk g name p (krLastByte g d m) 0).2 = .past) :
    AddSize g d name inode env (addPages g d name inode env (List.range' n k) scans) := by
  induction k generalizing n scans with
  | zero =>
    have hlt : d.pages g < n := by omega
    have hpos := g.pageSize_pos
    have hend : ¬ d.pages g < d.pages g := by omega
    rw [Dir.lt_pages] at hend
    have hmul := Nat.mul_le_mul_right g.pageSize (Nat.succ_le_of_lt hlt)
    rw [Nat.succ_mul] at hmul
    omega
  | succ k ih =>
    rw [List.range'_succ, addPages]
    cases hget : krGetPage g d n with
    | none =>
      refine .keeps (fun hends => ?_) rfl
      obtain ⟨p, hget', -⟩ := hends.page hpast
      rw [hget] at hget'
      cases hget'
    | some p =>
      obtain ⟨rfl, offs, hgood⟩ := krGetPage_good hn hget
      have hwalk : addWalk g name (d.page n) (krLastByte g d n) 0 =
          addList g name (d.page n) (d.used g n) offs := by
        rw [krLastByte_eq hsize hn]
        exact addWalk_tiled hgood.tiled
      have hstop := addList_stop hname hgood.tiled (Dir.used_le g d n)
      -- a scan that stops here for another reason does not come to the end
      have hnot : (∀ de, (addWalk g name (d.page n) (krLastByte g d n) 0).2 ≠ .fresh de) →
          (addWalk g name (d.page n) (krLastByte g d n) 0).2 ≠ .past → ¬ d.ScanEnds g name := by
        intro hfresh hnext hends
        obtain ⟨p', hget', hres⟩ := hends.page hpast
        rw [hget] at hget'
        cases hget'
        rcases hres with hres | ⟨de, hres⟩
        · exact hnext hres
        · exact hfresh de hres
      dsimp only
      rw [← hwalk] at hstop
      cases hres : (addWalk g name (d.page n) (krLastByte g d n) 0).2 with
      | fresh de =>
        rw [hres] at hstop
        obtain ⟨rfl, hroom, -⟩ := hstop
        refine .grows n (d.used g n) _ ⟨n, _, hpast, _, hget, hres⟩ ?_ rfl
        have hlen := krDirRecLen_le name.length
        unfold Dir.used at hroom ⊢
        omega
      | room de recLen nameLen =>
        rw [hres] at hstop hnot
        obtain ⟨hmem, hroom, -⟩ := hstop
        refine .keeps (hnot (by simp) (by simp)) ?_
        have hin := (hgood.tiled.bounds hmem).2
        have hend := Dir.used_end hgood.inside
        have hfull := hroom.recLen_full
        dsimp only
        unfold addLinkAt
        cases env.prepare with
        | some err => rfl
        | none => exact commit_inside (by simp only [Dir.setPage]; omega)
      | found de =>
        rw [hres] at hnot
        exact .keeps (hnot (by simp) (by simp)) rfl
      | zero de =>
        rw [hres] at hnot
        exact .keeps (hnot (by simp) (by simp)) rfl
      | loops de =>
        rw [hres] at hnot
        exact .keeps (hnot (by simp) (by simp)) rfl
      | past =>
        dsimp only
        refine ih (by omega) (hgood.past hname (by rw [← hwalk]; exact hres)) ?_
        intro m hm
        rcases Nat.lt_succ_iff_lt_or_eq.mp hm with hm | rfl
        · exact hpast m hm
        · exact ⟨_, hget, hres⟩

theorem krAddLink_size (hsize : d.iSize < 2 ^ 32) (hname : name.length ≤ 255) :
    AddSize g d name inode env (krAddLink g d name inode env) := by
  rw [krAddLink, List.range_eq_range']
  exact addPages_size hsize hname _ (by omega) (by omega) fun m hm => absurd hm (Nat.not_lt_zero m)

/-! ### Runs -/

/-- A call of `kr_add_link`. -/
structure AddCall where
  name : List UInt8
  inode : LinkTarget
  env : ChunkEnv

def AddCall.run (g : DirGeom) (d : Dir) (c : AddCall) : DirCall :=
  krAddLink g d c.name c.inode c.env

/-- A call adds the length of a chunk, as an `unsigned short`, when its scan comes to the end and it
gets a buffer. -/
theorem AddCall.run_iSize (c : AddCall) (hsize : d.iSize < 2 ^ 32)
    (hname : c.name.length ≤ 255) :
    (d.ScanEnds g c.name ∧ c.env.prepare = none →
      (c.run g d).dir.iSize = d.iSize + g.chunkSize % 2 ^ 16 ∧
        (c.run g d).ret = .done (match c.env.commit with
          | some err => .error err
          | none => .ok ())) ∧
    (¬ (d.ScanEnds g c.name ∧ c.env.prepare = none) → (c.run g d).dir.iSize = d.iSize) := by
  have hcall : AddSize g d c.name c.inode c.env (c.run g d) := krAddLink_size hsize hname
  cases hcall with
  | keeps hends hsame => exact ⟨fun h => absurd h.1 hends, fun _ => hsame⟩
  | grows n b scans hends hend heq =>
    rw [heq]
    unfold addLinkAt
    cases hprepare : c.env.prepare with
    | some err =>
      refine ⟨fun h => ?_, fun _ => rfl⟩
      cases h.2
    | none =>
      refine ⟨fun _ => ⟨?_, rfl⟩, fun h => absurd ⟨hends, rfl⟩ h⟩
      simp only [krCommitChunk, Dir.setPage, hend]
      by_cases hgrow : d.iSize < d.iSize + g.chunkSize % 2 ^ 16
      · exact if_pos hgrow
      · rw [if_neg hgrow]
        omega

/-- The call gets a chunk that reaches to 4 GiB. -/
def AddCall.Outgrows (g : DirGeom) (d : Dir) (c : AddCall) : Prop :=
  (d.ScanEnds g c.name ∧ c.env.prepare = none) ∧ 2 ^ 32 ≤ d.iSize + g.chunkSize % 2 ^ 16

/-- The size is represented before and after each of the calls. -/
def Dir.AlwaysRepresented (g : DirGeom) : Dir → List AddCall → Prop
  | d, [] => d.Represented g
  | d, c :: calls => d.Represented g ∧ AlwaysRepresented g (c.run g d).dir calls

def Dir.NeverOutgrown (g : DirGeom) : Dir → List AddCall → Prop
  | _, [] => True
  | d, c :: calls => ¬ c.Outgrows g d ∧ NeverOutgrown g (c.run g d).dir calls

theorem AddCall.represented_iff (c : AddCall) (hsize : d.iSize < 2 ^ 32)
    (hname : c.name.length ≤ 255) : (c.run g d).dir.Represented g ↔ ¬ c.Outgrows g d := by
  rw [Dir.represented_iff]
  obtain ⟨hgrows, hkeeps⟩ := c.run_iSize (g := g) hsize hname
  by_cases hends : d.ScanEnds g c.name ∧ c.env.prepare = none
  · have hgrown : (c.run g d).dir.iSize = d.iSize + g.chunkSize % 2 ^ 16 := (hgrows hends).1
    rw [hgrown]
    constructor
    · rintro hlt ⟨-, hge⟩
      omega
    · intro hnot
      by_contra hge
      exact hnot ⟨hends, by omega⟩
  · have hkept : (c.run g d).dir.iSize = d.iSize := hkeeps hends
    rw [hkept]
    exact iff_of_true hsize fun h => hends h.1

/-- The size of a directory is represented all along a run of `kr_add_link` calls just when none of
them reaches 4 GiB. -/
theorem krAddLink_run_represented_iff (hsize : d.iSize < 2 ^ 32) (calls : List AddCall)
    (hnames : ∀ c ∈ calls, c.name.length ≤ 255) :
    d.AlwaysRepresented g calls ↔ d.NeverOutgrown g calls := by
  induction calls generalizing d with
  | nil => exact iff_of_true (Dir.represented_iff.mpr hsize) trivial
  | cons c calls ih =>
    rw [List.forall_mem_cons] at hnames
    have hstep := c.represented_iff (g := g) hsize hnames.1
    constructor
    · rintro ⟨-, hrest⟩
      have hnext : (c.run g d).dir.Represented g := by
        cases calls with
        | nil => exact hrest
        | cons c' calls => exact hrest.1
      exact ⟨hstep.mp hnext, (ih (Dir.represented_iff.mp hnext) hnames.2).mp hrest⟩
    · rintro ⟨hfits, hrest⟩
      have hnext := hstep.mpr hfits
      exact ⟨Dir.represented_iff.mpr hsize, (ih (Dir.represented_iff.mp hnext) hnames.2).mpr hrest⟩

end Size

/-- A file is linked into a new directory. -/
theorem krAddLink_run_represented_small :
    smallDir.AlwaysRepresented smallGeom [⟨[97], ⟨12, 0x81A4⟩, ⟨none, 0, none⟩⟩] := by
  refine (krAddLink_run_represented_iff (by decide +kernel) _ (by simp)).mpr ⟨?_, trivial⟩
  rintro ⟨-, hbig⟩
  exact absurd hbig (by decide +kernel)

/-- A directory one chunk short of 4 GiB. Its records have 256 bytes and are not in use. -/
def longDir : Dir where
  iIno := 11
  iSize := 2 ^ 32 - 1024
  iBlocks := 2 ^ 23 - 2
  iVersion := 1
  iDirStartLookup := 0
  page := fun _ i => if i % 256 = 5 then 1 else 0
  readable := fun _ => true

/-- A name of 255 bytes does not fit into any of them. -/
theorem longDir_ends : longDir.ScanEnds smallGeom (List.replicate 255 97) := by
  have hdiv : longDir.iSize / smallGeom.pageSize = 2 ^ 20 - 1 := by decide
  have hlast : ∀ m < 2 ^ 20 - 1, krLastByte smallGeom longDir m = 4096 := by
    intro m hm
    have hpage : smallGeom.pageSize = 4096 := by decide
    have hsize : longDir.iSize = 2 ^ 32 - 1024 := rfl
    have hin : m * smallGeom.pageSize ≤ longDir.iSize := by
      rw [hpage]
      omega
    rw [krLastByte_eq (by decide) hin, Dir.used, hpage]
    omega
  refine ⟨2 ^ 20 - 1, 3072, fun m hm => ⟨longDir.page m, ?_, ?_⟩, longDir.page (2 ^ 20 - 1), ?_, ?_⟩
  · refine if_pos ⟨rfl, ?_⟩
    rw [krCheckPage, if_neg (by omega)]
    exact (by decide +kernel : checkEntries smallGeom (longDir.page 0) smallGeom.pageSize 0 = none)
  · rw [hlast m hm]
    exact (by decide +kernel : (addWalk smallGeom (List.replicate 255 97) (longDir.page 0) 4096 0).2 =
      .past)
  · exact if_pos ⟨rfl, by decide +kernel⟩
  · decide +kernel

/-- An insertion makes it 4 GiB long and returns 0; `kr_last_byte` then takes its first page for
empty. -/
theorem krAddLink_outgrown :
    let c : AddCall := ⟨List.replicate 255 97, ⟨12, 0x81A4⟩, ⟨none, 0, none⟩⟩
    longDir.Represented smallGeom ∧ (c.run smallGeom longDir).ret = .done (.ok ()) ∧
      (c.run smallGeom longDir).dir.iSize = 2 ^ 32 ∧
      krLastByte smallGeom (c.run smallGeom longDir).dir 0 = 0 ∧
      ¬ (c.run smallGeom longDir).dir.Represented smallGeom := by
  intro c
  have hsize : longDir.iSize < 2 ^ 32 := by decide
  obtain ⟨hgrown, hret⟩ := (c.run_iSize hsize List.length_replicate.le).1 ⟨longDir_ends, rfl⟩
  have hsum : longDir.iSize + smallGeom.chunkSize % 2 ^ 16 = 2 ^ 32 := by decide +kernel
  have hbig : (c.run smallGeom longDir).dir.iSize = 2 ^ 32 := hgrown.trans hsum
  refine ⟨Dir.represented_iff.mpr hsize, hret, hbig, ?_, ?_⟩
  · unfold krLastByte
    rw [hbig]
    decide
  · rw [Dir.represented_iff]
    omega

end KrFs
