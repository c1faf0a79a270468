import KrFs.QuotaFile
import KrFs.EvictInode

/-!
# Writing to files

The calls of `kr_aops` and `kr_nobh_aops` that allocate: the two halves of a buffered
write, direct I/O and writeback, and with them `kr_setsize`. The helpers of the page cache
call back `kr_get_block`, possibly for blocks past the end of the file; when a write fails
or comes out short, `kr_write_failed` cuts off what it has allocated there. Between the
calls a file has no block behind its last byte.
-/

namespace KrFs

open SearchTree

/-! ## The code -/

/-- A call of `kr_get_block`, with what it meets. -/
structure GetBlockCall where
  iblock : Nat
  maxBlocks : Nat
  create : Bool
  env : GetBlocksEnv
  fuel : Nat
  reservation : Bool

/-- What a helper outside of this file system does: it calls `kr_get_block` until a call
fails, and may fail itself after that. -/
structure Helper where
  calls : List GetBlockCall
  error : Option Errno

section Code

variable (ops : Rebalance Window) (ino : Nat)

/-- `kr_get_block` for a buffer of `maxBlocks` blocks, with the first block it is mapped to
and how many follow on. -/
def krGetBlockSized (c : GetBlockCall) (fs : Fs) : Exec (Fs × Except Errno (Option (Nat × Nat))) :=
  (krGetBlocks ops { c.env with look := fun _ => fs.mem ino } ino c.fuel c.reservation fs c.iblock
    c.maxBlocks c.create).bind fun (fs, mapped) =>
      match mapped.ret with
      | .error e => .done (fs, .error e)
      | .ok 0 => .done (fs, .ok none)
      | .ok (n + 1) => .done (fs, .ok (some (mapped.bno, n + 1)))

/-- The calls of a helper, up to the first that fails. -/
def mapBlocks : List GetBlockCall → Fs → Exec (Fs × Option Errno)
  | [], fs => .done (fs, none)
  | c :: calls, fs =>
    (krGetBlockSized ops ino c fs).bind fun (fs, found) =>
      match found with
      | .error e => .done (fs, some e)
      | .ok _ => mapBlocks calls fs

def Helper.run (h : Helper) (fs : Fs) : Exec (Fs × Option Errno) :=
  (mapBlocks ops ino h.calls fs).bind fun (fs, err) =>
    match err with
    | some e => .done (fs, some e)
    | none => .done (fs, h.error)

variable (trunc : TruncEnv)

/-- `kr_write_failed`. -/
def krWriteFailed (fs : Fs) (upTo : Nat) : Fs :=
  if (fs.inode ino).iSize < upTo then
    krTruncateBlocks ops ⟨false, 0, trunc, fun _ => true⟩ ino fs (fs.inode ino).iSize
  else fs

/-- The first half of a write, over the helper that prepares the page. -/
def writeBegin (helper : Helper) (fs : Fs) (pos len : Nat) : Exec (Fs × Option Errno) :=
  (helper.run ops ino fs).bind fun (fs, err) =>
    match err with
    | some e => .done (krWriteFailed ops ino trunc fs (pos + len), some e)
    | none => .done (fs, none)

def krWriteBegin (blockWriteBegin : Helper) : Fs → Nat → Nat → Exec (Fs × Option Errno) :=
  writeBegin ops ino trunc blockWriteBegin

def krNobhWriteBegin (nobhWriteBegin : Helper) : Fs → Nat → Nat → Exec (Fs × Option Errno) :=
  writeBegin ops ino trunc nobhWriteBegin

/-- The end of the file after bytes before `upTo` have been written, as `i_size_write` of
`generic_write_end`, of `nobh_write_end` and of the caller of `kr_direct_IO` leave it. -/
def Fs.raiseSize (fs : Fs) (ino upTo : Nat) : Fs :=
  if (fs.inode ino).iSize < upTo then
    { fs with inode := Function.update fs.inode ino { fs.inode ino with iSize := upTo } }
  else fs

/-- `kr_write_end`. Of the `len` bytes prepared, `generic_write_end` accepts `written`. -/
def krWriteEnd (fs : Fs) (pos len written : Nat) : Fs × Nat :=
  let fs := fs.raiseSize ino (pos + written)
  if written < len then (krWriteFailed ops ino trunc fs (pos + len), written) else (fs, written)

/-- `kr_direct_IO`. The helper is `blockdev_direct_IO`, which transfers `transferred` bytes
unless it fails. -/
def krDirectIO (isDax write : Bool) (helper : Helper) (transferred : Nat) (fs : Fs)
    (offset count : Nat) : Exec (Fs × Except Errno Nat) :=
  if isDax then .done (fs, .error .eio)
  else (helper.run ops ino fs).bind fun (fs, err) =>
    match err with
    | some e =>
      if write then .done (krWriteFailed ops ino trunc fs (offset + count), .error e)
      else .done (fs, .error e)
    | none => .done (fs, .ok transferred)

/-- `kr_writepage`. -/
def krWritepage (blockWriteFullPage : Helper) : Fs → Exec (Fs × Option Errno) :=
  blockWriteFullPage.run ops ino

/-- `kr_nobh_writepage`. -/
def krNobhWritepage (nobhWritepage : Helper) : Fs → Exec (Fs × Option Errno) :=
  nobhWritepage.run ops ino

/-- `kr_writepages`. -/
def krWritepages (mpageWritepages : Helper) : Fs → Exec (Fs × Option Errno) :=
  mpageWritepages.run ops ino

end Code

/-! ## One file changes -/

/-- What no call of `kr_get_block` and no truncation changes of an inode. -/
def Inode.kind (inode : Inode) : UInt16 × UInt32 := (inode.iMode, inode.sFlags)

/-- The call has changed the file `ino` only, and kept the blocks of its first `keep`
bytes. -/
structure Fs.FileStep (fs fs' : Fs) (files : Set Nat) (ino keep : Nat) : Prop where
  sbi : fs'.sbi = fs.sbi
  consistent : fs'.Consistent files
  kind : ∀ i, (fs'.inode i).kind = (fs.inode i).kind
  size : ∀ i, i ≠ ino → (fs'.inode i).iSize = (fs.inode i).iSize
  apart : ∀ i ∈ files, i ≠ ino → ∀ l, fs'.blockAt i l = fs.blockAt i l
  kept : ∀ l, l * fs.sbi.sBlocksize < keep → fs.blockAt ino l ≠ 0 →
    fs'.blockAt ino l = fs.blockAt ino l

/-- No block of the file is mapped at or behind byte `n`. -/
def Fs.EndsBy (fs : Fs) (ino n : Nat) : Prop :=
  ∀ l, n ≤ l * fs.sbi.sBlocksize → fs.blockAt ino l = 0

section FileStep

variable {fs fs' fs'' : Fs} {files : Set Nat} {ino keep n : Nat}

theorem Fs.EndsBy.mono (h : fs.EndsBy ino n) {n' : Nat} (hn : n ≤ n') : fs.EndsBy ino n' :=
  fun l hl => h l (hn.trans hl)

theorem Fs.FileStep.refl (h : fs.Consistent files) (ino keep : Nat) :
    fs.FileStep fs files ino keep :=
  ⟨rfl, h, fun _ => rfl, fun _ _ => rfl, fun _ _ _ _ => rfl, fun _ _ _ => rfl⟩

theorem Fs.FileStep.trans (h1 : fs.FileStep fs' files ino keep)
    (h2 : fs'.FileStep fs'' files ino keep) : fs.FileStep fs'' files ino keep := by
  constructor
  · exact h2.sbi.trans h1.sbi
  · exact h2.consistent
  · intro i
    rw [h2.kind i, h1.kind i]
  · intro i hi
    rw [h2.size i hi, h1.size i hi]
  · intro i hfile hi l
    rw [h2.apart i hfile hi l, h1.apart i hfile hi l]
  · intro l hl hne
    have hsame := h1.kept l hl hne
    rw [← hsame]
    refine h2.kept l ?_ ?_
    · rwa [h1.sbi]
    · rwa [hsame]

theorem Fs.FileStep.mono (h : fs.FileStep fs' files ino keep) {keep' : Nat} (hk : keep' ≤ keep) :
    fs.FileStep fs' files ino keep' :=
  ⟨h.sbi, h.consistent, h.kind, h.size, h.apart, fun l hl => h.kept l (lt_of_lt_of_le hl hk)⟩

theorem Fs.FileStep.hosts (h : fs.FileStep fs' files ino keep) {i : Nat}
    (hosts : fs.Hosts files i) : fs'.Hosts files i := by
  constructor
  · rw [h.sbi]
    exact hosts.mounted
  · rw [h.sbi]
    exact hosts.blocksize_le
  · exact h.consistent
  · exact hosts.file

/-- Blocks of other files are found where they were. -/
theorem Fs.TreeFrame.blockAt_eq {touched : Multiset Nat} {i : Nat}
    (h : fs.TreeFrame fs' ino touched) (hi : i ≠ ino) (hapart : Disjoint (fs.fileTree i) touched)
    {l : Nat} (hpath : (fs.path l).1 ≠ [] → IsPath fs.addrPerBlock (fs.path l).1) :
    fs'.blockAt i l = fs.blockAt i l := by
  obtain ⟨n, hn⟩ := h.inode i hi
  have hsame : fs'.path l = fs.path l := by
    simp only [Fs.path, Fs.addrPerBlock, h.sbi]
  unfold Fs.blockAt
  rw [hsame]
  refine Mem.blockAt_same _ fun front o rest hsplit hlive => ?_
  by_cases hfront : front = []
  · simp [Mem.slotBase, hfront, Mem.row, Fs.mem, hn]
  · have hp : IsPath fs.addrPerBlock (fs.path l).1 := hpath (by rw [hsplit]; simp)
    have hmem : (fs.mem i).blockAt front ∈ fs.fileTree i :=
      Mem.blockAt_mem (hp.subPath hsplit hfront) (hlive hfront)
    simp only [Mem.slotBase, hfront, if_false, Mem.row, Fs.mem]
    exact congrFun (h.ptr _ (Multiset.disjoint_left.mp hapart hmem)) o

/-- A tree operation of the file, as seen from all files. -/
theorem Fs.TreeStep.fileStep (hosts : fs.Hosts files ino)
    (step : fs.TreeStep fs' fs.Reserved (fs.trees files) (fs.otherSectors files) ino)
    (hkind : (fs'.inode ino).kind = (fs.inode ino).kind)
    (hkept : ∀ l, l * fs.sbi.sBlocksize < keep → fs.blockAt ino l ≠ 0 →
      fs'.blockAt ino l = fs.blockAt ino l) : fs.FileStep fs' files ino keep := by
  obtain ⟨touched, hframe, hapart⟩ := step.frame
  have hother : ∀ i, i ≠ ino → (fs'.inode i).kind = (fs.inode i).kind ∧
      (fs'.inode i).iSize = (fs.inode i).iSize := by
    intro i hi
    obtain ⟨n, hn⟩ := hframe.inode i hi
    rw [hn]
    exact ⟨rfl, rfl⟩
  constructor
  · exact hframe.sbi
  · exact step.consistent hosts.file
  · intro i
    by_cases hi : i = ino
    · rw [hi]
      exact hkind
    · exact (hother i hi).1
  · exact fun i hi => (hother i hi).2
  · intro i hfile hi l
    have hdisj := hapart i hi
    rw [Fs.trees, if_pos hfile] at hdisj
    exact hframe.blockAt_eq hi hdisj fun hne => (hosts.live.paths l hne).1
  · exact hkept

/-- A new size of the file leaves its blocks alone. -/
theorem Fs.FileStep.setInode (h : fs.Consistent files) {inode : Inode}
    (hdata : inode.iData = (fs.inode ino).iData) (hblocks : inode.iBlocks = (fs.inode ino).iBlocks)
    (hkind : inode.kind = (fs.inode ino).kind) :
    fs.FileStep { fs with inode := Function.update fs.inode ino inode } files ino keep := by
  have hupdate : ∀ {α : Type} (f : Inode → α), f inode = f (fs.inode ino) →
      ∀ i, f (Function.update fs.inode ino inode i) = f (fs.inode i) := by
    intro α f hf i
    by_cases hi : i = ino
    · rw [hi, Function.update_self, hf]
    · rw [Function.update_of_ne hi]
  have hmem : ∀ i, Fs.mem { fs with inode := Function.update fs.inode ino inode } i = fs.mem i := by
    intro i
    simp only [Fs.mem, hupdate Inode.iData hdata i]
  constructor
  · rfl
  · exact h.setInodes (hupdate Inode.iData hdata) (hupdate Inode.iBlocks hblocks)
  · exact hupdate Inode.kind hkind
  · intro i hi
    simp only [Function.update_of_ne hi]
  · intro i _ _ l
    simp only [Fs.blockAt, hmem, Fs.path, Fs.addrPerBlock]
  · intro l _ _
    simp only [Fs.blockAt, hmem, Fs.path, Fs.addrPerBlock]

theorem Fs.EndsBy.setInode (h : fs.EndsBy ino n) {inode : Inode}
    (hdata : inode.iData = (fs.inode ino).iData) :
    Fs.EndsBy { fs with inode := Function.update fs.inode ino inode } ino n := by
  simpa only [Fs.EndsBy, Fs.blockAt, Fs.mem, Fs.path, Fs.addrPerBlock, Function.update_self, hdata]
    using h

end FileStep

/-! ## Cutting a file off -/

/-- The reads of a truncation succeed. -/
structure TruncEnv.Reads (env : TruncEnv) : Prop where
  readPath : ∀ i, env.readPath i = true
  bread : ∀ b, env.bread b = true
  readBitmap : ∀ g, env.readBitmap g = true

section Cut

variable {fs fs' : Fs} {files : Set Nat} {ino : Nat} {trunc : TruncEnv}

/-- The first block behind the end, as `__kr_truncate_blocks` rounds it up. -/
theorem lt_roundUp_iff {l size blocksize : Nat} (hpos : 0 < blocksize) :
    l < (size + blocksize - 1) / blocksize ↔ l * blocksize < size := by
  have hsucc : l < (size + blocksize - 1) / blocksize ↔
      (l + 1) * blocksize ≤ size + blocksize - 1 := Nat.le_div_iff_mul_le hpos
  rw [hsucc, Nat.succ_mul]
  omega

theorem Fs.Hosts.roundUp (hosts : fs.Hosts files ino) (size : Nat) :
    ((size : Int) + fs.sbi.sBlocksize - 1) >>> fs.sbi.sBlocksizeBits =
      ((size + fs.sbi.sBlocksize - 1) / fs.sbi.sBlocksize : Nat) := by
  have hpos := hosts.blocksize_pos
  have hcast : (size : Int) + fs.sbi.sBlocksize - 1 = (size + fs.sbi.sBlocksize - 1 : Nat) := by
    omega
  rw [Int.shiftRight_eq_div_pow, ← hosts.blocksize_pow, hcast]
  norm_cast

/-- Paths of later blocks are later, and without a path nothing is mapped. -/
theorem Fs.Hosts.path_lt (hosts : fs.Hosts files ino) {a b : Nat} (hab : a < b)
    (hb : (fs.path b).1 ≠ []) : (fs.path a).1 < (fs.path b).1 := by
  have hapb : fs.addrPerBlock = 2 ^ fs.sbi.sAddrPerBlockBits := hosts.addrGeometry.apb_eq
  unfold Fs.path at hb ⊢
  rw [hapb] at hb ⊢
  exact krBlockToPath_lt hab hb

theorem Fs.blockAt_of_path_nil {l : Nat} (hnil : (fs.path l).1 = []) : fs.blockAt ino l = 0 := by
  unfold Fs.blockAt
  rw [hnil]
  rfl

/-- Which blocks are mapped after a truncation to `size` bytes. -/
theorem truncateBlocks_map (ops : Rebalance Window) (hosts : fs.Hosts files ino)
    (reads : trunc.Reads) (size l : Nat) :
    (truncateBlocks ops trunc fs ino size).blockAt ino l =
      if l * fs.sbi.sBlocksize < size then fs.blockAt ino l else 0 := by
  have hbefore : l < (size + fs.sbi.sBlocksize - 1) / fs.sbi.sBlocksize ↔
      l * fs.sbi.sBlocksize < size := lt_roundUp_iff hosts.blocksize_pos
  rw [← if_congr hbefore rfl rfl]
  unfold truncateBlocks
  rw [hosts.roundUp size]
  generalize (size + fs.sbi.sBlocksize - 1) / fs.sbi.sBlocksize = iblock
  by_cases hend : (fs.path iblock).1 = []
  · simp only [hend, if_true]
    split
    · rfl
    · rename_i hge
      refine Fs.blockAt_of_path_nil ?_
      by_contra hne
      exact hosts.path_ne_nil (Nat.le_of_not_lt hge) hne hend
  · simp only [hend, if_false]
    have hoffs := (hosts.live.paths iblock hend).1
    have hcut := (truncatePtrs_exchanged reads.readPath reads.bread hoffs rfl hosts.live.nodup).1
    have hmap := fun f hf => @truncatePtrs_map (fs.mem ino) fs.addrPerBlock trunc.readPath trunc.bread
      reads.readPath reads.bread (fs.path iblock).1 f hoffs rfl hosts.live.nodup hf
    generalize truncatePtrs trunc.readPath trunc.bread fs.addrPerBlock (fs.path iblock).1
      (fs.mem ino) = res at hcut hmap ⊢
    obtain ⟨hmem, hsbi⟩ := truncateBlocks_mem ops trunc fs ino res.1 res.2 hcut.nr
    generalize (freeCalls trunc.readBitmap ino (fs.setMem ino res.1) res.2).discardReservation ops
      ino = fs' at hmem hsbi ⊢
    have hsame : fs'.path l = fs.path l := by simp only [Fs.path, Fs.addrPerBlock, hsbi]
    by_cases hnil : (fs.path l).1 = []
    · have hzero : fs.blockAt ino l = 0 := Fs.blockAt_of_path_nil hnil
      rw [hzero, ite_self]
      refine Fs.blockAt_of_path_nil ?_
      rwa [hsame]
    · have horder : (fs.path l).1 < (fs.path iblock).1 ↔ l < iblock := by
        constructor
        · intro hlt
          by_contra hge
          rcases Nat.eq_or_lt_of_le (Nat.le_of_not_lt hge) with rfl | hgt
          · exact List.lt_irrefl _ hlt
          · exact List.lt_asymm hlt (hosts.path_lt hgt hnil)
        · exact fun hlt => hosts.path_lt hlt hend
      unfold Fs.blockAt
      rw [hmem, hsame, hmap _ (hosts.live.paths l hnil).1]
      exact if_congr horder rfl rfl

theorem truncateBlocks_fileStep (ops : Rebalance Window) (hosts : fs.Hosts files ino)
    (reads : trunc.Reads) (size : Nat) :
    fs.FileStep (truncateBlocks ops trunc fs ino size) files ino size ∧
      ((truncateBlocks ops trunc fs ino size).inode ino).iSize = (fs.inode ino).iSize ∧
      (truncateBlocks ops trunc fs ino size).EndsBy ino size := by
  have howned := hosts.consistent.owned hosts.blockGeometry
  have hself : fs.trees files ino = fs.fileTree ino := if_pos hosts.file
  obtain ⟨hframe, ⟨n, data, hinode⟩, howned'⟩ := truncateBlocks_owned ops reads.readPath reads.bread
    reads.readBitmap hosts.addrGeometry size howned hself
  have hmap := truncateBlocks_map ops hosts reads size
  have step : fs.TreeStep (truncateBlocks ops trunc fs ino size) fs.Reserved (fs.trees files)
      (fs.otherSectors files) ino := by
    refine ⟨⟨_, hframe, fun i hi => ?_⟩, howned'⟩
    rw [← hself]
    exact howned.disjoint i ino hi
  constructor
  · refine step.fileStep hosts ?_ fun l hl _ => ?_
    · rw [hinode]
      rfl
    · rw [hmap l, if_pos hl]
  constructor
  · rw [hinode]
  · intro l hl
    rw [hframe.sbi] at hl
    rw [hmap l, if_neg (by omega)]

/-- Regular files that may be written anywhere. -/
def Inode.Plain (inode : Inode) : Prop :=
  S_ISREG inode.iMode = true ∧ inode.sFlags &&& S_APPEND = 0 ∧ inode.sFlags &&& S_IMMUTABLE = 0

theorem Inode.Plain.of_kind {inode inode' : Inode} (h : inode.Plain)
    (hkind : inode'.kind = inode.kind) : inode'.Plain := by
  simp only [Inode.kind, Prod.mk.injEq] at hkind
  unfold Inode.Plain
  rw [hkind.1, hkind.2]
  exact h

theorem Inode.Plain.not_symlink {inode : Inode} (h : inode.Plain) (blocksize : Nat) :
    krInodeIsFastSymlink blocksize inode = false := by
  have hreg : inode.iMode &&& S_IFMT = S_IFREG := by simpa [S_ISREG] using h.1
  have hlink : S_ISLNK inode.iMode = false := by
    unfold S_ISLNK
    rw [hreg]
    rfl
  simp [krInodeIsFastSymlink, hlink]

theorem Inode.Plain.refusesSize {inode : Inode} (h : inode.Plain) (blocksize : Nat) :
    refusesSize blocksize inode = none := by
  simp [KrFs.refusesSize, h.1, h.2.1, h.2.2, h.not_symlink]

theorem krTruncateBlocks_plain {ops : Rebalance Window} {env : EvictEnv}
    (plain : (fs.inode ino).Plain) (offset : Int) :
    krTruncateBlocks ops env ino fs offset = truncateBlocks ops env.trunc fs ino offset := by
  simp [krTruncateBlocks, plain.1, plain.2.1, plain.2.2, plain.not_symlink]

/-- After a failed write the file ends where its size says, if it did before the write. -/
theorem krWriteFailed_step (ops : Rebalance Window) (hosts : fs.Hosts files ino)
    (reads : trunc.Reads) (plain : (fs.inode ino).Plain) (upTo : Nat)
    (hends : fs.EndsBy ino (max (fs.inode ino).iSize upTo)) :
    fs.FileStep (krWriteFailed ops ino trunc fs upTo) files ino (fs.inode ino).iSize ∧
      ((krWriteFailed ops ino trunc fs upTo).inode ino).iSize = (fs.inode ino).iSize ∧
      (krWriteFailed ops ino trunc fs upTo).EndsBy ino (fs.inode ino).iSize := by
  unfold krWriteFailed
  split
  · rw [krTruncateBlocks_plain plain]
    exact truncateBlocks_fileStep ops hosts reads (fs.inode ino).iSize
  · rename_i hinside
    have hmax : max (fs.inode ino).iSize upTo = (fs.inode ino).iSize := by omega
    rw [hmax] at hends
    exact ⟨Fs.FileStep.refl hosts.consistent ino _, rfl, hends⟩

end Cut

/-! ## Mapping blocks -/

/-- The helper reads what it needs, and has `kr_get_block` allocate blocks in front of byte
`bound` only. -/
structure Helper.Within (h : Helper) (blocksize bound : Nat) : Prop where
  reads : ∀ c ∈ h.calls, c.env.Reads
  within : ∀ c ∈ h.calls, c.create = true → ∀ l, c.iblock ≤ l → l < c.iblock + c.maxBlocks →
    l * blocksize < bound

/-- Blocks of the file have been added, in front of byte `bound`. -/
structure Fs.Grown (fs fs' : Fs) (files : Set Nat) (ino bound : Nat) : Prop where
  step : ∀ keep, fs.FileStep fs' files ino keep
  size : (fs'.inode ino).iSize = (fs.inode ino).iSize
  added : ∀ l, fs'.blockAt ino l ≠ 0 → fs.blockAt ino l ≠ 0 ∨ l * fs.sbi.sBlocksize < bound

section Grow

variable {ops : Rebalance Window} {fs fs' fs'' : Fs} {files : Set Nat} {ino bound : Nat}

theorem Fs.Grown.refl (h : fs.Consistent files) : fs.Grown fs files ino bound :=
  ⟨Fs.FileStep.refl h ino, rfl, fun _ hne => Or.inl hne⟩

theorem Fs.Grown.trans (h1 : fs.Grown fs' files ino bound) (h2 : fs'.Grown fs'' files ino bound) :
    fs.Grown fs'' files ino bound := by
  constructor
  · exact fun keep => (h1.step keep).trans (h2.step keep)
  · exact h2.size.trans h1.size
  · intro l hne
    rcases h2.added l hne with hbefore | hnew
    · exact h1.added l hbefore
    · rw [(h1.step 0).sbi] at hnew
      exact Or.inr hnew

theorem Fs.Grown.endsBy (h : fs.Grown fs' files ino bound) {n : Nat} (hends : fs.EndsBy ino n) :
    fs'.EndsBy ino (max n bound) := by
  intro l hl
  rw [(h.step 0).sbi] at hl
  by_contra hne
  rcases h.added l hne with hbefore | hnew
  · exact hbefore (hends l (by omega))
  · omega

/-- Without `create` nothing changes. -/
theorem krGetBlocks_lookup {env : GetBlocksEnv} {fuel iblock maxblocks : Nat} {reservation : Bool}
    {mapped : Mapped}
    (hrun : krGetBlocks ops env ino fuel reservation fs iblock maxblocks false =
      .done (fs', mapped)) : fs' = fs := by
  unfold krGetBlocks at hrun
  split at hrun
  · cases hrun
  dsimp only at hrun
  split at hrun
  · cases hrun
    rfl
  split at hrun
  · cases hrun
    rfl
  · simp only [Bool.not_false, Bool.true_or, if_true] at hrun
    cases hrun
    rfl

/-- One call of `kr_get_block`. -/
theorem krGetBlockSized_grown (hosts : fs.Hosts files ino) {c : GetBlockCall} (reads : c.env.Reads)
    (hwithin : c.create = true → ∀ l, c.iblock ≤ l → l < c.iblock + c.maxBlocks →
      l * fs.sbi.sBlocksize < bound)
    {found : Except Errno (Option (Nat × Nat))}
    (hrun : krGetBlockSized ops ino c fs = .done (fs', found)) : fs.Grown fs' files ino bound := by
  unfold krGetBlockSized at hrun
  generalize hcall : krGetBlocks ops { c.env with look := fun _ => fs.mem ino } ino c.fuel
    c.reservation fs c.iblock c.maxBlocks c.create = call at hrun
  cases call with
  | bug => cases hrun
  | running => cases hrun
  | done res =>
    obtain ⟨fs1, mapped⟩ := res
    have hfs : fs1 = fs' := by
      simp only [Exec.bind] at hrun
      split at hrun <;> cases hrun <;> rfl
    subst hfs
    cases hcreate : c.create with
    | false =>
      rw [hcreate] at hcall
      rw [krGetBlocks_lookup hcall]
      exact Fs.Grown.refl hosts.consistent
    | true =>
      rw [hcreate] at hcall
      have step := krGetBlocks_step (reads.quiet (fs.mem ino)) hosts.addrGeometry
        (hosts.consistent.owned hosts.blockGeometry) (if_pos hosts.file)
        (fs.reserved_zero hosts.groups_pos) hcall
      obtain ⟨hkeeps, hmap⟩ := krGetBlocks_run hosts reads hcall
      have hkind : (fs1.inode ino).kind = (fs.inode ino).kind := hkeeps (fun _ _ _ _ _ => rfl) ino
      have hold : ∀ l, fs.blockAt ino l ≠ 0 → fs1.blockAt ino l = fs.blockAt ino l := by
        intro l hne
        rcases hmap with ⟨e, -, hsame⟩ | ⟨n, -, -, hruns⟩
        · exact hsame l
        · rw [hruns.map l]
          split
          · rename_i hin
            have hkeep := hruns.keeps (l - c.iblock) (by omega)
            rw [Nat.add_sub_cancel' hin.1] at hkeep
            exact hkeep hne
          · rfl
      constructor
      · exact fun keep => step.fileStep hosts hkind fun l _ hne => hold l hne
      · exact hkeeps (f := Inode.iSize) (fun _ _ _ _ _ => rfl) ino
      · intro l hne
        rcases hmap with ⟨e, -, hsame⟩ | ⟨n, -, hle, hruns⟩
        · rw [hsame l] at hne
          exact Or.inl hne
        · rw [hruns.map l] at hne
          split at hne
          · rename_i hin
            exact Or.inr (hwithin hcreate l hin.1 (by omega))
          · exact Or.inl hne

theorem mapBlocks_grown (calls : List GetBlockCall) : ∀ {fs : Fs}, fs.Hosts files ino →
    (∀ c ∈ calls, c.env.Reads) →
    (∀ c ∈ calls, c.create = true → ∀ l, c.iblock ≤ l → l < c.iblock + c.maxBlocks →
      l * fs.sbi.sBlocksize < bound) →
    ∀ {err : Option Errno}, mapBlocks ops ino calls fs = .done (fs', err) →
      fs.Grown fs' files ino bound := by
  induction calls with
  | nil =>
    intro fs hosts _ _ err hrun
    cases hrun
    exact Fs.Grown.refl hosts.consistent
  | cons c calls ih =>
    intro fs hosts reads hwithin err hrun
    obtain ⟨⟨fs1, found⟩, hcall, hrest⟩ := Exec.bind_eq_done.mp hrun
    have hfirst : fs.Grown fs1 files ino bound :=
      krGetBlockSized_grown hosts (reads c (by simp)) (hwithin c (by simp)) hcall
    cases found with
    | error e =>
      cases hrest
      exact hfirst
    | ok found =>
      refine hfirst.trans (ih ((hfirst.step 0).hosts hosts) (fun c hc => reads c (by simp [hc]))
        (fun c hc => ?_) hrest)
      rw [(hfirst.step 0).sbi]
      exact hwithin c (by simp [hc])

theorem Helper.run_grown (hosts : fs.Hosts files ino) {h : Helper}
    (within : h.Within fs.sbi.sBlocksize bound) {err : Option Errno}
    (hrun : h.run ops ino fs = .done (fs', err)) : fs.Grown fs' files ino bound := by
  obtain ⟨⟨fs1, err1⟩, hcall, hrest⟩ := Exec.bind_eq_done.mp hrun
  have hgrown := mapBlocks_grown h.calls hosts within.reads within.within hcall
  cases err1 with
  | none =>
    cases hrest
    exact hgrown
  | some e =>
    cases hrest
    exact hgrown

end Grow


/-! ## The calls -/

section Calls

variable {ops : Rebalance Window} {fs fs' : Fs} {files : Set Nat} {ino : Nat} {trunc : TruncEnv}

theorem writeBegin_step (hosts : fs.Hosts files ino) (plain : (fs.inode ino).Plain)
    (reads : trunc.Reads) {helper : Helper} {pos len : Nat}
    (within : helper.Within fs.sbi.sBlocksize (pos + len))
    (hends : fs.EndsBy ino (fs.inode ino).iSize) {err : Option Errno}
    (hrun : writeBegin ops ino trunc helper fs pos len = .done (fs', err)) :
    fs.FileStep fs' files ino (fs.inode ino).iSize ∧
      (fs'.inode ino).iSize = (fs.inode ino).iSize ∧
      fs'.EndsBy ino (if err.isNone then max (fs.inode ino).iSize (pos + len)
        else (fs.inode ino).iSize) := by
  obtain ⟨⟨fs1, err1⟩, hcall, hrest⟩ := Exec.bind_eq_done.mp hrun
  have hgrown := Helper.run_grown hosts within hcall
  have hstep := hgrown.step (fs.inode ino).iSize
  have hends1 := hgrown.endsBy hends
  cases err1 with
  | none =>
    cases hrest
    exact ⟨hstep, hgrown.size, hends1⟩
  | some e =>
    cases hrest
    rw [← hgrown.size] at hends1 hstep ⊢
    obtain ⟨hcut, hsize, hends2⟩ := krWriteFailed_step ops (hstep.hosts hosts) reads
      (plain.of_kind (hstep.kind ino)) (pos + len) hends1
    exact ⟨hstep.trans hcut, hsize, hends2⟩

theorem Fs.raiseSize_step (hosts : fs.Hosts files ino) (upTo keep : Nat) :
    fs.FileStep (fs.raiseSize ino upTo) files ino keep ∧
      ((fs.raiseSize ino upTo).inode ino).iSize = max (fs.inode ino).iSize upTo ∧
      ∀ n, fs.EndsBy ino n → (fs.raiseSize ino upTo).EndsBy ino n := by
  unfold Fs.raiseSize
  split
  · constructor
    · exact Fs.FileStep.setInode hosts.consistent rfl rfl rfl
    constructor
    · simp only [Function.update_self]
      omega
    · exact fun n hends => hends.setInode rfl
  · constructor
    · exact Fs.FileStep.refl hosts.consistent ino keep
    constructor
    · omega
    · exact fun _ hends => hends

theorem krWriteEnd_step (ops : Rebalance Window) (hosts : fs.Hosts files ino)
    (plain : (fs.inode ino).Plain) (reads : trunc.Reads) {pos len written : Nat} (hwritten : written ≤ len)
    (hends : fs.EndsBy ino (max (fs.inode ino).iSize (pos + len))) :
    fs.FileStep (krWriteEnd ops ino trunc fs pos len written).1 files ino (fs.inode ino).iSize ∧
      (fs.inode ino).iSize ≤ ((krWriteEnd ops ino trunc fs pos len written).1.inode ino).iSize ∧
      (krWriteEnd ops ino trunc fs pos len written).1.EndsBy ino
        ((krWriteEnd ops ino trunc fs pos len written).1.inode ino).iSize := by
  obtain ⟨hraise, hsize, hkeep⟩ := Fs.raiseSize_step hosts (pos + written) (fs.inode ino).iSize
  have hends1 := hkeep _ hends
  unfold krWriteEnd
  dsimp only
  generalize fs.raiseSize ino (pos + written) = fs1 at hraise hsize hends1 ⊢
  split
  · have hmax : max (fs1.inode ino).iSize (pos + len) = max (fs.inode ino).iSize (pos + len) := by
      omega
    rw [← hmax] at hends1
    obtain ⟨hcut, hsize2, hends2⟩ := krWriteFailed_step ops (hraise.hosts hosts) reads
      (plain.of_kind (hraise.kind ino)) (pos + len) hends1
    constructor
    · exact hraise.trans (hcut.mono (by omega))
    · rw [hsize2]
      exact ⟨by omega, hends2⟩
  · have hlen : max (fs.inode ino).iSize (pos + len) = (fs1.inode ino).iSize := by omega
    rw [hlen] at hends1
    have hgrows : (fs.inode ino).iSize ≤ (fs1.inode ino).iSize := by omega
    exact ⟨hraise, hgrows, hends1⟩

theorem krDirectIO_fails (hosts : fs.Hosts files ino) (plain : (fs.inode ino).Plain)
    (reads : trunc.Reads) {helper : Helper} {isDax : Bool} {transferred offset count : Nat}
    (within : helper.Within fs.sbi.sBlocksize (offset + count))
    (hends : fs.EndsBy ino (fs.inode ino).iSize) {e : Errno}
    (hrun : krDirectIO ops ino trunc isDax true helper transferred fs offset count =
      .done (fs', .error e)) :
    fs.FileStep fs' files ino (fs.inode ino).iSize ∧
      (fs'.inode ino).iSize = (fs.inode ino).iSize ∧ fs'.EndsBy ino (fs.inode ino).iSize := by
  unfold krDirectIO at hrun
  split at hrun
  · cases hrun
    exact ⟨Fs.FileStep.refl hosts.consistent ino _, rfl, hends⟩
  obtain ⟨⟨fs1, err⟩, hcall, hrest⟩ := Exec.bind_eq_done.mp hrun
  have hgrown := Helper.run_grown hosts within hcall
  have hstep := hgrown.step (fs.inode ino).iSize
  have hends1 := hgrown.endsBy hends
  cases err with
  | none => cases hrest
  | some e =>
    cases hrest
    rw [← hgrown.size] at hends1 hstep ⊢
    obtain ⟨hcut, hsize, hends2⟩ := krWriteFailed_step ops (hstep.hosts hosts) reads
      (plain.of_kind (hstep.kind ino)) (offset + count) hends1
    exact ⟨hstep.trans hcut, hsize, hends2⟩

/-- Direct I/O that is not to write, and direct I/O that succeeds. -/
theorem krDirectIO_grown (hosts : fs.Hosts files ino) {helper : Helper} {isDax write : Bool}
    {transferred offset count bound : Nat} (within : helper.Within fs.sbi.sBlocksize bound)
    {result : Except Errno Nat}
    (hrun : krDirectIO ops ino trunc isDax write helper transferred fs offset count =
      .done (fs', result)) (hplain : write = false ∨ ∃ n, result = .ok n) :
    fs.Grown fs' files ino bound := by
  unfold krDirectIO at hrun
  split at hrun
  · cases hrun
    exact Fs.Grown.refl hosts.consistent
  obtain ⟨⟨fs1, err⟩, hcall, hrest⟩ := Exec.bind_eq_done.mp hrun
  have hgrown := Helper.run_grown hosts within hcall
  cases err with
  | none =>
    cases hrest
    exact hgrown
  | some e =>
    rcases hplain with rfl | ⟨n, rfl⟩
    · cases hrest
      exact hgrown
    · dsimp only at hrest
      split at hrest
      · cases hrest
      · cases hrest

theorem krSetsize_step (ops : Rebalance Window) (hosts : fs.Hosts files ino) {env : SetattrEnv}
    (reads : env.trunc.Reads) (hends : fs.EndsBy ino (fs.inode ino).iSize) {newsize keep : Nat}
    (hkeep : keep ≤ newsize) (hsize : keep ≤ (fs.inode ino).iSize) :
    fs.FileStep (krSetsize ops env ino fs newsize).1 files ino keep ∧
      keep ≤ ((krSetsize ops env ino fs newsize).1.inode ino).iSize ∧
      (krSetsize ops env ino fs newsize).1.EndsBy ino
        ((krSetsize ops env ino fs newsize).1.inode ino).iSize := by
  have hsame : fs.FileStep fs files ino keep := Fs.FileStep.refl hosts.consistent ino keep
  unfold krSetsize
  cases refusesSize fs.sbi.sBlocksize (fs.inode ino) with
  | some e => exact ⟨hsame, hsize, hends⟩
  | none =>
    cases env.truncatePage with
    | some e => exact ⟨hsame, hsize, hends⟩
    | none =>
      dsimp only
      have hset : fs.FileStep { fs with
          inode := Function.update fs.inode ino { fs.inode ino with iSize := newsize } }
          files ino keep := Fs.FileStep.setInode hosts.consistent rfl rfl rfl
      have hnew : (Function.update fs.inode ino { fs.inode ino with iSize := newsize } ino).iSize =
          newsize := by rw [Function.update_self]
      obtain ⟨hcut, hsize2, hends2⟩ := truncateBlocks_fileStep ops (hset.hosts hosts) reads newsize
      generalize truncateBlocks ops env.trunc { fs with
        inode := Function.update fs.inode ino { fs.inode ino with iSize := newsize } } ino newsize =
          fs2 at hcut hsize2 hends2 ⊢
      have hsize2 : (fs2.inode ino).iSize = newsize := hsize2.trans hnew
      constructor
      · exact (hset.trans (hcut.mono hkeep)).trans
          (Fs.FileStep.setInode hcut.consistent rfl rfl rfl)
      · rw [Function.update_self, hsize2]
        exact ⟨hkeep, hends2.setInode rfl⟩

end Calls


/-! ## Runs -/

/-- The file system, and the position and length of the write each file has begun and not
ended. -/
structure Writing where
  fs : Fs
  pending : Nat → Option (Nat × Nat)

/-- How far blocks of the file may be mapped. -/
def Writing.reach (w : Writing) (ino : Nat) : Nat :=
  match w.pending ino with
  | some (pos, len) => max (w.fs.inode ino).iSize (pos + len)
  | none => (w.fs.inode ino).iSize

/-- One completed call on a file. The inode is locked from `write_begin` to `write_end`, and
for direct writes and changes of the size, but not for writeback. No file is cut off below
its `floor`. `nobh_write_end` has nothing that trims, so that only writes it accepts whole
are here. -/
inductive WriteStep (ops : Rebalance Window) (files : Set Nat) (floor : Nat → Nat) :
    Writing → Writing → Prop
  | writeBegin {w : Writing} {fs' : Fs} {ino pos len : Nat} {trunc : TruncEnv} {helper : Helper}
      {err : Option Errno} (file : ino ∈ files) (idle : w.pending ino = none) (reads : trunc.Reads)
      (within : helper.Within w.fs.sbi.sBlocksize (pos + len))
      (call : krWriteBegin ops ino trunc helper w.fs pos len = .done (fs', err)) :
      WriteStep ops files floor w ⟨fs', Function.update w.pending ino
        (if err.isNone then some (pos, len) else none)⟩
  | nobhWriteBegin {w : Writing} {fs' : Fs} {ino pos len : Nat} {trunc : TruncEnv}
      {helper : Helper} {err : Option Errno} (file : ino ∈ files) (idle : w.pending ino = none)
      (reads : trunc.Reads) (within : helper.Within w.fs.sbi.sBlocksize (pos + len))
      (call : krNobhWriteBegin ops ino trunc helper w.fs pos len = .done (fs', err)) :
      WriteStep ops files floor w ⟨fs', Function.update w.pending ino
        (if err.isNone then some (pos, len) else none)⟩
  | writeEnd {w : Writing} {ino pos len written : Nat} {trunc : TruncEnv} (file : ino ∈ files)
      (begun : w.pending ino = some (pos, len)) (reads : trunc.Reads) (written_le : written ≤ len) :
      WriteStep ops files floor w ⟨(krWriteEnd ops ino trunc w.fs pos len written).1,
        Function.update w.pending ino none⟩
  | nobhWriteEnd {w : Writing} {ino pos len : Nat} (file : ino ∈ files)
      (begun : w.pending ino = some (pos, len)) :
      WriteStep ops files floor w ⟨w.fs.raiseSize ino (pos + len),
        Function.update w.pending ino none⟩
  | directRead {w : Writing} {fs' : Fs} {ino offset count transferred : Nat} {trunc : TruncEnv}
      {helper : Helper} {isDax : Bool} {result : Except Errno Nat} (file : ino ∈ files)
      (within : helper.Within w.fs.sbi.sBlocksize 0)
      (call : krDirectIO ops ino trunc isDax false helper transferred w.fs offset count =
        .done (fs', result)) : WriteStep ops files floor w ⟨fs', w.pending⟩
  | directWriteFails {w : Writing} {fs' : Fs} {ino offset count transferred : Nat}
      {trunc : TruncEnv} {helper : Helper} {isDax : Bool} {e : Errno} (file : ino ∈ files)
      (idle : w.pending ino = none) (reads : trunc.Reads)
      (within : helper.Within w.fs.sbi.sBlocksize (offset + count))
      (call : krDirectIO ops ino trunc isDax true helper transferred w.fs offset count =
        .done (fs', .error e)) : WriteStep ops files floor w ⟨fs', w.pending⟩
  | directWrite {w : Writing} {fs' : Fs} {ino offset count transferred n : Nat}
      {trunc : TruncEnv} {helper : Helper} {isDax : Bool} (file : ino ∈ files)
      (idle : w.pending ino = none)
      (within : helper.Within w.fs.sbi.sBlocksize (max (w.fs.inode ino).iSize (offset + n)))
      (call : krDirectIO ops ino trunc isDax true helper transferred w.fs offset count =
        .done (fs', .ok n)) :
      WriteStep ops files floor w ⟨fs'.raiseSize ino (offset + n), w.pending⟩
  | writepage {w : Writing} {fs' : Fs} {ino : Nat} {helper : Helper} {err : Option Errno}
      (file : ino ∈ files) (within : helper.Within w.fs.sbi.sBlocksize (w.fs.inode ino).iSize)
      (call : krWritepage ops ino helper w.fs = .done (fs', err)) :
      WriteStep ops files floor w ⟨fs', w.pending⟩
  | nobhWritepage {w : Writing} {fs' : Fs} {ino : Nat} {helper : Helper} {err : Option Errno}
      (file : ino ∈ files) (within : helper.Within w.fs.sbi.sBlocksize (w.fs.inode ino).iSize)
      (call : krNobhWritepage ops ino helper w.fs = .done (fs', err)) :
      WriteStep ops files floor w ⟨fs', w.pending⟩
  | writepages {w : Writing} {fs' : Fs} {ino : Nat} {helper : Helper} {err : Option Errno}
      (file : ino ∈ files) (within : helper.Within w.fs.sbi.sBlocksize (w.fs.inode ino).iSize)
      (call : krWritepages ops ino helper w.fs = .done (fs', err)) :
      WriteStep ops files floor w ⟨fs', w.pending⟩
  | setsize {w : Writing} {ino newsize : Nat} {env : SetattrEnv} (file : ino ∈ files)
      (idle : w.pending ino = none) (reads : env.trunc.Reads) (high : floor ino ≤ newsize) :
      WriteStep ops files floor w ⟨(krSetsize ops env ino w.fs newsize).1, w.pending⟩

/-- The state between the calls: consistent, and no file has blocks behind its last byte,
or behind what is being written. -/
structure Writing.Trimmed (w : Writing) (files : Set Nat) (floor : Nat → Nat) : Prop where
  mounted : ∃ k es, krFillSuper k es = .ok w.fs.sbi
  blocksize_le : w.fs.sbi.sBlocksize ≤ 4096
  consistent : w.fs.Consistent files
  plain : ∀ ino ∈ files, (w.fs.inode ino).Plain
  ends : ∀ ino ∈ files, w.fs.EndsBy ino (w.reach ino)
  floor_le : ∀ ino ∈ files, floor ino ≤ (w.fs.inode ino).iSize

/-- What one call on the file `ino` does. -/
structure Writing.Moves (w w' : Writing) (files : Set Nat) (floor : Nat → Nat) (ino : Nat) :
    Prop where
  step : w.fs.FileStep w'.fs files ino (floor ino)
  pending : ∀ i, i ≠ ino → w'.pending i = w.pending i
  size : (w.fs.inode ino).iSize ≤ (w'.fs.inode ino).iSize ∨ floor ino ≤ (w'.fs.inode ino).iSize
  ends : w'.fs.EndsBy ino (w'.reach ino)

section Runs

variable {ops : Rebalance Window} {w w' : Writing} {files : Set Nat} {floor : Nat → Nat} {ino : Nat}

theorem Writing.Trimmed.hosts (h : w.Trimmed files floor) (file : ino ∈ files) :
    w.fs.Hosts files ino := ⟨h.mounted, h.blocksize_le, h.consistent, file⟩

theorem Writing.reach_idle (idle : w.pending ino = none) :
    w.reach ino = (w.fs.inode ino).iSize := by
  unfold Writing.reach
  rw [idle]

theorem Writing.reach_begun {pos len : Nat} (begun : w.pending ino = some (pos, len)) :
    w.reach ino = max (w.fs.inode ino).iSize (pos + len) := by
  unfold Writing.reach
  rw [begun]

theorem Writing.size_le_reach (w : Writing) (ino : Nat) : (w.fs.inode ino).iSize ≤ w.reach ino := by
  unfold Writing.reach
  split
  · exact le_max_left _ _
  · exact le_refl _

/-- Writeback and direct reads: what is added lies in front of the end. -/
theorem Writing.Trimmed.grown (h : w.Trimmed files floor) (file : ino ∈ files) {fs' : Fs}
    {bound : Nat} (hbound : bound ≤ (w.fs.inode ino).iSize)
    (grown : w.fs.Grown fs' files ino bound) : w.Moves ⟨fs', w.pending⟩ files floor ino := by
  have hreach := w.size_le_reach ino
  have hsame : Writing.reach ⟨fs', w.pending⟩ ino = w.reach ino := by
    simp only [Writing.reach, grown.size]
  constructor
  · exact grown.step (floor ino)
  · exact fun _ _ => rfl
  · exact Or.inl grown.size.ge
  · rw [hsame]
    exact (grown.endsBy (h.ends ino file)).mono (by omega)

theorem Writing.Trimmed.writeBegin (h : w.Trimmed files floor) (file : ino ∈ files)
    (idle : w.pending ino = none) {fs' : Fs} {pos len : Nat} {trunc : TruncEnv} {helper : Helper}
    {err : Option Errno} (reads : trunc.Reads)
    (within : helper.Within w.fs.sbi.sBlocksize (pos + len))
    (call : KrFs.writeBegin ops ino trunc helper w.fs pos len = .done (fs', err)) :
    w.Moves ⟨fs', Function.update w.pending ino (if err.isNone then some (pos, len) else none)⟩
      files floor ino := by
  have hends := h.ends ino file
  rw [Writing.reach_idle idle] at hends
  obtain ⟨hstep, hsize, hends'⟩ := writeBegin_step (h.hosts file) (h.plain ino file) reads within
    hends call
  constructor
  · exact hstep.mono (h.floor_le ino file)
  · exact fun i hi => Function.update_of_ne hi _ _
  · exact Or.inl hsize.ge
  · cases err with
    | none =>
      rw [Writing.reach_begun (Function.update_self ino (some (pos, len)) w.pending), hsize]
      exact hends'
    | some e =>
      rw [Writing.reach_idle (Function.update_self ino none w.pending), hsize]
      exact hends'

/-- Each call is one on one file. -/
theorem WriteStep.moves (h : w.Trimmed files floor) (call : WriteStep ops files floor w w') :
    ∃ ino ∈ files, w.Moves w' files floor ino := by
  cases call with
  | writeBegin file idle reads within call =>
    exact ⟨_, file, h.writeBegin file idle reads within call⟩
  | nobhWriteBegin file idle reads within call =>
    exact ⟨_, file, h.writeBegin file idle reads within call⟩
  | @writeEnd ino pos len written trunc file begun reads written_le =>
    have hends := h.ends ino file
    rw [Writing.reach_begun begun] at hends
    obtain ⟨hstep, hsize, hends'⟩ := krWriteEnd_step ops (h.hosts file) (h.plain ino file)
      reads written_le hends
    refine ⟨ino, file, ?_⟩
    constructor
    · exact hstep.mono (h.floor_le ino file)
    · exact fun i hi => Function.update_of_ne hi _ _
    · exact Or.inl hsize
    · rw [Writing.reach_idle (Function.update_self ino none w.pending)]
      exact hends'
  | @nobhWriteEnd ino pos len file begun =>
    have hends := h.ends ino file
    rw [Writing.reach_begun begun] at hends
    obtain ⟨hstep, hsize, hends'⟩ := Fs.raiseSize_step (h.hosts file) (pos + len) (floor ino)
    refine ⟨ino, file, ?_⟩
    constructor
    · exact hstep
    · exact fun i hi => Function.update_of_ne hi _ _
    · rw [hsize]
      exact Or.inl (le_max_left _ _)
    · rw [Writing.reach_idle (Function.update_self ino none w.pending), hsize]
      exact hends' _ hends
  | directRead file within call =>
    exact ⟨_, file, h.grown file (Nat.zero_le _)
      (krDirectIO_grown (h.hosts file) within call (Or.inl rfl))⟩
  | @directWriteFails fs' ino offset count transferred trunc helper isDax e file idle reads within
      call =>
    have hends := h.ends ino file
    rw [Writing.reach_idle idle] at hends
    obtain ⟨hstep, hsize, hends'⟩ := krDirectIO_fails (h.hosts file) (h.plain ino file) reads within
      hends call
    refine ⟨ino, file, ?_⟩
    constructor
    · exact hstep.mono (h.floor_le ino file)
    · exact fun _ _ => rfl
    · exact Or.inl hsize.ge
    · have hidle : Writing.pending ⟨fs', w.pending⟩ ino = none := idle
      rw [Writing.reach_idle hidle, hsize]
      exact hends'
  | @directWrite fs' ino offset count transferred n trunc helper isDax file idle within call =>
    have hends := h.ends ino file
    rw [Writing.reach_idle idle] at hends
    have hgrown := krDirectIO_grown (h.hosts file) within call (Or.inr ⟨n, rfl⟩)
    obtain ⟨hraise, hsize, hends'⟩ := Fs.raiseSize_step ((hgrown.step 0).hosts (h.hosts file))
      (offset + n) (floor ino)
    rw [hgrown.size] at hsize
    refine ⟨ino, file, ?_⟩
    constructor
    · exact (hgrown.step (floor ino)).trans hraise
    · exact fun _ _ => rfl
    · rw [hsize]
      exact Or.inl (le_max_left _ _)
    · have hidle : Writing.pending ⟨fs'.raiseSize ino (offset + n), w.pending⟩ ino = none := idle
      rw [Writing.reach_idle hidle, hsize]
      refine hends' _ ?_
      have hmore := hgrown.endsBy hends
      rwa [max_eq_right (le_max_left _ _)] at hmore
  | writepage file within call =>
    exact ⟨_, file, h.grown file (le_refl _) (Helper.run_grown (h.hosts file) within call)⟩
  | nobhWritepage file within call =>
    exact ⟨_, file, h.grown file (le_refl _) (Helper.run_grown (h.hosts file) within call)⟩
  | writepages file within call =>
    exact ⟨_, file, h.grown file (le_refl _) (Helper.run_grown (h.hosts file) within call)⟩
  | @setsize ino newsize env file idle reads high =>
    have hends := h.ends ino file
    rw [Writing.reach_idle idle] at hends
    obtain ⟨hstep, hsize, hends'⟩ := krSetsize_step ops (h.hosts file) reads hends high
      (h.floor_le ino file)
    refine ⟨ino, file, ?_⟩
    constructor
    · exact hstep
    · exact fun _ _ => rfl
    · exact Or.inr hsize
    · have hidle : Writing.pending ⟨(krSetsize ops env ino w.fs newsize).1, w.pending⟩ ino = none :=
        idle
      rw [Writing.reach_idle hidle]
      exact hends'

theorem Writing.Moves.trimmed (h : w.Trimmed files floor) (file : ino ∈ files)
    (moves : w.Moves w' files floor ino) : w'.Trimmed files floor := by
  have hsbi := moves.step.sbi
  constructor
  · rw [hsbi]
    exact h.mounted
  · rw [hsbi]
    exact h.blocksize_le
  · exact moves.step.consistent
  · exact fun i hi => (h.plain i hi).of_kind (moves.step.kind i)
  · intro i hi
    by_cases hino : i = ino
    · rw [hino]
      exact moves.ends
    · have hreach : w'.reach i = w.reach i := by
        simp only [Writing.reach, moves.pending i hino, moves.step.size i hino]
      intro l hl
      rw [moves.step.apart i hi hino l]
      refine h.ends i hi l ?_
      rwa [← hreach, ← hsbi]
  · intro i hi
    have hfloor := h.floor_le i hi
    by_cases hino : i = ino
    · subst hino
      rcases moves.size with hle | hle
      · exact hfloor.trans hle
      · exact hle
    · rw [moves.step.size i hino]
      exact hfloor

/-- The blocks below the floor of any file stay where they are. -/
theorem Writing.Moves.kept (moves : w.Moves w' files floor ino) {i : Nat} (hi : i ∈ files) {l : Nat}
    (hl : l * w.fs.sbi.sBlocksize < floor i) (hne : w.fs.blockAt i l ≠ 0) :
    w'.fs.blockAt i l = w.fs.blockAt i l := by
  by_cases hino : i = ino
  · subst hino
    exact moves.step.kept l hl hne
  · exact moves.step.apart i hi hino l

/-- Runs of writes, writeback and size changes on any regular files, with any failures of
the allocator and short copies: the file system stays consistent, a file that is not being
written has no block behind its last byte, and data below every size a file is cut to stays
in its blocks. -/
theorem writeRun_trimmed (h : w.Trimmed files floor)
    (run : Relation.ReflTransGen (WriteStep ops files floor) w w') :
    w'.fs.Consistent files ∧
      (∀ ino ∈ files, w'.pending ino = none →
        ∀ l, (w'.fs.inode ino).iSize ≤ l * w'.fs.sbi.sBlocksize → w'.fs.blockAt ino l = 0) ∧
      ∀ ino ∈ files, ∀ l, l * w.fs.sbi.sBlocksize < floor ino → w.fs.blockAt ino l ≠ 0 →
        w'.fs.blockAt ino l = w.fs.blockAt ino l := by
  have hrun : w'.Trimmed files floor ∧ w'.fs.sbi = w.fs.sbi ∧
      ∀ ino ∈ files, ∀ l, l * w.fs.sbi.sBlocksize < floor ino → w.fs.blockAt ino l ≠ 0 →
        w'.fs.blockAt ino l = w.fs.blockAt ino l := by
    induction run with
    | refl => exact ⟨h, rfl, fun _ _ _ _ _ => rfl⟩
    | tail _ call ih =>
      obtain ⟨htrimmed, hsbi, hkept⟩ := ih
      obtain ⟨ino, file, moves⟩ := call.moves htrimmed
      refine ⟨moves.trimmed htrimmed file, moves.step.sbi.trans hsbi, fun i hi l hl hne => ?_⟩
      have hbefore := hkept i hi l hl hne
      rw [← hbefore]
      refine moves.kept hi ?_ ?_
      · rwa [hsbi]
      · rwa [hbefore]
  obtain ⟨htrimmed, -, hkept⟩ := hrun
  refine ⟨htrimmed.consistent, fun ino hfile idle => ?_, hkept⟩
  have hends := htrimmed.ends ino hfile
  rwa [Writing.reach_idle idle] at hends

end Runs


/-- The empty file of `tinyFs`. -/
def idleWriting : Writing := ⟨tinyFs, fun _ => none⟩

theorem idleWriting_trimmed : idleWriting.Trimmed {12} (fun _ => 0) := by
  constructor
  · exact ⟨smallEnv, tinyImage, krFillSuper_tinyImage⟩
  · decide
  · exact tinyFs_consistent
  · intro ino _
    have hkind : (idleWriting.fs.inode ino).kind = (0x8000, 0) := rfl
    simp only [Inode.kind, Prod.mk.injEq] at hkind
    unfold Inode.Plain
    rw [hkind.1, hkind.2]
    decide
  · intro ino hfile l _
    obtain rfl := Set.mem_singleton_iff.mp hfile
    exact usedDisk_holes l
  · exact fun _ _ => Nat.zero_le _

/-- A helper that maps the first two blocks. -/
def twoBlocks : Helper where
  calls := [⟨0, 1, true, tinyGetEnv, 20, true⟩, ⟨1, 1, true, tinyGetEnv, 20, true⟩]
  error := none

theorem twoBlocks_within : twoBlocks.Within 1024 2048 := by
  constructor
  · intro c hc
    have hget : c.env = tinyGetEnv := by
      simp only [twoBlocks, List.mem_cons, List.not_mem_nil, or_false] at hc
      rcases hc with rfl | rfl <;> rfl
    rw [hget]
    exact ⟨fun _ => rfl, fun _ => rfl, fun _ => rfl⟩
  · intro c hc _ l hlow hhigh
    simp only [twoBlocks, List.mem_cons, List.not_mem_nil, or_false] at hc
    rcases hc with rfl | rfl
    · dsimp only at hlow hhigh
      omega
    · dsimp only at hlow hhigh
      omega

/-- Of two blocks prepared only the first is written; the second is given back. -/
theorem writeRun_trimmed_short : ∃ fs1, krWriteBegin Rebalance.plain 12 quietTrunc twoBlocks tinyFs 0
    2048 = .done (fs1, none) ∧ fs1.blockAt 12 1 = 8 ∧
      ∀ l, 1 ≤ l → (krWriteEnd Rebalance.plain 12 quietTrunc fs1 0 2048 1024).1.blockAt 12 l = 0 := by
  have hvalue : (krWriteBegin Rebalance.plain 12 quietTrunc twoBlocks tinyFs 0 2048).toOption.map
      (fun r => (r.1.blockAt 12 1,
        ((krWriteEnd Rebalance.plain 12 quietTrunc r.1 0 2048 1024).1.inode 12).iSize,
        (krWriteEnd Rebalance.plain 12 quietTrunc r.1 0 2048 1024).1.sbi.sBlocksize, r.2)) =
      some (8, 1024, 1024, none) := by decide +kernel
  obtain ⟨⟨fs1, err⟩, hcall, hresult⟩ := Exec.toOption_map_eq_some.mp hvalue
  simp only [Prod.mk.injEq] at hresult
  obtain ⟨hblock, hsize, hblocksize, rfl⟩ := hresult
  refine ⟨fs1, hcall, hblock, fun l hl => ?_⟩
  have reads : quietTrunc.Reads := ⟨fun _ => rfl, fun _ => rfl, fun _ => rfl⟩
  have hbegin : WriteStep Rebalance.plain {12} (fun _ => 0) idleWriting
      ⟨fs1, Function.update idleWriting.pending 12 (some (0, 2048))⟩ :=
    @WriteStep.writeBegin _ _ _ idleWriting fs1 12 0 2048 quietTrunc twoBlocks none
      (Set.mem_singleton 12) rfl reads twoBlocks_within hcall
  have hbegun : Function.update idleWriting.pending 12 (some (0, 2048)) 12 = some (0, 2048) :=
    Function.update_self 12 _ _
  have hend : WriteStep Rebalance.plain {12} (fun _ => 0)
      ⟨fs1, Function.update idleWriting.pending 12 (some (0, 2048))⟩
      ⟨(krWriteEnd Rebalance.plain 12 quietTrunc fs1 0 2048 1024).1,
        Function.update (Function.update idleWriting.pending 12 (some (0, 2048))) 12 none⟩ :=
    .writeEnd (Set.mem_singleton 12) hbegun reads (by omega)
  have hended : Function.update (Function.update idleWriting.pending 12 (some (0, 2048))) 12 none 12 =
      none := Function.update_self 12 _ _
  refine (writeRun_trimmed idleWriting_trimmed
    ((Relation.ReflTransGen.single hbegin).tail hend)).2.1 12 (Set.mem_singleton 12) hended l ?_
  rw [hsize, hblocksize]
  omega


end KrFs
