import KrFs.Kernel
import KrFs.Lib.Bytes
import KrFs.Lib.Tiling

/-!
# Directories

The embedding of `dir.c` over the bytes of the directory's pages. Every loop over
the records of a page leaves a `Scan`: the records that it visited and the places
that it read. Writes to a page are lists of stores. `kr_get_page` checks a page each
time; the flag that remembers an earlier check is left out. Messages are left out.
-/

namespace KrFs

open Bytes Tiling

/-- Page size, chunk size (the block size) and what the superblock says. -/
structure DirGeom where
  pageShift : Nat
  chunkBits : Nat
  sInodesCount : Nat
  filetype : Bool
  chunk_min : 10 ≤ chunkBits
  chunk_page : chunkBits ≤ pageShift
  page_max : pageShift < 31

/-- `PAGE_SIZE`. -/
def DirGeom.pageSize (g : DirGeom) : Nat := 2 ^ g.pageShift

/-- `kr_chunk_size`. -/
def DirGeom.chunkSize (g : DirGeom) : Nat := 2 ^ g.chunkBits

def KR_DIR_PAD : Nat := 4
def KR_DIR_ROUND : Nat := KR_DIR_PAD - 1
def KR_MAX_REC_LEN : Nat := 2 ^ 16 - 1
def KR_FT_MAX : Nat := 8

/-- `KR_DIR_REC_LEN`. -/
def krDirRecLen (nameLen : Nat) : Nat := (nameLen + 8 + KR_DIR_ROUND) / KR_DIR_PAD * KR_DIR_PAD

theorem krDirRecLen_le (nameLen : Nat) : nameLen + 8 ≤ krDirRecLen nameLen := by
  unfold krDirRecLen KR_DIR_ROUND KR_DIR_PAD
  omega

section Record

variable (g : DirGeom)

def krRecLenFromDisk (dlen : Nat) : Nat :=
  if 65536 ≤ g.pageSize ∧ dlen = KR_MAX_REC_LEN then 2 ^ 16 else dlen

def krRecLenToDisk (len : Nat) : Nat :=
  if 65536 ≤ g.pageSize ∧ len = 2 ^ 16 then KR_MAX_REC_LEN else len % 2 ^ 16

variable (p : Nat → UInt8) (de : Nat)

/-- The fields of the `struct kr_dir_entry_2` at `de`. -/
def deInode : Nat := value (load p de 4)

def deRecLen : Nat := krRecLenFromDisk g (value (load p (de + 4) 2))

def deNameLen : Nat := (p (de + 6)).toNat

def deFileType : UInt8 := p (de + 7)

def deName : List UInt8 := load p (de + 8) (deNameLen p de)

end Record

/-- A directory: its inode and its pages in memory. -/
structure Dir where
  iIno : Nat
  iSize : Nat
  iBlocks : Nat
  iVersion : Nat
  iDirStartLookup : Nat
  page : Nat → Nat → UInt8
  /-- The pages that can be read. -/
  readable : Nat → Bool

def Dir.setPage (d : Dir) (n : Nat) (p : Nat → UInt8) : Dir :=
  { d with page := Function.update d.page n p }

/-- `dir_pages`. -/
def Dir.pages (g : DirGeom) (d : Dir) : Nat := (d.iSize + g.pageSize - 1) / g.pageSize

/-- `kr_last_byte`. -/
def krLastByte (g : DirGeom) (d : Dir) (pageNr : Nat) : Nat :=
  min g.pageSize (sub32 (d.iSize % 2 ^ 32) (pageNr * g.pageSize))

/-- The labels at which `kr_check_page` gives up. -/
inductive PageFault where
  | badSize | short | align | nameLen | span | inumber | ending
deriving DecidableEq

/-- One round of the loop of `kr_check_page`. -/
def checkEntry (g : DirGeom) (p : Nat → UInt8) (offs : Nat) : Option PageFault :=
  let recLen := deRecLen g p offs
  if recLen < krDirRecLen 1 then some .short
  else if recLen % 4 ≠ 0 then some .align
  else if recLen < krDirRecLen (deNameLen p offs) then some .nameLen
  else if ((offs + recLen - 1) ^^^ offs) >>> g.chunkBits ≠ 0 then some .span
  else if g.sInodesCount < deInode p offs then some .inumber
  else none

theorem checkEntry_short {g : DirGeom} {p : Nat → UInt8} {offs : Nat}
    (h : checkEntry g p offs = none) : krDirRecLen 1 ≤ deRecLen g p offs := by
  unfold checkEntry at h
  dsimp only at h
  split at h
  · cases h
  · omega

/-- The loop of `kr_check_page`. -/
def checkEntries (g : DirGeom) (p : Nat → UInt8) (limit offs : Nat) : Option PageFault :=
  if offs + krDirRecLen 1 ≤ limit then
    match _h : checkEntry g p offs with
    | some fault => some fault
    | none => checkEntries g p limit (offs + deRecLen g p offs)
  else if offs ≠ limit then some .ending else none
termination_by limit - offs
decreasing_by
  have hlen := checkEntry_short _h
  have hpos : 0 < krDirRecLen 1 := by decide
  omega

/-- `kr_check_page`. -/
def krCheckPage (g : DirGeom) (d : Dir) (n : Nat) : Option PageFault :=
  if d.iSize / g.pageSize = n then
    let limit := d.iSize % g.pageSize
    if limit % g.chunkSize ≠ 0 then some .badSize
    else if limit = 0 then none
    else checkEntries g (d.page n) limit 0
  else checkEntries g (d.page n) g.pageSize 0

/-- `kr_get_page`. -/
def krGetPage (g : DirGeom) (d : Dir) (n : Nat) : Option (Nat → UInt8) :=
  if d.readable n = true ∧ krCheckPage g d n = none then some (d.page n) else none

/-- What a loop over the records of a page did. -/
structure Scan where
  page : Nat
  visited : List Nat
  /-- Offset and length of what was read. -/
  reads : List (Nat × Nat)
  /-- It took the branch for a record of length zero. -/
  zeroLength : Bool

/-- The header of each record that is visited is read, and what else the body reads. -/
def scanOf {σ β : Type} (n : Nat) (body : Nat → List (Nat × Nat))
    (w : List Nat × WalkEnd σ β) : Scan where
  page := n
  visited := w.1
  reads := w.1.flatMap fun de => (de, 8) :: body de
  zeroLength := match w.2 with
    | .stuck _ _ => true
    | _ => false

/-- `kr_match`. -/
def krMatch (name : List UInt8) (p : Nat → UInt8) (de : Nat) : Bool :=
  name.length == deNameLen p de && deInode p de != 0 && load p (de + 8) name.length == name

/-- What `kr_match` reads beyond the header. -/
def matchReads (name : List UInt8) (p : Nat → UInt8) (de : Nat) : List (Nat × Nat) :=
  if name.length = deNameLen p de ∧ deInode p de ≠ 0 then [(de + 8, name.length)] else []

/-! ## `kr_find_entry` -/

/-- The search in one page. -/
def findInPage (g : DirGeom) (name : List UInt8) (p : Nat → UInt8) (last : Nat) :
    List Nat × WalkEnd Unit Nat :=
  walk (deRecLen g p) (search (krMatch name p) id)
    (sub32 last (krDirRecLen name.length) + 1) () 0

/-- The rounds of the loop that are left at page `n`. -/
def roundsLeft (npages start n : Nat) : Nat :=
  if n < start then start - n else npages + start - n

/-- One round of the loop over the pages: how it leaves the loop, if it does. -/
def findPage (g : DirGeom) (d : Dir) (name : List UInt8) (n : Nat) :
    Option (Option (Nat × Nat)) × List Scan :=
  match krGetPage g d n with
  | none => (none, [])
  | some p =>
    let w := findInPage g name p (krLastByte g d n)
    (match w.2 with
      | .left de => some (some (n, de))
      | .stuck _ _ => some none
      | .past _ _ => none, [scanOf n (matchReads name p) w])

/-- The page after `n`, the first one after the last. -/
def nextPage (npages n : Nat) : Nat := if npages ≤ n + 1 then 0 else n + 1

theorem nextPage_lt {npages n : Nat} (h : n < npages) : nextPage npages n < npages := by
  unfold nextPage
  split <;> omega

/-- The loop over the pages. -/
def findPages (g : DirGeom) (d : Dir) (name : List UInt8) (npages start n : Nat)
    (hstart : start < npages) (hn : n < npages) : Option (Nat × Nat) × List Scan :=
  let next := nextPage npages n
  match findPage g d name n with
  | (some result, scans) => (result, scans)
  | (none, scans) =>
    if d.iBlocks >>> (g.pageShift - 9) < next then (none, scans)
    else if next ≠ start then
      let rest := findPages g d name npages start next hstart (nextPage_lt hn)
      (rest.1, scans ++ rest.2)
    else (none, scans)
termination_by roundsLeft npages start n
decreasing_by
  unfold roundsLeft
  grind [nextPage]

/-- `kr_find_entry`: the record, the directory with the new hint, and the loops. -/
def krFindEntry (g : DirGeom) (d : Dir) (name : List UInt8) :
    Option (Nat × Nat) × Dir × List Scan :=
  let npages := d.pages g
  if h : 0 < npages then
    let start := if npages ≤ d.iDirStartLookup then 0 else d.iDirStartLookup
    have hstart : start < npages := by grind
    let r := findPages g d name npages start start hstart hstart
    match r.1 with
    | some (n, de) => (some (n, de), { d with iDirStartLookup := n }, r.2)
    | none => (none, d, r.2)
  else (none, d, [])

/-! ## `kr_readdir` -/

/-- `struct file` and the position of its `struct dir_context`. -/
structure DirFile where
  fVersion : Nat
  pos : Nat
deriving DecidableEq

/-- What `dir_emit` passes on. -/
structure DirEmit where
  name : List UInt8
  pos : Nat
  ino : Nat
  dType : Nat
deriving DecidableEq

/-- `kr_filetype_table`. -/
def krFiletypeTable (fileType : UInt8) : Nat := [0, 8, 4, 2, 6, 1, 12, 10].getD fileType.toNat 0

/-- `d_type` of a record. -/
def dTypeOf (g : DirGeom) (fileType : UInt8) : Nat :=
  if g.filetype ∧ fileType.toNat < KR_FT_MAX then krFiletypeTable fileType else 0

/-- The loop of `kr_validate_entry`. -/
def validateWalk (g : DirGeom) (p : Nat → UInt8) (offset : Nat) : List Nat × WalkEnd Unit Unit :=
  walk (deRecLen g p) (fun _ _ => .inr ()) offset () (offset / g.chunkSize * g.chunkSize)

/-- `kr_validate_entry`; it stops at a record of length zero. -/
def krValidateEntry (g : DirGeom) (p : Nat → UInt8) (offset : Nat) : Nat :=
  match (validateWalk g p offset).2 with
  | .past _ de => de
  | .stuck _ de => de
  | .left _ => offset

/-- What `kr_readdir` has done: the position, what it emitted, and for how many more
entries the caller has room. -/
structure ReadState where
  pos : Nat
  emitted : List DirEmit
  room : Nat

/-- One round of the loop over the records. -/
def readdirEntry (g : DirGeom) (p : Nat → UInt8) (st : ReadState) (de : Nat) :
    ReadState ⊕ ReadState :=
  if deInode p de ≠ 0 then
    if st.room = 0 then .inl st
    else .inr ⟨st.pos + deRecLen g p de,
      st.emitted ++ [⟨deName p de, st.pos, deInode p de, dTypeOf g (deFileType p de)⟩], st.room - 1⟩
  else .inr { st with pos := st.pos + deRecLen g p de }

/-- The name is read when it is emitted. -/
def emitReads (p : Nat → UInt8) (de : Nat) : List (Nat × Nat) :=
  if deInode p de ≠ 0 then [(de + 8, deNameLen p de)] else []

structure ReaddirResult where
  file : DirFile
  emitted : List DirEmit
  error : Option Errno
  scans : List Scan

/-- The loop over the records of a page. -/
def readdirWalk (g : DirGeom) (p : Nat → UInt8) (last offset : Nat) (st : ReadState) :
    List Nat × WalkEnd ReadState ReadState :=
  walk (deRecLen g p) (readdirEntry g p) (last + 1 - krDirRecLen 1) st offset

/-- The loop over the pages. -/
def readdirPages (g : DirGeom) (d : Dir) :
    List Nat → Nat → Bool → Nat → ReadState → ReaddirResult
  | [], _, _, fVersion, st => ⟨⟨fVersion, st.pos⟩, st.emitted, none, []⟩
  | n :: pages, offset, needRevalidate, fVersion, st =>
    match krGetPage g d n with
    | none => ⟨⟨fVersion, st.pos + (g.pageSize - offset)⟩, st.emitted, some .eio, []⟩
    | some p =>
      let again := needRevalidate && offset != 0
      let validated := if again then [scanOf n (fun _ => []) (validateWalk g p offset)] else []
      let offset' := if again then krValidateEntry g p offset else offset
      let st' := if again then { st with pos := n * g.pageSize + offset' } else st
      let fVersion' := if needRevalidate then d.iVersion else fVersion
      let w := readdirWalk g p (krLastByte g d n) offset' st'
      let scans := validated ++ [scanOf n (emitReads p) w]
      match w.2 with
      | .stuck st'' _ => ⟨⟨fVersion', st''.pos⟩, st''.emitted, some .eio, scans⟩
      | .left st'' => ⟨⟨fVersion', st''.pos⟩, st''.emitted, none, scans⟩
      | .past st'' _ =>
        let rest := readdirPages g d pages 0 false fVersion' st''
        { rest with scans := scans ++ rest.scans }

/-- `kr_readdir` for a caller that has room for so many entries. -/
def krReaddir (g : DirGeom) (d : Dir) (file : DirFile) (room : Nat) : ReaddirResult :=
  if d.iSize < file.pos + krDirRecLen 1 then ⟨file, [], none, []⟩
  else readdirPages g d
    (List.range' (file.pos / g.pageSize) (d.pages g - file.pos / g.pageSize))
    (file.pos % g.pageSize) (file.fVersion != d.iVersion) file.fVersion ⟨file.pos, [], room⟩

/-! ## `kr_empty_dir` -/

/-- The record at `de` keeps the directory from being empty. -/
def notEmptyEntry (d : Dir) (p : Nat → UInt8) (de : Nat) : Bool :=
  deInode p de != 0 &&
    (p (de + 8) != 46 || decide (2 < deNameLen p de) ||
      if deNameLen p de < 2 then deInode p de != d.iIno else p (de + 9) != 46)

/-- The bytes of the name that `kr_empty_dir` looks at. -/
def emptyReads (p : Nat → UInt8) (de : Nat) : List (Nat × Nat) :=
  if deInode p de ≠ 0 then [(de + 8, if deNameLen p de = 2 then 2 else 1)] else []

/-- The search in one page. -/
def emptyInPage (g : DirGeom) (d : Dir) (p : Nat → UInt8) (last : Nat) :
    List Nat × WalkEnd Unit Unit :=
  walk (deRecLen g p) (search (notEmptyEntry d p) fun _ => ())
    (sub32 last (krDirRecLen 1) + 1) () 0

/-- One round of the loop over the pages: whether it goes on. -/
def emptyPage (g : DirGeom) (d : Dir) (i : Nat) : Bool × List Scan :=
  match krGetPage g d i with
  | none => (true, [])
  | some p =>
    let w := emptyInPage g d p (krLastByte g d i)
    (match w.2 with
      | .past _ _ => true
      | .left _ => false
      | .stuck _ _ => false, [scanOf i (emptyReads p) w])

/-- The loop over the pages. -/
def emptyPages (g : DirGeom) (d : Dir) : List Nat → Bool × List Scan
  | [] => (true, [])
  | i :: pages =>
    match emptyPage g d i with
    | (true, scans) => ((emptyPages g d pages).1, scans ++ (emptyPages g d pages).2)
    | (false, scans) => (false, scans)

/-- `kr_empty_dir`. -/
def krEmptyDir (g : DirGeom) (d : Dir) : Bool × List Scan := emptyPages g d (List.range (d.pages g))

/-! ## Changing a directory -/

/-- What happens to the buffers of a chunk: `kr_prepare_chunk` may fail and may
allocate sectors, and the write of `kr_commit_chunk` may fail. -/
structure ChunkEnv where
  prepare : Option Errno
  sectors : Nat
  commit : Option Errno

/-- `kr_commit_chunk` but for its result. -/
def krCommitChunk (d : Dir) (pos len : Nat) : Dir :=
  { d with iVersion := d.iVersion + 1, iSize := if d.iSize < pos + len then pos + len else d.iSize }

/-- `kr_type_by_mode`. -/
def krTypeByMode (mode : UInt16) : UInt8 :=
  [0, 5, 3, 0, 2, 0, 4, 0, 1, 0, 7, 0, 6, 0, 0].getD ((mode &&& S_IFMT) >>> 12).toNat 0

/-- The type that `kr_set_de_type` writes. -/
def deTypeOf (g : DirGeom) (mode : UInt16) : UInt8 := if g.filetype then krTypeByMode mode else 0

/-- The inode that an entry is made for. -/
structure LinkTarget where
  iIno : Nat
  iMode : UInt16

/-- A call that changes a page: how it ends, the directory, and what it touched. -/
structure DirCall where
  ret : Exec (Except Errno Unit)
  dir : Dir
  scans : List Scan
  /-- The page that it wrote to, with the stores. -/
  stores : Option (Nat × List Store)

/-- `kr_set_link` on the record at `de` of page `n`. -/
def krSetLink (g : DirGeom) (d : Dir) (n de : Nat) (inode : LinkTarget) (env : ChunkEnv) : DirCall :=
  let p := d.page n
  let stores : List Store := [⟨de, digits 4 inode.iIno⟩, ⟨de + 7, [deTypeOf g inode.iMode]⟩]
  match env.prepare with
  | some _ => ⟨.bug, d, [], none⟩
  | none =>
    let d' := d.setPage n (apply p stores)
    ⟨.done (.ok ()), krCommitChunk d' (n * g.pageSize + de) (deRecLen g p de), [], some (n, stores)⟩

/-- How the scan of a page by `kr_add_link` ends. -/
inductive AddScan where
  /-- At the end of the directory. -/
  | fresh (de : Nat)
  /-- At a record with room: its length and the length that it needs itself. -/
  | room (de recLen nameLen : Nat)
  | found (de : Nat)
  | zero (de : Nat)
  /-- It stays at one record for ever. -/
  | loops (de : Nat)
  | past
deriving DecidableEq

/-- The loop of `kr_add_link` over the records of a page; `rec_len` is an
`unsigned short`. -/
def addWalk (g : DirGeom) (name : List UInt8) (p : Nat → UInt8) (dirEnd de : Nat) :
    List Nat × AddScan :=
  let reclen := krDirRecLen name.length
  if de + reclen ≤ g.pageSize then
    if de = dirEnd then ([], .fresh de)
    else if deRecLen g p de = 0 then ([de], .zero de)
    else if krMatch name p de then ([de], .found de)
    else
      let nameLen := krDirRecLen (deNameLen p de)
      let recLen := deRecLen g p de % 2 ^ 16
      if (deInode p de = 0 ∧ reclen ≤ recLen) ∨ nameLen + reclen ≤ recLen then
        ([de], .room de recLen nameLen)
      else if recLen = 0 then ([de], .loops de)
      else
        let rest := addWalk g name p dirEnd (de + recLen)
        (de :: rest.1, rest.2)
  else ([], .past)
termination_by g.pageSize - de
decreasing_by
  have hpos := krDirRecLen_le name.length
  omega

/-- The scan that the loop leaves. -/
def addScanOf (n : Nat) (name : List UInt8) (p : Nat → UInt8) (w : List Nat × AddScan) : Scan where
  page := n
  visited := w.1
  reads := w.1.flatMap fun de => (de, 8) :: matchReads name p de
  zeroLength := match w.2 with
    | .zero _ => true
    | _ => false

/-- The stores for a new record at `de`. -/
def entryStores (g : DirGeom) (name : List UInt8) (inode : LinkTarget) (de : Nat) : List Store :=
  [⟨de + 6, [UInt8.ofNat name.length]⟩, ⟨de + 8, name⟩, ⟨de, digits 4 inode.iIno⟩,
    ⟨de + 7, [deTypeOf g inode.iMode]⟩]

/-- The part of `kr_add_link` from `got_it` on; `first` are stores made before it. -/
def addLinkAt (g : DirGeom) (d : Dir) (name : List UInt8) (inode : LinkTarget) (env : ChunkEnv)
    (n de recLen nameLen : Nat) (first : List Store) (scans : List Scan) : DirCall :=
  let p := apply (d.page n) first
  match env.prepare with
  | some err => ⟨.done (.error err), d.setPage n p, scans, some (n, first)⟩
  | none =>
    let stores :=
      if deInode p de ≠ 0 then
        [⟨de + nameLen + 4, digits 2 (krRecLenToDisk g (recLen - nameLen))⟩,
          ⟨de + 4, digits 2 (krRecLenToDisk g nameLen)⟩] ++ entryStores g name inode (de + nameLen)
      else entryStores g name inode de
    let d' := { d.setPage n (apply p stores) with iBlocks := d.iBlocks + env.sectors }
    ⟨.done (match env.commit with
        | some err => .error err
        | none => .ok ()),
      krCommitChunk d' (n * g.pageSize + de) recLen, scans, some (n, first ++ stores)⟩

/-- The loop of `kr_add_link` over the pages. -/
def addPages (g : DirGeom) (d : Dir) (name : List UInt8) (inode : LinkTarget) (env : ChunkEnv) :
    List Nat → List Scan → DirCall
  | [], scans => ⟨.bug, d, scans, none⟩
  | n :: pages, scans =>
    match krGetPage g d n with
    | none => ⟨.done (.error .eio), d, scans, none⟩
    | some p =>
      let w := addWalk g name p (krLastByte g d n) 0
      let scans := scans ++ [addScanOf n name p w]
      match w.2 with
      | .fresh de =>
        addLinkAt g d name inode env n de (g.chunkSize % 2 ^ 16) 0
          [⟨de + 4, digits 2 (krRecLenToDisk g g.chunkSize)⟩, ⟨de, digits 4 0⟩] scans
      | .room de recLen nameLen => addLinkAt g d name inode env n de recLen nameLen [] scans
      | .found _ => ⟨.done (.error .eexist), d, scans, none⟩
      | .zero _ => ⟨.done (.error .eio), d, scans, none⟩
      | .loops _ => ⟨.running, d, scans, none⟩
      | .past => addPages g d name inode env pages scans

/-- `kr_add_link`. -/
def krAddLink (g : DirGeom) (d : Dir) (name : List UInt8) (inode : LinkTarget) (env : ChunkEnv) :
    DirCall :=
  addPages g d name inode env (List.range (d.pages g + 1)) []

/-- The loop of `kr_delete_entry`, which remembers the record before. -/
def deleteWalk (g : DirGeom) (p : Nat → UInt8) (de : Nat) :
    List Nat × WalkEnd (Option Nat) Unit :=
  walk (deRecLen g p) (fun _ pde => .inr (some pde)) de none (de / g.chunkSize * g.chunkSize)

/-- `kr_delete_entry` on the record at `de` of page `n`. -/
def krDeleteEntry (g : DirGeom) (d : Dir) (n de : Nat) (env : ChunkEnv) : DirCall :=
  let p := d.page n
  let start := de / g.chunkSize * g.chunkSize
  let upto := de + deRecLen g p de
  let w := deleteWalk g p de
  let scan := scanOf n (fun _ => []) w
  let scans := [{ scan with reads := (de, 8) :: scan.reads }]
  match w.2 with
  | .past pde _ =>
    match env.prepare with
    | some _ => ⟨.bug, d, scans, none⟩
    | none =>
      let from' := pde.getD start
      let stores := (match pde with
        | some pde => [⟨pde + 4, digits 2 (krRecLenToDisk g (upto - from'))⟩]
        | none => []) ++ [⟨de, digits 4 0⟩]
      ⟨.done (match env.commit with
          | some err => .error err
          | none => .ok ()),
        krCommitChunk (d.setPage n (apply p stores)) (n * g.pageSize + from') (upto - from'), scans,
        some (n, stores)⟩
  | _ => ⟨.done (.error .eio), d, scans, none⟩

/-- `kr_make_empty`, when the page can be had. -/
def krMakeEmpty (g : DirGeom) (d : Dir) (inode : LinkTarget) (parent : Nat) (env : ChunkEnv) :
    DirCall :=
  match env.prepare with
  | some err => ⟨.done (.error err), d, [], none⟩
  | none =>
    let de := krDirRecLen 1
    let type := deTypeOf g inode.iMode
    let stores : List Store :=
      [⟨0, List.replicate g.chunkSize 0⟩, ⟨6, [1]⟩, ⟨4, digits 2 (krRecLenToDisk g (krDirRecLen 1))⟩,
        ⟨8, [46, 0, 0, 0]⟩, ⟨0, digits 4 inode.iIno⟩, ⟨7, [type]⟩,
        ⟨de + 6, [2]⟩, ⟨de + 4, digits 2 (krRecLenToDisk g (g.chunkSize - krDirRecLen 1))⟩,
        ⟨de, digits 4 parent⟩, ⟨de + 8, [46, 46, 0, 0]⟩, ⟨de + 7, [type]⟩]
    let d' := { d.setPage 0 (apply (d.page 0) stores) with iBlocks := d.iBlocks + env.sectors }
    ⟨.done (match env.commit with
        | some err => .error err
        | none => .ok ()),
      krCommitChunk d' 0 g.chunkSize, [], some (0, stores)⟩

end KrFs
