import KrFs.Balloc

/-!
# The block map of an inode

The tree of block pointers that `inode.c` keeps for a file: the path of a
logical block, the look-up of a chain, and `kr_get_blocks` with the allocation
and the splicing of a branch. Pointers are read and written through `Mem`, the
words the code can reach: the inode's `i_data`, the indirect blocks in the buffer
cache and the local variable `nr` of `__kr_truncate_blocks`. The DAX branch is
left out, since no mount option of this file system can turn it on.
-/

namespace KrFs

open SearchTree

/-- An array of block pointers. -/
inductive Base where
  | inode
  | block (nr : Nat)
  | top
deriving DecidableEq

structure Mem where
  iData : Nat → Nat
  ptr : Nat → Nat → Nat
  nr : Nat

def Mem.row (m : Mem) : Base → Nat → Nat
  | .inode => m.iData
  | .block b => m.ptr b
  | .top => fun i => if i = 0 then m.nr else 0

def Mem.write (m : Mem) (base : Base) (i key : Nat) : Mem :=
  match base with
  | .inode => { m with iData := Function.update m.iData i key }
  | .block b => { m with ptr := Function.update m.ptr b (Function.update (m.ptr b) i key) }
  | .top => { m with nr := key }

/-- `Indirect`: the place of a pointer and the value that was read there. -/
structure Indirect where
  base : Base
  off : Nat
  key : Nat
deriving DecidableEq

/-- `add_chain`. -/
def addChain (m : Mem) (base : Base) (off : Nat) : Indirect := ⟨base, off, m.row base off⟩

/-- `verify_chain`: every pointer still has the value that was read. -/
def verifyChain (m : Mem) (chain : List Indirect) : Bool :=
  chain.all fun p => p.key == m.row p.base p.off

/-- `kr_block_to_path`: the offsets, none when the block is out of range, and
the distance to the end of the last array. -/
def krBlockToPath (ptrs ptrsBits : Nat) (iBlock : Int) : List Nat × Int :=
  -- `i_block & (ptrs - 1)` of a negative number in two's complement
  if iBlock < 0 then ([], 0 - 1 - iBlock % ptrs)
  else
    let b := iBlock.toNat
    if b < KR_NDIR_BLOCKS then ([b], (KR_NDIR_BLOCKS : Int) - 1 - (b &&& (ptrs - 1) : Nat))
    else
      let b := b - KR_NDIR_BLOCKS
      if b < ptrs then ([KR_IND_BLOCK, b], (ptrs : Int) - 1 - (b &&& (ptrs - 1) : Nat))
      else
        let b := b - ptrs
        if b < 1 <<< (ptrsBits * 2) then
          ([KR_DIND_BLOCK, b >>> ptrsBits, b &&& (ptrs - 1)],
            (ptrs : Int) - 1 - (b &&& (ptrs - 1) : Nat))
        else
          let b := b - 1 <<< (ptrsBits * 2)
          if b >>> (ptrsBits * 2) < ptrs then
            ([KR_TIND_BLOCK, b >>> (ptrsBits * 2), (b >>> ptrsBits) &&& (ptrs - 1),
              b &&& (ptrs - 1)], (ptrs : Int) - 1 - (b &&& (ptrs - 1) : Nat))
          else ([], 0 - 1 - (b &&& (ptrs - 1) : Nat))

/-! ## Looking up a chain -/

/-- The result of `kr_get_branch`: the filled part of the chain, whether it is
complete (the return of `NULL`), and `*err`. -/
structure Branch where
  chain : List Indirect
  complete : Bool
  err : Option Errno
deriving DecidableEq

/-- The loop of `kr_get_branch`. Round `i` reads the block `i` of the chain;
`mem (i + 1)` is what the read-locked region after that read sees. -/
def getBranchLoop (mem : Nat → Mem) (bread : Nat → Bool) :
    Nat → List Indirect → Nat → List Nat → Branch
  | _, chain, _, [] => ⟨chain, true, none⟩
  | i, chain, key, off :: offsets =>
    if !bread i then ⟨chain, false, some .eio⟩
    else if !verifyChain (mem (i + 1)) chain then ⟨chain, false, some .eagain⟩
    else
      let p := addChain (mem (i + 1)) (.block key) off
      if p.key = 0 then ⟨chain ++ [p], false, none⟩
      else getBranchLoop mem bread (i + 1) (chain ++ [p]) p.key offsets

def krGetBranch (mem : Nat → Mem) (bread : Nat → Bool) : List Nat → Branch
  | [] => ⟨[], true, none⟩
  | off :: offsets =>
    let p := addChain (mem 0) .inode off
    if p.key = 0 then ⟨[p], false, none⟩ else getBranchLoop mem bread 0 [p] p.key offsets

/-- Last entry of a chain; a chain is never empty. -/
def lastEntry (chain : List Indirect) : Indirect := chain.getLastD ⟨.inode, 0, 0⟩

/-! ## The block map in the file system state -/

def Fs.addrPerBlock (fs : Fs) : Nat := fs.sbi.sBlocksize / 4

def Fs.path (fs : Fs) (iblock : Int) : List Nat × Int :=
  krBlockToPath fs.addrPerBlock fs.sbi.sAddrPerBlockBits iblock

def Fs.mem (fs : Fs) (ino : Nat) : Mem := ⟨(fs.inode ino).iData, fs.ptr, 0⟩

/-- Put a changed pointer memory back. -/
def Fs.setMem (fs : Fs) (ino : Nat) (m : Mem) : Fs :=
  { fs with
    inode := Function.update fs.inode ino { fs.inode ino with iData := m.iData }
    ptr := m.ptr }

/-- What one call of `kr_get_blocks` meets: the memory its unlocked look-up sees
step by step, failing reads of the two look-ups, the calls of the allocator,
failing `sb_getblk` and `kmalloc`, the bitmap reads of the roll-back, and the
clock and process number. -/
structure GetBlocksEnv where
  look : Nat → Mem
  bread : Nat → Bool
  breadAgain : Nat → Bool
  alloc : Nat → AllocEnv
  getblk : Nat → Bool
  kmalloc : Bool
  readBitmap : Nat → Bool
  now : Int
  pid : Nat

/-- `kr_find_near`: a block to the left, the indirect block, or the group. -/
def krFindNear (fs : Fs) (ino pid : Nat) (ind : Indirect) : Nat :=
  match ((List.range ind.off).reverse.find? fun i => (fs.mem ino).row ind.base i != 0) with
  | some i => (fs.mem ino).row ind.base i
  | none =>
    match ind.base with
    | .block b => b
    | _ => fs.sbi.groupFirstBlockNo (fs.inode ino).iBlockGroup +
        pid % 16 * (fs.sbi.sBlocksPerGroup / 16)

def krFindGoal (fs : Fs) (ino pid iblock : Nat) (ind : Indirect) : Nat :=
  match (fs.inode ino).iBlockAllocInfo with
  | some info =>
    if iblock = info.lastAllocLogicalBlock + 1 ∧ info.lastAllocPhysicalBlock ≠ 0 then
      info.lastAllocPhysicalBlock + 1
    else krFindNear fs ino pid ind
  | none => krFindNear fs ino pid ind

/-- The loop of `kr_blks_to_allocate` over absent pointers. -/
def absentBlocks (m : Mem) (ind : Indirect) (blks : Nat) (blocksToBoundary : Int) : Nat → Nat → Nat
  | 0, count => count
  | n + 1, count =>
    if count < blks && (count : Int) ≤ blocksToBoundary && m.row ind.base (ind.off + count) == 0 then
      absentBlocks m ind blks blocksToBoundary n (count + 1)
    else count

def krBlksToAllocate (m : Mem) (ind : Indirect) (k blks : Nat) (blocksToBoundary : Int) : Nat :=
  if 0 < k then
    if (blks : Int) < blocksToBoundary + 1 then blks else (blocksToBoundary + 1).toNat
  else absentBlocks m ind blks blocksToBoundary blks 1

section GetBlocks

variable (ops : Rebalance Window) (env : GetBlocksEnv) (ino fuel : Nat)

/-- The loop of `kr_alloc_blocks`. `new` are the blocks taken for indirect
blocks so far; on success also the first data block and their number. -/
def allocBlocksLoop (goal indirectBlks : Nat) :
    Nat → Nat → Fs → Nat → List Nat →
    Exec (Fs × Except (Errno × List Nat) (List Nat × Nat × Nat))
  | 0, _, _, _, _ => .running
  | rounds + 1, k, fs, target, new =>
    (krNewBlocks ops (env.alloc k) ino fuel fs goal target).bind fun (fs, result) =>
      match result with
      | .error e => .done (fs, .error (e, new))
      | .ok (current, count) =>
        let taken := min (indirectBlks - new.length) count
        let new := new ++ List.range' current taken
        if 0 < count - taken then .done (fs, .ok (new, current + taken, count - taken))
        else allocBlocksLoop goal indirectBlks rounds (k + 1) fs (target - count) new

/-- Free each block of a list with a call of its own. -/
def freeEach (fs : Fs) (blocks : List Nat) : Fs :=
  blocks.foldl (fun fs b => krFreeBlocks env.readBitmap fs ino b 1) fs

def krAllocBlocks (fs : Fs) (goal indirectBlks blks : Nat) :
    Exec (Fs × Except Errno (List Nat × Nat × Nat)) :=
  (allocBlocksLoop ops env ino fuel goal indirectBlks (indirectBlks + 1) 0 fs
    (blks + indirectBlks) []).bind fun (fs, result) =>
      match result with
      | .error (e, new) => .done (freeEach env ino fs new, .error e)
      | .ok found => .done (fs, .ok found)

/-- Row of a new indirect block: zeroes, the pointer to the next block of the
branch and, in the last one, the pointers to all new data blocks. -/
def branchRow (off key data num : Nat) (last : Bool) : Nat → Nat :=
  fun i => if i = off then key
    else if last && off < i && i < off + num then data + (i - off)
    else 0

/-- The loop of `kr_alloc_branch` over the new indirect blocks; `false` when an
`sb_getblk` failed. -/
def fillBranch (data num : Nat) : Nat → Fs → List Nat → List Nat → Fs × Bool
  | _, fs, [], _ => (fs, true)
  | _, fs, _ :: _, [] => (fs, true)
  | n, fs, b :: rest, off :: offsets =>
    if !env.getblk n then (fs, false)
    else
      let row := branchRow off (rest.headD data) data num rest.isEmpty
      fillBranch data num (n + 1) { fs with ptr := Function.update fs.ptr b row } rest offsets

/-- `kr_alloc_branch`: the new indirect blocks, the first data block and the
number of data blocks. `offsets` are those below the missing pointer. -/
def krAllocBranch (fs : Fs) (goal indirectBlks blks : Nat) (offsets : List Nat) :
    Exec (Fs × Except Errno (List Nat × Nat × Nat)) :=
  (krAllocBlocks ops env ino fuel fs goal indirectBlks blks).bind fun (fs, result) =>
    match result with
    | .error e => .done (fs, .error e)
    | .ok (new, data, num) =>
      let (fs, filled) := fillBranch env data num 1 fs new offsets
      if filled then .done (fs, .ok (new, data, num))
      else
        .done (krFreeBlocks env.readBitmap (freeEach env ino fs new) ino data num,
          .error .enomem)

/-- The pointers `kr_splice_branch` stores: one to the new branch, or one to
each new data block. -/
def spliceRow (row : Nat → Nat) (off key blks : Nat) (direct : Bool) : Nat → Nat :=
  fun i => if i = off then key
    else if direct && off < i && i < off + blks then key + (i - off)
    else row i

def Mem.setRow (m : Mem) (base : Base) (row : Nat → Nat) : Mem :=
  match base with
  | .inode => { m with iData := row }
  | .block b => { m with ptr := Function.update m.ptr b row }
  | .top => m

/-- `kr_splice_branch`. -/
def krSpliceBranch (fs : Fs) (iblock : Nat) (ind : Indirect) (new : List Nat) (data blks : Nat) :
    Fs :=
  let m := fs.mem ino
  let key := new.headD data
  let fs := fs.setMem ino
    (m.setRow ind.base (spliceRow (m.row ind.base) ind.off key blks new.isEmpty))
  let inode := fs.inode ino
  { fs with
    inode := Function.update fs.inode ino { inode with
      iCtime := env.now
      iBlockAllocInfo := inode.iBlockAllocInfo.map fun _ =>
        ⟨iblock + blks - 1, data + blks - 1⟩ } }

/-- The results `kr_get_blocks` hands back. -/
structure Mapped where
  ret : Except Errno Nat
  bno : Nat
  new : Bool
  boundary : Bool

/-- The loop that maps more blocks after a complete look-up. It runs without a
lock; `none` is the case in which the chain has changed meanwhile. -/
def mapMore (chain : List Indirect) (maxblocks : Nat) (blocksToBoundary : Int) :
    Nat → Nat → Nat → Option Nat
  | 0, _, count => some count
  | n + 1, t, count =>
    if count < maxblocks && (count : Int) ≤ blocksToBoundary then
      let p := lastEntry chain
      if !verifyChain (env.look t) chain then none
      else if (env.look (t + 1)).row p.base (p.off + count) = p.key + count then
        mapMore chain maxblocks blocksToBoundary n (t + 2) (count + 1)
      else some count
    else some count

def mappedAt (chain : List Indirect) (count : Nat) (blocksToBoundary : Int) : Mapped :=
  ⟨.ok count, (lastEntry chain).key, false, blocksToBoundary < count⟩

/-- `kr_init_block_alloc_info` for a regular file that has none yet. -/
def initBlockAllocInfo (reservation : Bool) (fs : Fs) : Fs :=
  if S_ISREG (fs.inode ino).iMode && (fs.inode ino).iBlockAllocInfo.isNone && env.kmalloc then
    { fs with
      inode := Function.update fs.inode ino { fs.inode ino with iBlockAllocInfo := some ⟨0, 0⟩ }
      rsv := fs.rsv.setWin (.inode ino) (krInitWindow reservation) }
  else fs

/-- The allocating part of `kr_get_blocks`, under `truncate_mutex`. -/
def allocLocked (reservation : Bool) (fs : Fs) (iblock maxblocks : Nat) (offsets : List Nat)
    (blocksToBoundary : Int) (chain : List Indirect) : Exec (Fs × Mapped) :=
  let fs := initBlockAllocInfo env ino reservation fs
  let ind := lastEntry chain
  let goal := krFindGoal fs ino env.pid iblock ind
  let indirectBlks := offsets.length - chain.length
  let count := krBlksToAllocate (fs.mem ino) ind indirectBlks maxblocks blocksToBoundary
  (krAllocBranch ops env ino fuel fs goal indirectBlks count (offsets.drop chain.length)).bind
    fun (fs, result) =>
      match result with
      | .error e => .done (fs, ⟨.error e, 0, false, false⟩)
      | .ok (new, data, num) =>
        .done (krSpliceBranch env ino fs iblock ind new data num,
          ⟨.ok num, data, true, blocksToBoundary < num⟩)

/-- The chain that the locked part of `kr_get_blocks` works on: the one of the
first look-up if it still holds, or a second look-up. -/
def relook (m : Mem) (offsets : List Nat) (first : Branch) (err : Option Errno) : Branch :=
  if err = some .eagain || !verifyChain m first.chain then
    krGetBranch (fun _ => m) env.breadAgain offsets
  else first

/-- `kr_get_blocks`. The state `fs` is the one in which `truncate_mutex` is
taken; the look-up before that sees `env.look`. -/
def krGetBlocks (reservation : Bool) (fs : Fs) (iblock maxblocks : Nat) (create : Bool) :
    Exec (Fs × Mapped) :=
  if maxblocks = 0 then .bug
  else
    let (offsets, blocksToBoundary) := fs.path iblock
    if offsets = [] then .done (fs, ⟨.error .eio, 0, false, false⟩)
    else
      let first := krGetBranch env.look env.bread offsets
      let more := if first.complete then
        mapMore env first.chain maxblocks blocksToBoundary maxblocks offsets.length 1 else none
      match more with
      | some count => .done (fs, mappedAt first.chain count blocksToBoundary)
      | none =>
        let err := if first.complete then some .eagain else first.err
        if !create || err = some .eio then
          .done (fs, ⟨match err with
            | some e => .error e
            | none => .ok 0, 0, false, false⟩)
        else
          let branch := relook env (fs.mem ino) offsets first err
          if branch.complete then .done (fs, mappedAt branch.chain 1 blocksToBoundary)
          else allocLocked ops env ino fuel reservation fs iblock maxblocks offsets
            blocksToBoundary branch.chain

end GetBlocks

end KrFs
