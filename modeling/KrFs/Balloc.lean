import KrFs.Inode
import KrFs.ReservationRun

/-!
# Block allocation

The state of a mounted file system and the two entry points of `balloc.c`,
`kr_new_blocks` and `kr_free_blocks`, with everything below them. Callers run
one after another here. What comes from outside (quota, the percpu read of the
free counter, privileges, failing bitmap reads) is a field of `AllocEnv`. Log
messages and write-back are left out.
-/

namespace KrFs

open SearchTree Bitmap

/-- A mounted file system: descriptors and bitmaps of the groups, the percpu
counters, the inodes in core and the contents of indirect blocks. -/
structure Fs where
  sbi : SbInfo
  desc : Nat → GroupDesc
  blockBitmap : Nat → Nat → Bool
  inodeBitmap : Nat → Nat → Bool
  sFreeblocksCounter : Int
  sFreeinodesCounter : Int
  sDirsCounter : Int
  sDebts : Nat → Nat
  inode : Nat → Inode
  ptr : Nat → Nat → Nat
  rsv : Rsv

/-- `kr_get_group_desc` once every descriptor block is loaded. -/
def Fs.groupDesc (fs : Fs) (group : Nat) : Option GroupDesc :=
  if fs.sbi.sGroupsCount ≤ group then none else some (fs.desc group)

theorem Fs.groupDesc_some {fs : Fs} {group : Nat} {desc : GroupDesc}
    (h : fs.groupDesc group = some desc) : group < fs.sbi.sGroupsCount ∧ desc = fs.desc group := by
  unfold Fs.groupDesc at h
  split at h
  · cases h
  · rename_i hlt
    cases h
    exact ⟨Nat.not_le.mp hlt, rfl⟩

/-- Sectors of 512 bytes in a block. -/
def Fs.sectorsPerBlock (fs : Fs) : Nat := fs.sbi.sBlocksize >>> 9

/-- `inode_add_bytes` in sectors. -/
def Inode.addSectors (inode : Inode) (n : Int) : Inode :=
  { inode with iBlocks := inode.iBlocks + n }

/-- The effect of a quota charge of `blocks` blocks (negative: a refund) on the
inode. -/
def Fs.chargeBlocks (fs : Fs) (ino : Nat) (blocks : Int) : Fs :=
  { fs with
    inode := Function.update fs.inode ino
      ((fs.inode ino).addSectors (blocks * fs.sectorsPerBlock)) }

/-- `in_range`. A range of length zero that starts at block zero would wrap; the
mount refuses the descriptors that could produce one. -/
def inRange (b first len : Nat) : Bool := first ≤ b && b < first + len

/-- Store an integer in a `__le16`. -/
def cpuToLe16 (n : Int) : UInt16 := UInt16.ofNat (n % 2 ^ 16).toNat

/-- `group_adjust_blocks`. -/
def groupAdjustBlocks (desc : GroupDesc) (count : Int) : GroupDesc :=
  if count = 0 then desc
  else { desc with bgFreeBlocksCount := cpuToLe16 (desc.bgFreeBlocksCount.toNat + count) }

/-- Some block of `[block, block + count)` is a bitmap of the group, or an end of
the range lies in its inode table. -/
def inSystemZone (sbi : SbInfo) (desc : GroupDesc) (block count : Nat) : Bool :=
  inRange desc.bgBlockBitmap.toNat block count ||
    inRange desc.bgInodeBitmap.toNat block count ||
    inRange block desc.bgInodeTable.toNat sbi.sItbPerGroup ||
    inRange (block + count - 1) desc.bgInodeTable.toNat sbi.sItbPerGroup

/-! ## Freeing -/

/-- The loop of `kr_free_blocks` over the bits of one group, with the number of
bits it really cleared. -/
def clearBits (bm : Nat → Bool) (bit : Nat) : Nat → (Nat → Bool) × Nat
  | 0 => (bm, 0)
  | n + 1 =>
    let (bm, freed) := clearBits bm bit n
    if bm (bit + n) then (Function.update bm (bit + n) false, freed + 1) else (bm, freed)

/-- The body of `do_more`, for the part of the range that lies in one group. -/
def freeInGroup (fs : Fs) (group bit count : Nat) : Fs × Nat :=
  let (bm, groupFreed) := clearBits (fs.blockBitmap group) bit count
  ({ fs with
      blockBitmap := Function.update fs.blockBitmap group bm
      desc := Function.update fs.desc group (groupAdjustBlocks (fs.desc group) groupFreed) },
    groupFreed)

/-- The loop `do_more` of `kr_free_blocks`. Every round but the last frees at
least one block, so `count + 1` rounds are enough. -/
def freeBlocksLoop (readBitmap : Nat → Bool) : Nat → Fs → Nat → Nat → Nat → Fs × Nat
  | 0, fs, _, _, freed => (fs, freed)
  | fuel + 1, fs, block, count, freed =>
    let bpg := fs.sbi.sBlocksPerGroup
    let group := (block - fs.sbi.sEs.sFirstDataBlock.toNat) / bpg
    let bit := (block - fs.sbi.sEs.sFirstDataBlock.toNat) % bpg
    let overflow := if bpg < bit + count then bit + count - bpg else 0
    let count := count - overflow
    if !readBitmap group then (fs, freed)
    else match fs.groupDesc group with
      | none => (fs, freed)
      | some desc =>
        if inSystemZone fs.sbi desc block count then (fs, freed)
        else
          let (fs, groupFreed) := freeInGroup fs group bit count
          if overflow ≠ 0 then
            freeBlocksLoop readBitmap fuel fs (block + count) overflow (freed + groupFreed)
          else (fs, freed + groupFreed)

/-- The end of `kr_free_blocks`: the global counter and the quota refund. -/
def Fs.settleFreed (fs : Fs) (ino freed : Nat) : Fs :=
  { fs with sFreeblocksCounter := fs.sFreeblocksCounter + freed }.chargeBlocks ino (-freed)

def krFreeBlocks (readBitmap : Nat → Bool) (fs : Fs) (ino block count : Nat) : Fs :=
  if block < fs.sbi.sEs.sFirstDataBlock.toNat || (block + count) % 2 ^ 64 < block ||
      fs.sbi.sEs.sBlocksCount.toNat < block + count then fs
  else
    let (fs, freed) := freeBlocksLoop readBitmap (count + 1) fs block count 0
    if freed ≠ 0 then fs.settleFreed ino freed else fs

/-! ## Finding a free block in a group -/

/-- Byte `i` of the bitmap is zero. -/
def byteClear (bm : Nat → Bool) (i : Nat) : Bool :=
  (List.range 8).all fun j => !bm (8 * i + j)

/-- `memscan` for a zero byte among the next `n` bytes from byte `i`. -/
def memscanZero (bm : Nat → Bool) : Nat → Nat → Nat
  | 0, i => i
  | n + 1, i => if byteClear bm i then i else memscanZero bm n (i + 1)

/-- `find_next_usable_block`; `none` is its return of -1. -/
def findNextUsableBlock (start : Int) (bm : Nat → Bool) (maxblocks : Nat) : Option Nat :=
  let here := start.toNat
  let endGoal := min ((here + 63) / 64 * 64) maxblocks
  let near := nextZero bm endGoal here
  if 0 < start && near < endGoal then some near
  else
    let next := memscanZero bm ((maxblocks + 7) / 8 - here / 8) (here / 8) * 8
    if next < maxblocks && here ≤ next then some next
    else bitmapSearchNextUsableBlock here bm maxblocks

/-- The short walk back over clear bits in `kr_try_to_allocate`. -/
def backUp (bm : Nat → Bool) (start : Nat) : Nat → Nat → Nat
  | 0, grpGoal => grpGoal
  | n + 1, grpGoal =>
    if start < grpGoal && !bm (grpGoal - 1) then backUp bm start n (grpGoal - 1) else grpGoal

/-- The range and the goal with which the search of `kr_try_to_allocate` starts. -/
def allocRange (sbi : SbInfo) (group : Nat) (grpGoal : Int) :
    Option ReserveWindowNode → Nat × Nat × Option Nat
  | some w =>
    let groupFirstBlock := sbi.groupFirstBlockNo group
    let start := w.rsvStart - groupFirstBlock
    let stop := min (w.rsvEnd - groupFirstBlock + 1) sbi.sBlocksPerGroup
    if start ≤ grpGoal && grpGoal < stop then (grpGoal.toNat, stop, some grpGoal.toNat)
    else (start, stop, none)
  | none =>
    (grpGoal.toNat, sbi.sBlocksPerGroup, if 0 ≤ grpGoal then some grpGoal.toNat else none)

/-- The test-and-set loop at `repeat`: the first bit from the goal on that was
clear. -/
def claimFirst (bm : Nat → Bool) (stop : Nat) : Nat → Nat → Option Nat
  | 0, _ => none
  | n + 1, grpGoal =>
    if bm grpGoal then
      if stop ≤ grpGoal + 1 then none else claimFirst bm stop n (grpGoal + 1)
    else some grpGoal

/-- The loop that claims further bits up to the requested count. -/
def claimRun (bm : Nat → Bool) (count stop : Nat) : Nat → Nat → Nat → Nat
  | 0, _, num => num
  | n + 1, grpGoal, num =>
    if num < count && grpGoal < stop && !bm grpGoal then
      claimRun bm count stop n (grpGoal + 1) (num + 1)
    else num

/-- The bits `[bit, bit + n)` set. -/
def setBits (bm : Nat → Bool) (bit n : Nat) : Nat → Bool :=
  fun i => bm i || (decide (bit ≤ i) && decide (i < bit + n))

/-- `kr_try_to_allocate`: the bitmap, the first allocated bit or `none` for -1,
and the value stored in `*count`. -/
def krTryToAllocate (sbi : SbInfo) (group : Nat) (bm : Nat → Bool) (grpGoal : Int) (count : Nat)
    (myRsv : Option ReserveWindowNode) : Exec ((Nat → Bool) × Option Nat × Nat) :=
  let (start, stop, goal) := allocRange sbi group grpGoal myRsv
  if sbi.sBlocksPerGroup < start then .bug
  else
    let goal := match goal with
      | some goal => some goal
      | none => (findNextUsableBlock start bm stop).map fun goal =>
          if myRsv.isNone then backUp bm start 7 goal else goal
    match goal.bind fun goal => claimFirst bm stop (stop - goal + 1) goal with
    | none => .done (bm, none, 0)
    | some first =>
      let num := claimRun bm count stop (stop - first) (first + 1) 1
      .done (setBits bm first num, some first, num)

/-- `kr_try_to_allocate_with_rsv` with a window: the program points of the
inode run one after another on the bitmap of the group. -/
def withRsvRun (ops : Rebalance Window) (sbi : SbInfo) (me : Window) (bm : Nat → Bool) :
    Nat → Rsv → RsvPhase → Exec (Rsv × (Nat → Bool) × Option (Nat × Nat))
  | 0, _, _ => .running
  | fuel + 1, r, .allocate req =>
    match allocateInWindow sbi r me req none with
    | (_, .bug) => .bug
    | _ =>
      (krTryToAllocate sbi req.group bm req.grpGoal req.count (some (r.win me))).bind
        fun (bm', found, num) =>
          match found with
          | some first => .done ((allocateInWindow sbi r me req (some num)).1, bm',
              some (first, num))
          | none => withRsvRun ops sbi me bm fuel r (.loop req true)
  | _, r, .idle => .done (r, bm, none)
  | _, _, .bug => .bug
  | fuel + 1, r, phase =>
    let (r, phase) := threadStep ops sbi r me ⟨bm, true, none⟩ phase
    withRsvRun ops sbi me bm fuel r phase

/-! ## Allocation -/

/-- What one call of `kr_new_blocks` meets outside the allocator. -/
structure AllocEnv where
  quota : Option Errno
  freeBlocksRead : Nat
  privileged : Bool
  readBitmap : Nat → Bool

def krHasFreeBlocks (sbi : SbInfo) (env : AllocEnv) : Bool :=
  !(env.freeBlocksRead < sbi.sEs.sRBlocksCount.toNat + 1 && !env.privileged)

/-- The goal as `kr_new_blocks` corrects it. -/
def SbInfo.goalBlock (sbi : SbInfo) (goal : Nat) : Nat :=
  if goal < sbi.sEs.sFirstDataBlock.toNat || sbi.sEs.sBlocksCount.toNat ≤ goal then
    sbi.sEs.sFirstDataBlock.toNat else goal

/-- Its group. -/
def SbInfo.goalGroup (sbi : SbInfo) (goal : Nat) : Nat :=
  (sbi.goalBlock goal - sbi.sEs.sFirstDataBlock.toNat) / sbi.sBlocksPerGroup

/-- Its bit in the bitmap of the group, `grp_target_blk`. -/
def SbInfo.goalBit (sbi : SbInfo) (goal : Nat) : Nat :=
  (sbi.goalBlock goal - sbi.sEs.sFirstDataBlock.toNat) % sbi.sBlocksPerGroup

/-- `windowsz` of `kr_new_blocks`. -/
def Fs.windowSize (fs : Fs) (ino : Nat) : Nat :=
  match (fs.inode ino).iBlockAllocInfo with
  | some _ => (fs.rsv.win (.inode ino)).rsvGoalSize % 2 ^ 16
  | none => 0

theorem Fs.goalSize_pos {fs : Fs} {ino : Nat} (h : 0 < fs.windowSize ino) :
    1 ≤ (fs.rsv.win (.inode ino)).rsvGoalSize := by
  unfold Fs.windowSize at h
  split at h
  · by_contra hzero
    rw [show (fs.rsv.win (.inode ino)).rsvGoalSize = 0 by omega] at h
    simp at h
  · omega

section NewBlocks

variable (ops : Rebalance Window) (env : AllocEnv) (ino fuel : Nat)

/-- One call of `kr_try_to_allocate_with_rsv`: the found block and the value of
`num` afterwards. -/
def tryGroup (fs : Fs) (useRsv : Bool) (group : Nat) (grpGoal : Int) (num : Nat) :
    Exec (Fs × Option Nat × Nat) :=
  let bm := fs.blockBitmap group
  if useRsv then
    (withRsvRun ops fs.sbi (.inode ino) bm fuel fs.rsv (.loop ⟨group, grpGoal, num⟩ false)).bind
      fun (rsv, bm', found) =>
        let fs := { fs with rsv := rsv, blockBitmap := Function.update fs.blockBitmap group bm' }
        match found with
        | some (first, num) => .done (fs, some first, num)
        | none => .done (fs, none, num)
  else
    (krTryToAllocate fs.sbi group bm grpGoal num none).bind fun (bm', found, num) =>
      .done ({ fs with blockBitmap := Function.update fs.blockBitmap group bm' }, found, num)

/-- How the search over the groups ends. -/
inductive GroupSearch where
  | found (group first num : Nat)
  | missed (num : Nat)
  | ioError

/-- The `for` loop of `kr_new_blocks` over the other groups. -/
def searchGroups (useRsv : Bool) (windowsz : Nat) : Nat → Fs → Nat → Nat → Exec (Fs × GroupSearch)
  | 0, fs, _, num => .done (fs, .missed num)
  | n + 1, fs, groupNo, num =>
    let groupNo := if fs.sbi.sGroupsCount ≤ groupNo + 1 then 0 else groupNo + 1
    match fs.groupDesc groupNo with
    | none => .done (fs, .ioError)
    | some gdp =>
      let freeBlocks := gdp.bgFreeBlocksCount.toNat
      if freeBlocks = 0 then searchGroups useRsv windowsz n fs groupNo num
      else if useRsv && freeBlocks ≤ windowsz / 2 then searchGroups useRsv windowsz n fs groupNo num
      else if !env.readBitmap groupNo then .done (fs, .ioError)
      else
        (tryGroup ops ino fuel fs useRsv groupNo (-1) num).bind fun (fs, found, num) =>
          match found with
          | some first => .done (fs, .found groupNo first num)
          | none => searchGroups useRsv windowsz n fs groupNo num

/-- From `retry_alloc` to `allocated`: the goal group first, then all groups. -/
def searchFrom (fs : Fs) (goal groupNo : Nat) (useRsv : Bool) (windowsz num : Nat) :
    Exec (Fs × GroupSearch) :=
  match fs.groupDesc groupNo with
  | none => .done (fs, .ioError)
  | some gdp =>
    if gdp.bgFreeBlocksCount.toNat = 0 then
      searchGroups ops env ino fuel useRsv windowsz fs.sbi.sGroupsCount fs groupNo num
    else if !env.readBitmap groupNo then .done (fs, .ioError)
    else
      let grpTargetBlk :=
        (goal - fs.sbi.sEs.sFirstDataBlock.toNat) % fs.sbi.sBlocksPerGroup
      (tryGroup ops ino fuel fs useRsv groupNo grpTargetBlk num).bind fun (fs, found, num) =>
        match found with
        | some first => .done (fs, .found groupNo first num)
        | none =>
          searchGroups ops env ino fuel useRsv windowsz fs.sbi.sGroupsCount fs groupNo num

/-- The window is given up when the group cannot hold a new one. -/
def keepRsv (fs : Fs) (groupNo : Nat) (useRsv : Bool) (windowsz : Nat) : Bool :=
  let freeBlocks := (fs.desc groupNo).bgFreeBlocksCount.toNat
  useRsv && !(freeBlocks < windowsz && 0 < freeBlocks && rsvIsEmpty (fs.rsv.win (.inode ino)))

/-- The loop at `retry_alloc`; on success the group, the block and the count.
The error carries `performed_allocation`. -/
def retryAlloc (goal goalGroup : Nat) :
    Nat → Fs → Nat → Bool → Nat → Nat → Exec (Fs × Except (Errno × Bool) (Nat × Nat × Nat))
  | 0, _, _, _, _, _ => .running
  | rounds + 1, fs, groupNo, useRsv, windowsz, num =>
    let useRsv := keepRsv ino fs groupNo useRsv windowsz
    (searchFrom ops env ino fuel fs goal groupNo useRsv windowsz num).bind fun (fs, result) =>
      match result with
      | .ioError => .done (fs, .error (.eio, false))
      | .missed num =>
        if useRsv then retryAlloc goal goalGroup rounds fs goalGroup false 0 num
        else .done (fs, .error (.enospc, false))
      | .found group first num =>
        let retBlock := first + fs.sbi.groupFirstBlockNo group
        if inSystemZone fs.sbi (fs.desc group) retBlock num then
          retryAlloc goal goalGroup rounds fs group useRsv windowsz num
        else if fs.sbi.sEs.sBlocksCount.toNat ≤ retBlock + num - 1 then
          .done (fs, .error (.enospc, true))
        else .done (fs, .ok (group, retBlock, num))

/-- `kr_new_blocks`: on success the first block and the number of blocks. -/
def krNewBlocks (fs : Fs) (goal count : Nat) : Exec (Fs × Except Errno (Nat × Nat)) :=
  match env.quota with
  | some e => .done (fs, .error e)
  | none =>
    let fs := fs.chargeBlocks ino count
    let windowsz := fs.windowSize ino
    if !krHasFreeBlocks fs.sbi env then
      .done (fs.chargeBlocks ino (-count), .error .enospc)
    else
      let groupNo := fs.sbi.goalGroup goal
      let goal := fs.sbi.goalBlock goal
      (retryAlloc ops env ino fuel goal groupNo fuel fs groupNo (0 < windowsz) windowsz count).bind
        fun (fs, result) =>
          match result with
          | .error (e, performed) =>
            .done (if performed then fs else fs.chargeBlocks ino (-count), .error e)
          | .ok (group, retBlock, num) =>
            let fs := { fs with
              desc := Function.update fs.desc group (groupAdjustBlocks (fs.desc group) (-num))
              sFreeblocksCounter := fs.sFreeblocksCounter - num }
            let fs := if num < count then fs.chargeBlocks ino (-(count - num : Nat)) else fs
            .done (fs, .ok (retBlock, num))

end NewBlocks

end KrFs
