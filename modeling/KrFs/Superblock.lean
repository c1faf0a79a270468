import KrFs.Kernel

/-!
# Superblock geometry

The part of `super.c` that turns a superblock image and a descriptor table into
the in-core geometry: `kr_fill_super` with its checks, `descriptor_loc` and
`kr_check_descriptors`, and the descriptor look-up `kr_get_group_desc` of
`balloc.c`. Option parsing, the block device and the root inode enter through
`MountEnv`; no relation between on-disk fields is assumed beyond the checks.
-/

namespace KrFs

def BLOCK_SIZE : Nat := 1024
def EXT2_SUPER_MAGIC : UInt16 := 0xEF53
def KR_GOOD_OLD_REV : UInt32 := 0
def KR_GOOD_OLD_INODE_SIZE : Nat := 128
def KR_GOOD_OLD_FIRST_INO : Nat := 11
def KR_MIN_FRAG_SIZE : Nat := 1024
def KR_ROOT_INO : Nat := 2
def KR_FEATURE_INCOMPAT_FILETYPE : UInt32 := 0x0002
def KR_FEATURE_INCOMPAT_META_BG : UInt32 := 0x0010
def KR_FEATURE_RO_COMPAT_SPARSE_SUPER : UInt32 := 0x0001
def KR_FEATURE_RO_COMPAT_LARGE_FILE : UInt32 := 0x0002
def KR_FEATURE_RO_COMPAT_BTREE_DIR : UInt32 := 0x0004
def KR_FEATURE_INCOMPAT_SUPP : UInt32 :=
  KR_FEATURE_INCOMPAT_FILETYPE ||| KR_FEATURE_INCOMPAT_META_BG
def KR_FEATURE_RO_COMPAT_SUPP : UInt32 :=
  KR_FEATURE_RO_COMPAT_SPARSE_SUPER ||| KR_FEATURE_RO_COMPAT_LARGE_FILE |||
    KR_FEATURE_RO_COMPAT_BTREE_DIR

/-- The fields of `struct kr_super_block` that the modelled functions read. -/
structure SuperBlock where
  sInodesCount : UInt32
  sBlocksCount : UInt32
  sRBlocksCount : UInt32
  sFirstDataBlock : UInt32
  sLogBlockSize : UInt32
  sLogFragSize : UInt32
  sBlocksPerGroup : UInt32
  sFragsPerGroup : UInt32
  sInodesPerGroup : UInt32
  sMagic : UInt16
  sRevLevel : UInt32
  sFirstIno : UInt32
  sInodeSize : UInt16
  sFeatureIncompat : UInt32
  sFeatureRoCompat : UInt32
  sFirstMetaBg : UInt32

/-- `struct kr_group_desc` as it lies in a descriptor block. -/
structure GroupDesc where
  bgBlockBitmap : UInt32
  bgInodeBitmap : UInt32
  bgInodeTable : UInt32
  bgFreeBlocksCount : UInt16
  bgFreeInodesCount : UInt16
  bgUsedDirsCount : UInt16
deriving DecidableEq

/-- The geometry fields of `struct kr_sb_info`, with `sb->s_blocksize`. -/
structure SbInfo where
  sBlocksize : Nat
  sBlocksizeBits : Nat
  sEs : SuperBlock
  sSbBlock : Nat
  sFragSize : Nat
  sInodesPerBlock : Nat
  sBlocksPerGroup : Nat
  sFragsPerGroup : Nat
  sInodesPerGroup : Nat
  sItbPerGroup : Nat
  sGdbCount : Nat
  sDescPerBlock : Nat
  sGroupsCount : Nat
  sInodeSize : Nat
  sFirstIno : Nat
  sAddrPerBlockBits : Nat
  sDescPerBlockBits : Nat
  sGroupDesc : Nat → Option (Nat → GroupDesc)

/-- What the mount takes from outside the geometry code. The two facts about
block sizes are what `sb_min_blocksize` and `sb_set_blocksize` guarantee. -/
structure MountEnv where
  pageSize : Nat
  minBlocksize : Nat
  setBlocksize : Nat → Bool
  sbBlock : Nat
  rdonly : Bool
  parseOptions : Bool
  allocOk : Bool
  bread : Nat → Option (Nat → GroupDesc)
  rootInode : SbInfo → Except Errno Unit
  setBlocksize_spec : ∀ n, setBlocksize n = true → n.isPowerOfTwo ∧ 512 ≤ n ∧ n ≤ pageSize
  minBlocksize_spec : minBlocksize.isPowerOfTwo ∧ BLOCK_SIZE ≤ minBlocksize ∧
    minBlocksize ≤ pageSize

/-- `kr_group_first_block_no` of `kr.h`. -/
def SbInfo.groupFirstBlockNo (sbi : SbInfo) (group : Nat) : Nat :=
  group * sbi.sBlocksPerGroup + sbi.sEs.sFirstDataBlock.toNat

/-- The loop of `test_root`; 32 rounds pass every 32-bit group number. -/
def testRootFrom : Nat → Nat → Nat → Nat → Bool
  | 0, a, _, num => num == a
  | fuel + 1, a, b, num => if a > num then testRootFrom fuel a b (num * b) else num == a

def testRoot (a b : Nat) : Bool := testRootFrom 32 a b b

def krGroupSparse (group : Nat) : Bool :=
  group ≤ 1 || testRoot group 3 || testRoot group 5 || testRoot group 7

def krBgHasSuper (es : SuperBlock) (group : Nat) : Bool :=
  !(es.sFeatureRoCompat &&& KR_FEATURE_RO_COMPAT_SPARSE_SUPER != 0 && !krGroupSparse group)

def krBgNumGdb (sbi : SbInfo) (group : Nat) : Nat :=
  if krBgHasSuper sbi.sEs group then sbi.sGdbCount else 0

def descriptorLoc (sbi : SbInfo) (logicSbBlock nr : Nat) : Nat :=
  if sbi.sEs.sFeatureIncompat &&& KR_FEATURE_INCOMPAT_META_BG == 0 ||
      nr < sbi.sEs.sFirstMetaBg.toNat then
    logicSbBlock + nr + 1
  else
    let bg := sbi.sDescPerBlock * nr
    sbi.groupFirstBlockNo bg + if krBgHasSuper sbi.sEs bg then 1 else 0

/-- `kr_get_group_desc`; the group number is an `unsigned int`. -/
def krGetGroupDesc (sbi : SbInfo) (blockGroup : Nat) : Option GroupDesc :=
  if sbi.sGroupsCount ≤ blockGroup then none
  else match sbi.sGroupDesc (blockGroup >>> sbi.sDescPerBlockBits) with
    | none => none
    | some desc => some (desc (blockGroup &&& (sbi.sDescPerBlock - 1)))

/-- One round of `kr_check_descriptors`. -/
def krCheckDescriptor (sbi : SbInfo) (i : Nat) : Bool :=
  match krGetGroupDesc sbi i with
  | none => false
  | some gdp =>
    let firstBlock := sbi.groupFirstBlockNo i
    let lastBlock := if i = sbi.sGroupsCount - 1 then sub32 sbi.sEs.sBlocksCount.toNat 1
      else firstBlock + (sbi.sBlocksPerGroup - 1)
    let inGroup (b : Nat) := firstBlock ≤ b && b ≤ lastBlock
    inGroup gdp.bgBlockBitmap.toNat && inGroup gdp.bgInodeBitmap.toNat &&
      firstBlock ≤ gdp.bgInodeTable.toNat &&
      sub64 (gdp.bgInodeTable.toNat + sbi.sItbPerGroup) 1 ≤ lastBlock

def krCheckDescriptors (sbi : SbInfo) : Bool :=
  (List.range sbi.sGroupsCount).all (krCheckDescriptor sbi)

/-- The in-core superblock as `kr_fill_super` computes it for a block size. -/
def sbInfoOf (k : MountEnv) (es : SuperBlock) (blocksize : Nat) : SbInfo :=
  let rev0 := es.sRevLevel == KR_GOOD_OLD_REV
  let inodeSize := if rev0 then KR_GOOD_OLD_INODE_SIZE else es.sInodeSize.toNat
  let inodesPerBlock := blocksize / inodeSize
  let descPerBlock := blocksize / 32
  let groupsCount :=
    sub32 (sub32 es.sBlocksCount.toNat es.sFirstDataBlock.toNat) 1 /
      es.sBlocksPerGroup.toNat + 1
  let sbi : SbInfo := {
    sBlocksize := blocksize
    sBlocksizeBits := Nat.log2 blocksize
    sEs := es
    sSbBlock := k.sbBlock
    sFragSize := intToULong (shl32 KR_MIN_FRAG_SIZE es.sLogFragSize.toNat)
    sInodesPerBlock := inodesPerBlock
    sBlocksPerGroup := es.sBlocksPerGroup.toNat
    sFragsPerGroup := es.sFragsPerGroup.toNat
    sInodesPerGroup := es.sInodesPerGroup.toNat
    sItbPerGroup := es.sInodesPerGroup.toNat / inodesPerBlock
    sGdbCount := (groupsCount + descPerBlock - 1) / descPerBlock
    sDescPerBlock := descPerBlock
    sGroupsCount := groupsCount
    sInodeSize := inodeSize
    sFirstIno := if rev0 then KR_GOOD_OLD_FIRST_INO else intToULong es.sFirstIno.toNat
    sAddrPerBlockBits := Nat.log2 (blocksize / 4)
    sDescPerBlockBits := Nat.log2 descPerBlock
    sGroupDesc := fun _ => none }
  { sbi with sGroupDesc := fun i =>
      if i < sbi.sGdbCount then
        k.bread (descriptorLoc sbi (k.sbBlock * BLOCK_SIZE / blocksize) i)
      else none }

/-- The geometry checks of `kr_fill_super` before the descriptors are read. -/
def geometryOk (sbi : SbInfo) (es : SuperBlock) : Bool :=
  (es.sRevLevel == KR_GOOD_OLD_REV ||
    (KR_GOOD_OLD_INODE_SIZE ≤ sbi.sInodeSize && decide sbi.sInodeSize.isPowerOfTwo &&
      sbi.sInodeSize ≤ sbi.sBlocksize)) &&
  sbi.sFragSize != 0 && sbi.sInodeSize != 0 &&
  sbi.sInodesPerBlock != 0 && sbi.sInodesPerGroup != 0 &&
  sbi.sBlocksize == sbi.sFragSize &&
  sbi.sBlocksPerGroup ≤ sbi.sBlocksize * 8 &&
  sbi.sFragsPerGroup ≤ sbi.sBlocksize * 8 &&
  sbi.sInodesPerGroup ≤ sbi.sBlocksize * 8 &&
  sbi.sBlocksPerGroup != 0

/-- `kr_fill_super` up to the creation of the root dentry. -/
def krFillSuper (k : MountEnv) (es : SuperBlock) : Except Errno SbInfo :=
  let blocksize := shl32 BLOCK_SIZE es.sLogBlockSize.toNat
  let sbi := sbInfoOf k es blocksize
  if es.sMagic != EXT2_SUPER_MAGIC then .error .einval
  else if !k.parseOptions then .error .einval
  else if es.sFeatureIncompat &&& ~~~KR_FEATURE_INCOMPAT_SUPP != 0 then .error .einval
  else if !k.rdonly && es.sFeatureRoCompat &&& ~~~KR_FEATURE_RO_COMPAT_SUPP != 0 then
    .error .einval
  else if k.minBlocksize != blocksize && !k.setBlocksize blocksize then .error .einval
  else if !geometryOk sbi es then .error .einval
  else if !k.allocOk then .error .einval
  else if !(List.range sbi.sGdbCount).all (fun i => (sbi.sGroupDesc i).isSome) then
    .error .einval
  else if !krCheckDescriptors sbi then .error .einval
  else match k.rootInode sbi with
    | .error e => .error e
    | .ok () => .ok sbi

end KrFs
