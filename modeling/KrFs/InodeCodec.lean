import KrFs.Inode
import KrFs.InodeTable

/-!
# Writing an inode and reading it back

`__kr_write_inode` and `kr_iget` of `inode.c` over the inode table of a mounted
file system. The two device encodings of the kernel are a parameter; only that
each decoder inverts its encoder and that both read zero alike is used. The raw
inode keeps the fields of `struct kr_inode` that either function touches.
-/

namespace KrFs

structure RawInode where
  iMode : UInt16
  iUidLow : UInt16
  iSize : UInt32
  iAtime : UInt32
  iCtime : UInt32
  iMtime : UInt32
  iDtime : UInt32
  iGidLow : UInt16
  iLinksCount : UInt16
  iBlocks : UInt32
  iFlags : UInt32
  iBlock : Nat → Nat
  iGeneration : UInt32
  iFileAcl : UInt32
  /-- `i_size_high` for regular files. -/
  iDirAcl : UInt32
  iFaddr : UInt32
  iFrag : UInt8
  iFsize : UInt8
  iUidHigh : UInt16
  iGidHigh : UInt16

/-- The slot after `memset(raw_inode, 0, ...)`. -/
def RawInode.zero : RawInode :=
  ⟨0, 0, 0, 0, 0, 0, 0, 0, 0, 0, 0, fun _ => 0, 0, 0, 0, 0, 0, 0, 0, 0⟩

/-- The device number encodings of the kernel. -/
structure DevCodec where
  oldValidDev : UInt32 → Bool
  oldEncodeDev : UInt32 → UInt32
  newEncodeDev : UInt32 → UInt32
  oldDecodeDev : UInt32 → UInt32
  newDecodeDev : UInt32 → UInt32

structure DevCodec.Inverse (c : DevCodec) : Prop where
  old : ∀ dev, c.oldValidDev dev = true → c.oldDecodeDev (c.oldEncodeDev dev) = dev
  new : ∀ dev, c.newDecodeDev (c.newEncodeDev dev) = dev
  zero : c.oldDecodeDev 0 = c.newDecodeDev 0

/-- A mounted file system as the two functions see it. -/
structure Mount where
  sbi : SbInfo
  noUid32 : Bool
  dax : Bool
  dev : DevCodec
  bread : Nat → Bool

/-- `kr_data_block_valid` of `balloc.c`. -/
def krDataBlockValid (sbi : SbInfo) (startBlk count : Nat) : Bool :=
  !(startBlk ≤ sbi.sEs.sFirstDataBlock.toNat ||
      (startBlk + count) % 2 ^ 64 < startBlk ||
      sbi.sEs.sBlocksCount.toNat < startBlk) &&
    !(startBlk ≤ sbi.sSbBlock && sbi.sSbBlock ≤ startBlk + count)

def krInodeIsFastSymlink (blocksize : Nat) (inode : Inode) : Bool :=
  let eaBlocks : Int := if inode.iFileAcl ≠ 0 then (blocksize >>> 9 : Nat) else 0
  S_ISLNK inode.iMode && inode.iBlocks - eaBlocks == 0

/-- Byte `k` of the little-endian words of `i_data`. -/
def dataByte (data : Nat → Nat) (k : Nat) : Nat := data (k / 4) / 256 ^ (k % 4) % 256

/-- `nd_terminate_link`: byte `min(len, maxlen)` becomes zero. -/
def ndTerminateLink (data : Nat → Nat) (len maxlen : Nat) : Nat → Nat :=
  let k := min len maxlen
  fun n => if n = k / 4 then data n - dataByte data k * 256 ^ (k % 4) else data n

/-- `fs_high2lowuid` with the overflow id 65534. -/
def fsHigh2LowId (id : UInt32) : UInt16 :=
  if id.toNat < 2 ^ 16 then UInt16.ofNat id.toNat else 65534

/-- A `time_t` stored in a `__le32`. -/
def timeToDisk (t : Int) : UInt32 := UInt32.ofNat (t % 2 ^ 32).toNat

/-- `(signed)le32_to_cpu(...)`. -/
def timeFromDisk (t : UInt32) : Int :=
  if t.toNat < 2 ^ 31 then t.toNat else (t.toNat : Int) - 2 ^ 32

def idFromDisk (noUid32 : Bool) (low high : UInt16) : UInt32 :=
  if noUid32 then UInt32.ofNat low.toNat
  else UInt32.ofNat (low.toNat ||| high.toNat <<< 16)

/-- The switch of `kr_iget` on the file type. -/
def krIgetByType (m : Mount) (raw : RawInode) (inode : Inode) : Inode :=
  if S_ISREG inode.iMode || S_ISDIR inode.iMode then inode
  else if S_ISLNK inode.iMode then
    if krInodeIsFastSymlink m.sbi.sBlocksize inode then
      { inode with iData := ndTerminateLink inode.iData inode.iSize 59 }
    else inode
  else
    let rdev := if raw.iBlock 0 ≠ 0 then m.dev.oldDecodeDev (UInt32.ofNat (raw.iBlock 0))
      else m.dev.newDecodeDev (UInt32.ofNat (raw.iBlock 1))
    if S_ISCHR inode.iMode || S_ISBLK inode.iMode then { inode with iRdev := rdev } else inode

/-- The fields `kr_iget` copies from the raw inode. -/
def inodeFields (m : Mount) (ino : Nat) (raw : RawInode) : Inode :=
  { Inode.blank with
    iMode := raw.iMode
    iUid := idFromDisk m.noUid32 raw.iUidLow raw.iUidHigh
    iGid := idFromDisk m.noUid32 raw.iGidLow raw.iGidHigh
    iNlink := raw.iLinksCount.toNat
    iSize := if S_ISREG raw.iMode then raw.iSize.toNat ||| raw.iDirAcl.toNat <<< 32
      else raw.iSize.toNat
    iAtime := timeFromDisk raw.iAtime
    iCtime := timeFromDisk raw.iCtime
    iMtime := timeFromDisk raw.iMtime
    iBlocks := raw.iBlocks.toNat
    iFlags := raw.iFlags
    iFaddr := raw.iFaddr
    iFragNo := raw.iFrag
    iFragSize := raw.iFsize
    iFileAcl := raw.iFileAcl
    iDirAcl := if S_ISREG raw.iMode then 0 else raw.iDirAcl
    iGeneration := raw.iGeneration
    iBlockGroup := inodeGroup m.sbi ino
    iData := raw.iBlock }

/-- `kr_iget` after the raw inode has been found. -/
def inodeOfRaw (m : Mount) (ino : Nat) (raw : RawInode) : Except Errno Inode :=
  if raw.iLinksCount = 0 && (raw.iMode = 0 || raw.iDtime ≠ 0) then .error .estale
  else if raw.iFileAcl ≠ 0 && !krDataBlockValid m.sbi raw.iFileAcl.toNat 1 then
    .error .euclean
  else .ok (krSetInodeFlags m.dax (krIgetByType m raw (inodeFields m ino raw)))

/-- `kr_iget` of an inode that is not in the cache. -/
def krIget (m : Mount) (table : Nat × Nat → RawInode) (ino : Nat) : Except Errno Inode :=
  match krGetInode m.sbi m.bread ino with
  | .error e => .error e
  | .ok slot => inodeOfRaw m ino (table slot)

/-- The fields `__kr_write_inode` stores, over the previous slot contents. -/
def rawOfInode (m : Mount) (inode : Inode) (slot : RawInode) : RawInode :=
  let raw := if inode.iStateNew then RawInode.zero else slot
  let live := inode.iDtime == 0
  { raw with
    iMode := inode.iMode
    iUidLow := if m.noUid32 then fsHigh2LowId inode.iUid else UInt16.ofNat inode.iUid.toNat
    iGidLow := if m.noUid32 then fsHigh2LowId inode.iGid else UInt16.ofNat inode.iGid.toNat
    iUidHigh := if !m.noUid32 && live then UInt16.ofNat (inode.iUid.toNat / 2 ^ 16) else 0
    iGidHigh := if !m.noUid32 && live then UInt16.ofNat (inode.iGid.toNat / 2 ^ 16) else 0
    iLinksCount := UInt16.ofNat inode.iNlink
    iSize := UInt32.ofNat inode.iSize
    iAtime := timeToDisk inode.iAtime
    iCtime := timeToDisk inode.iCtime
    iMtime := timeToDisk inode.iMtime
    iBlocks := UInt32.ofNat (inode.iBlocks % 2 ^ 32).toNat
    iDtime := inode.iDtime
    iFlags := inode.iFlags
    iFaddr := inode.iFaddr
    iFrag := inode.iFragNo
    iFsize := inode.iFragSize
    iFileAcl := inode.iFileAcl
    iDirAcl := if S_ISREG inode.iMode then UInt32.ofNat (inode.iSize / 2 ^ 32)
      else inode.iDirAcl
    iGeneration := inode.iGeneration
    iBlock :=
      if S_ISCHR inode.iMode || S_ISBLK inode.iMode then
        if m.dev.oldValidDev inode.iRdev then fun n =>
          if n = 0 then (m.dev.oldEncodeDev inode.iRdev).toNat
          else if n = 1 then 0 else raw.iBlock n
        else fun n =>
          if n = 1 then (m.dev.newEncodeDev inode.iRdev).toNat
          else if n = 0 ∨ n = 2 then 0 else raw.iBlock n
      else fun n => if n < KR_N_BLOCKS then inode.iData n else raw.iBlock n }

/-- `kr_update_dynamic_rev` of `super.c`. -/
def krUpdateDynamicRev (es : SuperBlock) : SuperBlock :=
  if KR_GOOD_OLD_REV < es.sRevLevel then es
  else { es with sFirstIno := 11, sInodeSize := 128, sRevLevel := 1 }

/-- The superblock after the large-file branch of `__kr_write_inode`. -/
def largeFileSuper (inode : Inode) (es : SuperBlock) : SuperBlock :=
  if S_ISREG inode.iMode && 0x7fffffff < inode.signedSize &&
      (es.sFeatureRoCompat &&& KR_FEATURE_RO_COMPAT_LARGE_FILE == 0 ||
        es.sRevLevel == KR_GOOD_OLD_REV) then
    let es' := krUpdateDynamicRev es
    { es' with sFeatureRoCompat := es'.sFeatureRoCompat ||| KR_FEATURE_RO_COMPAT_LARGE_FILE }
  else es

/-- `__kr_write_inode`: the inode, the mount and the inode table afterwards, and
the error of a failed synchronous write. -/
def krWriteInode (m : Mount) (table : Nat × Nat → RawInode) (ino : Nat) (inode : Inode)
    (syncFails : Bool) :
    Except Errno (Inode × Mount × (Nat × Nat → RawInode) × Option Errno) :=
  match krGetInode m.sbi m.bread ino with
  | .error _ => .error .eio
  | .ok slot =>
    let synced := krGetInodeFlags inode
    .ok ({ synced with iStateNew := false },
      { m with sbi := { m.sbi with sEs := largeFileSuper inode m.sbi.sEs } },
      fun s => if s = slot then rawOfInode m synced (table slot) else table s,
      if syncFails then some .eio else none)

/-- The in-core inodes the on-disk format can hold. -/
structure Storable (m : Mount) (inode : Inode) : Prop where
  mode : inode.iMode ≠ 0
  nlink : 1 ≤ inode.iNlink ∧ inode.iNlink ≤ 65535
  dtime : inode.iDtime = 0
  size : inode.iSize < if S_ISREG inode.iMode then 2 ^ 63 else 2 ^ 32
  atime : -2 ^ 31 ≤ inode.iAtime ∧ inode.iAtime < 2 ^ 31
  ctime : -2 ^ 31 ≤ inode.iCtime ∧ inode.iCtime < 2 ^ 31
  mtime : -2 ^ 31 ≤ inode.iMtime ∧ inode.iMtime < 2 ^ 31
  blocks : 0 ≤ inode.iBlocks ∧ inode.iBlocks < 2 ^ 32
  acl : inode.iFileAcl = 0 ∨ krDataBlockValid m.sbi inode.iFileAcl.toNat 1 = true
  link : krInodeIsFastSymlink m.sbi.sBlocksize inode = true →
    inode.iSize ≤ 59 ∧ dataByte inode.iData inode.iSize = 0
  flags : FlagsAgree inode
  uid16 : m.noUid32 = true → inode.iUid.toNat < 65535 ∧ inode.iGid.toNat < 65535

/-- The inode read back agrees with the one written. -/
structure SameInode (before after : Inode) : Prop where
  mode : after.iMode = before.iMode
  uid : after.iUid = before.iUid
  gid : after.iGid = before.iGid
  nlink : after.iNlink = before.iNlink
  size : after.iSize = before.iSize
  times : after.iAtime = before.iAtime ∧ after.iCtime = before.iCtime ∧
    after.iMtime = before.iMtime
  blocks : after.iBlocks = before.iBlocks
  flags : after.iFlags = before.iFlags
  sFlags : after.sFlags &&& ~~~S_DAX = storedSFlags before.sFlags
  fragment : after.iFaddr = before.iFaddr ∧ after.iFragNo = before.iFragNo ∧
    after.iFragSize = before.iFragSize
  fileAcl : after.iFileAcl = before.iFileAcl
  dirAcl : S_ISREG before.iMode = false → after.iDirAcl = before.iDirAcl
  generation : after.iGeneration = before.iGeneration
  data : if S_ISCHR before.iMode || S_ISBLK before.iMode then after.iRdev = before.iRdev
    else ∀ n < KR_N_BLOCKS, after.iData n = before.iData n

theorem idFromDisk_split (id : UInt32) :
    idFromDisk false (UInt16.ofNat id.toNat) (UInt16.ofNat (id.toNat / 2 ^ 16)) = id := by
  have hid := id.toNat_lt
  have hlow : id.toNat % 2 ^ 16 < 2 ^ 16 := Nat.mod_lt _ (by decide)
  have hhigh : id.toNat / 2 ^ 16 % 2 ^ 16 = id.toNat / 2 ^ 16 :=
    Nat.mod_eq_of_lt (Nat.div_lt_of_lt_mul (by omega))
  apply UInt32.toNat.inj
  simp only [idFromDisk, Bool.false_eq_true, if_false, UInt16.toNat_ofNat', hhigh]
  rw [Nat.or_comm, ← Nat.shiftLeft_add_eq_or_of_lt hlow, Nat.shiftLeft_eq,
    UInt32.toNat_ofNat', Nat.div_add_mod', Nat.mod_eq_of_lt hid]

theorem idFromDisk_low {id : UInt32} (high : UInt16) (hid : id.toNat < 65535) :
    idFromDisk true (fsHigh2LowId id) high = id := by
  apply UInt32.toNat.inj
  have hlow : (UInt16.ofNat id.toNat).toNat = id.toNat := by
    rw [UInt16.toNat_ofNat', Nat.mod_eq_of_lt (by omega)]
  simp only [idFromDisk, fsHigh2LowId, if_true, if_pos (show id.toNat < 2 ^ 16 by omega), hlow]
  rw [UInt32.toNat_ofNat', Nat.mod_eq_of_lt (by omega)]

theorem timeFromDisk_toDisk {t : Int} (ht : -2 ^ 31 ≤ t ∧ t < 2 ^ 31) :
    timeFromDisk (timeToDisk t) = t := by
  have hword : (timeToDisk t).toNat = (t % 2 ^ 32).toNat := by
    rw [timeToDisk, UInt32.toNat_ofNat', Nat.mod_eq_of_lt (by omega)]
  rw [timeFromDisk, hword]
  split
  · omega
  · omega

theorem sizeFromDisk_split {size : Nat} (hsize : size < 2 ^ 63) :
    (UInt32.ofNat size).toNat ||| (UInt32.ofNat (size / 2 ^ 32)).toNat <<< 32 = size := by
  have hlow : size % 2 ^ 32 < 2 ^ 32 := Nat.mod_lt _ (by decide)
  have hhigh : size / 2 ^ 32 % 2 ^ 32 = size / 2 ^ 32 :=
    Nat.mod_eq_of_lt (Nat.div_lt_of_lt_mul (by omega))
  rw [UInt32.toNat_ofNat', UInt32.toNat_ofNat', hhigh, Nat.or_comm,
    ← Nat.shiftLeft_add_eq_or_of_lt hlow, Nat.shiftLeft_eq, Nat.div_add_mod']

/-- A link target that already ends in a zero byte is left as it is. -/
theorem ndTerminateLink_of_zero {data : Nat → Nat} {len maxlen : Nat}
    (hlen : len ≤ maxlen) (hzero : dataByte data len = 0) :
    ndTerminateLink data len maxlen = data := by
  funext n
  simp [ndTerminateLink, Nat.min_eq_left hlen, hzero]

theorem largeFileSuper_counts (inode : Inode) (es : SuperBlock) :
    (largeFileSuper inode es).sInodesCount = es.sInodesCount ∧
    (largeFileSuper inode es).sFirstDataBlock = es.sFirstDataBlock ∧
    (largeFileSuper inode es).sBlocksCount = es.sBlocksCount := by
  unfold largeFileSuper krUpdateDynamicRev
  split
  · dsimp only
    split <;> exact ⟨rfl, rfl, rfl⟩
  · exact ⟨rfl, rfl, rfl⟩

/-- The superblock update of a large file moves no inode slot. -/
theorem krGetInode_largeFileSuper (m : Mount) (inode : Inode) (ino : Nat) :
    krGetInode { m.sbi with sEs := largeFileSuper inode m.sbi.sEs } m.bread ino =
      krGetInode m.sbi m.bread ino := by
  obtain ⟨hcount, -, -⟩ := largeFileSuper_counts inode m.sbi.sEs
  simp only [krGetInode, inodeInRange, hcount]
  rfl

theorem krDataBlockValid_largeFileSuper (sbi : SbInfo) (inode : Inode) (blk : Nat) :
    krDataBlockValid { sbi with sEs := largeFileSuper inode sbi.sEs } blk 1 =
      krDataBlockValid sbi blk 1 := by
  obtain ⟨-, hfirst, hblocks⟩ := largeFileSuper_counts inode sbi.sEs
  simp only [krDataBlockValid, hfirst, hblocks]

/-- The device number read back, whichever encoding the writer chose: an old
encoding is told from a new one by a non-zero first word, and both decode zero
to the same device. -/
theorem rdev_of_rawOfInode (m : Mount) (inverse : m.dev.Inverse) (inode : Inode)
    (slot : RawInode) (hdev : (S_ISCHR inode.iMode || S_ISBLK inode.iMode) = true) :
    (if (rawOfInode m inode slot).iBlock 0 ≠ 0 then
        m.dev.oldDecodeDev (UInt32.ofNat ((rawOfInode m inode slot).iBlock 0))
      else m.dev.newDecodeDev (UInt32.ofNat ((rawOfInode m inode slot).iBlock 1))) =
      inode.iRdev := by
  by_cases hold : m.dev.oldValidDev inode.iRdev = true
  · have h0 : (rawOfInode m inode slot).iBlock 0 = (m.dev.oldEncodeDev inode.iRdev).toNat := by
      simp [rawOfInode, hdev, hold]
    have h1 : (rawOfInode m inode slot).iBlock 1 = 0 := by simp [rawOfInode, hdev, hold]
    rw [h0, h1, UInt32.ofNat_toNat]
    split
    · exact inverse.old _ hold
    · rename_i hzero
      have henc : m.dev.oldEncodeDev inode.iRdev = 0 :=
        UInt32.toNat.inj (by simpa using hzero)
      have hdec := inverse.old _ hold
      rw [henc, inverse.zero] at hdec
      exact hdec
  · have h0 : (rawOfInode m inode slot).iBlock 0 = 0 := by simp [rawOfInode, hdev, hold]
    have h1 : (rawOfInode m inode slot).iBlock 1 = (m.dev.newEncodeDev inode.iRdev).toNat := by
      simp [rawOfInode, hdev, hold]
    rw [h0, h1, UInt32.ofNat_toNat]
    simpa using inverse.new inode.iRdev

/-- The switch on the file type touches the data words and the device only. -/
theorem krIgetByType_eq (m : Mount) (raw : RawInode) (inode : Inode) :
    krIgetByType m raw inode =
      { inode with
        iData := (krIgetByType m raw inode).iData
        iRdev := (krIgetByType m raw inode).iRdev } := by
  unfold krIgetByType
  dsimp only
  split_ifs <;> rfl

theorem krIgetByType_iRdev (m : Mount) (raw : RawInode) (inode : Inode)
    (hdev : (S_ISCHR inode.iMode || S_ISBLK inode.iMode) = true) :
    (krIgetByType m raw inode).iRdev =
      if raw.iBlock 0 ≠ 0 then m.dev.oldDecodeDev (UInt32.ofNat (raw.iBlock 0))
      else m.dev.newDecodeDev (UInt32.ofNat (raw.iBlock 1)) := by
  have htype : S_ISREG inode.iMode = false ∧ S_ISDIR inode.iMode = false ∧
      S_ISLNK inode.iMode = false := by
    simp only [S_ISCHR, S_ISBLK, Bool.or_eq_true, beq_iff_eq] at hdev
    rcases hdev with h | h <;> simp only [S_ISREG, S_ISDIR, S_ISLNK, h] <;> decide
  simp only [krIgetByType, htype, hdev, Bool.or_false, Bool.false_eq_true, if_false, if_true]

theorem krIgetByType_iData (m : Mount) (raw : RawInode) (inode : Inode)
    (hlink : krInodeIsFastSymlink m.sbi.sBlocksize inode = true →
      inode.iSize ≤ 59 ∧ dataByte inode.iData inode.iSize = 0) :
    (krIgetByType m raw inode).iData = inode.iData := by
  unfold krIgetByType
  dsimp only
  split_ifs with _ _ hfast
  · rfl
  · obtain ⟨hsize, hzero⟩ := hlink hfast
    exact ndTerminateLink_of_zero hsize hzero
  all_goals rfl

section RoundTrip
variable {m m1 : Mount} {inode : Inode}

theorem storable_nlink (storable : Storable m inode) :
    (UInt16.ofNat inode.iNlink).toNat = inode.iNlink ∧ UInt16.ofNat inode.iNlink ≠ 0 := by
  obtain ⟨hlo, hhi⟩ := storable.nlink
  have hnlink : (UInt16.ofNat inode.iNlink).toNat = inode.iNlink := by
    rw [UInt16.toNat_ofNat', Nat.mod_eq_of_lt (by omega)]
  refine ⟨hnlink, fun h => ?_⟩
  rw [h] at hnlink
  have : inode.iNlink = 0 := hnlink.symm
  omega

theorem storable_blocks (storable : Storable m inode) :
    ((UInt32.ofNat (inode.iBlocks % 2 ^ 32).toNat).toNat : Int) = inode.iBlocks := by
  obtain ⟨hlo, hhi⟩ := storable.blocks
  rw [UInt32.toNat_ofNat', Nat.mod_eq_of_lt (by omega)]
  omega

theorem storable_size (storable : Storable m inode) (reader : Mount) (ino : Nat)
    (slot : RawInode) : (inodeFields reader ino (rawOfInode m inode slot)).iSize = inode.iSize := by
  have hsize := storable.size
  cases hreg : S_ISREG inode.iMode with
  | true =>
    simp only [hreg, if_true] at hsize
    simp only [inodeFields, rawOfInode, hreg, if_true]
    exact sizeFromDisk_split hsize
  | false =>
    simp only [hreg, Bool.false_eq_true, if_false] at hsize
    simp only [inodeFields, rawOfInode, hreg, Bool.false_eq_true, if_false]
    rw [UInt32.toNat_ofNat', Nat.mod_eq_of_lt hsize]

theorem storable_id (storable : Storable m inode) {id : UInt32}
    (hid : m.noUid32 = true → id.toNat < 65535) :
    idFromDisk m.noUid32 (if m.noUid32 then fsHigh2LowId id else UInt16.ofNat id.toNat)
      (if !m.noUid32 && inode.iDtime == 0 then UInt16.ofNat (id.toNat / 2 ^ 16) else 0) = id := by
  rw [storable.dtime]
  cases hopt : m.noUid32 with
  | true => exact idFromDisk_low _ (hid hopt)
  | false => exact idFromDisk_split id

/-- The slot that `rawOfInode` filled is neither stale nor has a bad attribute block. -/
theorem inodeOfRaw_accepts (storable : Storable m inode)
    (hvalid : ∀ b, krDataBlockValid m1.sbi b 1 = krDataBlockValid m.sbi b 1)
    (ino : Nat) (slot : RawInode) :
    inodeOfRaw m1 ino (rawOfInode m inode slot) =
      .ok (krSetInodeFlags m1.dax (krIgetByType m1 (rawOfInode m inode slot)
        (inodeFields m1 ino (rawOfInode m inode slot)))) := by
  obtain ⟨-, hlive⟩ := storable_nlink storable
  have hfile : (rawOfInode m inode slot).iFileAcl = inode.iFileAcl := rfl
  unfold inodeOfRaw
  rw [if_neg (by simp [rawOfInode, hlive]), if_neg]
  rw [hfile, hvalid]
  rcases storable.acl with h | h <;> simp [h]

/-- The data words read back: a fast symlink is terminated where it already ends. -/
theorem iData_rawOfInode (storable : Storable m inode)
    (hsize : m1.sbi.sBlocksize = m.sbi.sBlocksize) (ino : Nat) (slot : RawInode)
    (hdev : (S_ISCHR inode.iMode || S_ISBLK inode.iMode) = false) {n : Nat}
    (hn : n < KR_N_BLOCKS) :
    (krIgetByType m1 (rawOfInode m inode slot)
      (inodeFields m1 ino (rawOfInode m inode slot))).iData n = inode.iData n := by
  have hwords : ∀ n < KR_N_BLOCKS, (rawOfInode m inode slot).iBlock n = inode.iData n := by
    intro n hn
    simp [rawOfInode, hdev, hn]
  have hstored := storable_size storable m1 ino slot
  have hfast : krInodeIsFastSymlink m1.sbi.sBlocksize
      (inodeFields m1 ino (rawOfInode m inode slot)) =
      krInodeIsFastSymlink m.sbi.sBlocksize inode := by
    rw [hsize]
    simp only [krInodeIsFastSymlink, inodeFields, rawOfInode, storable_blocks storable]
  rw [krIgetByType_iData]
  · exact hwords n hn
  · intro h
    rw [hfast] at h
    obtain ⟨hle, hzero⟩ := storable.link h
    have hword : (inodeFields m1 ino (rawOfInode m inode slot)).iData (inode.iSize / 4) =
        inode.iData (inode.iSize / 4) :=
      hwords _ (by simp only [KR_N_BLOCKS]; omega)
    rw [hstored]
    exact ⟨hle, by simpa only [dataByte, hword] using hzero⟩

/-- Field by field, reading inverts writing on a storable inode. -/
theorem sameInode_rawOfInode (storable : Storable m inode) (inverse : m.dev.Inverse)
    (hopts : m1.noUid32 = m.noUid32 ∧ m1.dev = m.dev)
    (hsize : m1.sbi.sBlocksize = m.sbi.sBlocksize) (ino : Nat) (slot : RawInode) :
    SameInode inode (krSetInodeFlags m1.dax (krIgetByType m1 (rawOfInode m inode slot)
      (inodeFields m1 ino (rawOfInode m inode slot)))) := by
  have hdata := fun hdev n hn => iData_rawOfInode storable hsize ino slot hdev (n := n) hn
  have hrdev : (S_ISCHR inode.iMode || S_ISBLK inode.iMode) = true →
      (krIgetByType m1 (rawOfInode m inode slot)
        (inodeFields m1 ino (rawOfInode m inode slot))).iRdev = inode.iRdev := by
    intro hdev
    have hread := krIgetByType_iRdev m1 (rawOfInode m inode slot)
      (inodeFields m1 ino (rawOfInode m inode slot)) hdev
    rw [hread, hopts.2]
    exact rdev_of_rawOfInode m inverse inode slot hdev
  have hmade := krIgetByType_eq m1 (rawOfInode m inode slot)
    (inodeFields m1 ino (rawOfInode m inode slot))
  generalize krIgetByType m1 (rawOfInode m inode slot)
    (inodeFields m1 ino (rawOfInode m inode slot)) = made at hdata hrdev hmade ⊢
  have huid : idFromDisk m1.noUid32 (rawOfInode m inode slot).iUidLow
      (rawOfInode m inode slot).iUidHigh = inode.iUid := by
    rw [hopts.1]
    exact storable_id storable (fun h => (storable.uid16 h).1)
  have hgid : idFromDisk m1.noUid32 (rawOfInode m inode slot).iGidLow
      (rawOfInode m inode slot).iGidHigh = inode.iGid := by
    rw [hopts.1]
    exact storable_id storable (fun h => (storable.uid16 h).2)
  have hflags : made.iFlags = inode.iFlags := by rw [hmade]; rfl
  have hblank : made.sFlags = 0 := by rw [hmade]; rfl
  constructor
  case sFlags => exact krSetInodeFlags_of_agree storable.flags m1.dax hflags hblank
  case data =>
    split
    · exact hrdev ‹_›
    · rename_i hdev
      exact hdata (by simpa only [Bool.not_eq_true] using hdev)
  all_goals rw [hmade]
  case uid => exact huid
  case gid => exact hgid
  case nlink => exact (storable_nlink storable).1
  case size => exact storable_size storable m1 ino slot
  case times => exact ⟨timeFromDisk_toDisk storable.atime, timeFromDisk_toDisk storable.ctime,
    timeFromDisk_toDisk storable.mtime⟩
  case blocks => exact storable_blocks storable
  case dirAcl =>
    intro hreg
    simp [krSetInodeFlags, inodeFields, rawOfInode, hreg]
  case fragment => exact ⟨rfl, rfl, rfl⟩
  all_goals rfl

/-- Writing an inode and reading it back is the identity, for every previous
content of the slot and for either outcome of a synchronous write. -/
theorem krIget_krWriteInode (inverse : m.dev.Inverse) (storable : Storable m inode)
    (table : Nat × Nat → RawInode) (ino : Nat) (syncFails : Bool)
    {inode1 : Inode} {table1 : Nat × Nat → RawInode} {err : Option Errno}
    (written : krWriteInode m table ino inode syncFails = .ok (inode1, m1, table1, err)) :
    ∃ after, krIget m1 table1 ino = .ok after ∧ SameInode inode after := by
  unfold krWriteInode at written
  cases hslot : krGetInode m.sbi m.bread ino with
  | error e => simp [hslot] at written
  | ok slot =>
    simp only [hslot, Except.ok.injEq, Prod.mk.injEq] at written
    obtain ⟨-, hm1, htable, -⟩ := written
    rw [krGetInodeFlags_of_agree storable.flags] at htable
    have hvalid : ∀ b, krDataBlockValid m1.sbi b 1 = krDataBlockValid m.sbi b 1 := by
      rw [← hm1]
      exact krDataBlockValid_largeFileSuper m.sbi inode
    have hread : krGetInode m1.sbi m1.bread ino = .ok slot := by
      rw [← hm1]
      exact (krGetInode_largeFileSuper m inode ino).trans hslot
    have hopts : m1.noUid32 = m.noUid32 ∧ m1.dev = m.dev := by rw [← hm1]; exact ⟨rfl, rfl⟩
    have hsize : m1.sbi.sBlocksize = m.sbi.sBlocksize := by rw [← hm1]
    have hmine : table1 slot = rawOfInode m inode (table slot) := by rw [← htable]; simp
    refine ⟨_, ?_, sameInode_rawOfInode storable inverse hopts hsize ino (table slot)⟩
    simp only [krIget, hread, hmine]
    exact inodeOfRaw_accepts storable hvalid ino (table slot)

end RoundTrip

/-- The encodings of the kernel, with 12-bit majors and 20-bit minors. -/
def kernelDevCodec : DevCodec where
  oldValidDev dev := dev.toNat / 2 ^ 20 < 256 && dev.toNat % 2 ^ 20 < 256
  oldEncodeDev dev := UInt32.ofNat (dev.toNat / 2 ^ 20 * 256 + dev.toNat % 2 ^ 20)
  newEncodeDev dev := UInt32.ofNat (dev.toNat % 256 + dev.toNat / 2 ^ 20 * 256 +
    dev.toNat % 2 ^ 20 / 256 * 2 ^ 20)
  oldDecodeDev val := UInt32.ofNat (val.toNat / 256 % 256 * 2 ^ 20 + val.toNat % 256)
  newDecodeDev val := UInt32.ofNat (val.toNat / 256 % 4096 * 2 ^ 20 +
    (val.toNat % 256 + val.toNat / 2 ^ 20 * 256))

theorem kernelDevCodec_inverse : kernelDevCodec.Inverse := by
  refine ⟨?_, ?_, rfl⟩
  · intro dev hvalid
    have hdev := dev.toNat_lt
    apply UInt32.toNat.inj
    simp only [kernelDevCodec, Bool.and_eq_true, decide_eq_true_eq] at hvalid
    simp only [kernelDevCodec, UInt32.toNat_ofNat']
    generalize hmajor : dev.toNat / 2 ^ 20 = major at hvalid ⊢
    generalize hminor : dev.toNat % 2 ^ 20 = minor at hvalid ⊢
    have henc : (major * 256 + minor) % 2 ^ 32 = major * 256 + minor :=
      Nat.mod_eq_of_lt (by omega)
    have hhigh : (major * 256 + minor) / 256 % 256 = major := by omega
    have hlow : (major * 256 + minor) % 256 = minor := by omega
    rw [henc, hhigh, hlow, ← hmajor, ← hminor, Nat.div_add_mod', Nat.mod_eq_of_lt hdev]
  · intro dev
    have hdev := dev.toNat_lt
    apply UInt32.toNat.inj
    simp only [kernelDevCodec, UInt32.toNat_ofNat']
    generalize hmajor : dev.toNat / 2 ^ 20 = major
    generalize hlow : dev.toNat % 256 = low
    generalize hhigh : dev.toNat % 2 ^ 20 / 256 = high
    have henc : (low + major * 256 + high * 2 ^ 20) % 2 ^ 32 = low + major * 256 + high * 2 ^ 20 :=
      Nat.mod_eq_of_lt (by omega)
    have hmaj : (low + major * 256 + high * 2 ^ 20) / 256 % 4096 = major := by omega
    have hmin : (low + major * 256 + high * 2 ^ 20) % 256 = low := by omega
    have hext : (low + major * 256 + high * 2 ^ 20) / 2 ^ 20 = high := by omega
    rw [henc, hmaj, hmin, hext]
    omega

def smallMount : Mount :=
  ⟨sbInfoOf smallEnv (smallImage 16) 1024, false, false, kernelDevCodec, fun _ => true⟩

/-- A character device 300:5, whose major number needs the new encoding. -/
def smallDevice : Inode :=
  { Inode.blank with iMode := 0x21A4, iUid := 70000, iRdev := 314572805, iMtime := -1 }

theorem smallDevice_storable : Storable smallMount smallDevice where
  mode := by decide
  nlink := by decide
  dtime := rfl
  size := by decide
  atime := by decide
  ctime := by decide
  mtime := by decide
  blocks := by decide
  acl := Or.inl rfl
  link := fun h => absurd h (by decide)
  flags := by constructor <;> decide
  uid16 := fun h => absurd h (by decide)

theorem krIget_krWriteInode_device :
    ∃ inode1 m1 table1 err after,
      krWriteInode smallMount (fun _ => RawInode.zero) 11 smallDevice false =
        .ok (inode1, m1, table1, err) ∧
      krIget m1 table1 11 = .ok after ∧ SameInode smallDevice after :=
  ⟨_, _, _, _, _, rfl, (krIget_krWriteInode kernelDevCodec_inverse smallDevice_storable
    (fun _ => RawInode.zero) 11 false rfl).choose_spec⟩

end KrFs
