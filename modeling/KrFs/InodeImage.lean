import KrFs.InodeCodec
import KrFs.InodeNumbers
import KrFs.Ioctl

/-!
# What the disk keeps of an inode

An inode that is stored and read again is the same as far as its slot can tell, whatever its
number of links. Each inode number has a slot of its own, which does not move when a large
file changes the superblock.
-/

namespace KrFs

/-- What the disk keeps of an inode. The flag word of the VFS follows from the stored one. -/
def Inode.image (inode : Inode) : Inode :=
  let device := S_ISCHR inode.iMode || S_ISBLK inode.iMode
  { inode with
    sFlags := 0
    iRdev := if device then inode.iRdev else 0
    iData := fun n => if device || KR_N_BLOCKS ≤ n then 0 else inode.iData n
    iStateNew := false
    iDirAcl := if S_ISREG inode.iMode then 0 else inode.iDirAcl
    iDtime := 0
    iBlockGroup := 0
    iBlockAllocInfo := none
    iDirStartLookup := 0 }

/-! ## An inode and its slot -/

/-- The in-core inodes the format can hold, whatever their links. -/
structure Inode.Fits (m : Mount) (inode : Inode) : Prop where
  mode : inode.iMode ≠ 0
  nlink : inode.iNlink ≤ 65535
  dtime : inode.iDtime = 0
  size : inode.iSize < if S_ISREG inode.iMode then 2 ^ 63 else 2 ^ 32
  atime : -2 ^ 31 ≤ inode.iAtime ∧ inode.iAtime < 2 ^ 31
  ctime : -2 ^ 31 ≤ inode.iCtime ∧ inode.iCtime < 2 ^ 31
  mtime : -2 ^ 31 ≤ inode.iMtime ∧ inode.iMtime < 2 ^ 31
  blocks : 0 ≤ inode.iBlocks ∧ inode.iBlocks < 2 ^ 32
  acl : inode.iFileAcl = 0 ∨ krDataBlockValid m.sbi inode.iFileAcl.toNat 1 = true
  link : krInodeIsFastSymlink m.sbi.sBlocksize inode = true →
    inode.iSize ≤ 59 ∧ dataByte inode.iData inode.iSize = 0
  uid16 : m.noUid32 = true → inode.iUid.toNat < 65535 ∧ inode.iGid.toNat < 65535

section Slot

variable {m m' : Mount} {inode inode' : Inode} {ino : Nat} {raw slot : RawInode}

/-- With one link the inode is storable. -/
theorem Inode.Fits.storable (h : inode.Fits m) (agree : FlagsAgree inode) :
    Storable m { inode with iNlink := 1 } where
  mode := h.mode
  nlink := ⟨Nat.le_refl 1, by show 1 ≤ 65535; decide⟩
  dtime := h.dtime
  size := h.size
  atime := h.atime
  ctime := h.ctime
  mtime := h.mtime
  blocks := h.blocks
  acl := h.acl
  link := h.link
  flags := ⟨agree.sync, agree.append, agree.immutable, agree.noatime, agree.dirsync⟩
  uid16 := h.uid16

theorem SameInode.image (h : SameInode inode inode') : inode'.image = inode.image := by
  have hdata : (fun n => if (S_ISCHR inode.iMode || S_ISBLK inode.iMode) || decide (KR_N_BLOCKS ≤ n)
      then 0 else inode'.iData n) = fun n => if (S_ISCHR inode.iMode || S_ISBLK inode.iMode) ||
      decide (KR_N_BLOCKS ≤ n) then 0 else inode.iData n := by
    funext n
    split
    · rfl
    · rename_i hn
      simp only [Bool.or_eq_true, decide_eq_true_eq, not_or, Nat.not_le] at hn
      have hword := h.data
      rw [if_neg (by simpa using hn.1)] at hword
      exact hword n hn.2
  have hrdev : (if S_ISCHR inode.iMode || S_ISBLK inode.iMode then inode'.iRdev else 0) =
      if S_ISCHR inode.iMode || S_ISBLK inode.iMode then inode.iRdev else 0 := by
    split
    · rename_i hdev
      have hword := h.data
      rwa [if_pos hdev] at hword
    · rfl
  have hdir : (if S_ISREG inode.iMode then 0 else inode'.iDirAcl) =
      if S_ISREG inode.iMode then 0 else inode.iDirAcl := by
    cases hreg : S_ISREG inode.iMode with
    | true => rfl
    | false => exact h.dirAcl hreg
  obtain ⟨hatime, hctime, hmtime⟩ := h.times
  obtain ⟨hfaddr, hfrag, hfsize⟩ := h.fragment
  simp only [Inode.image, h.mode, h.uid, h.gid, h.nlink, h.size, hatime, hctime, hmtime, h.blocks,
    h.generation, h.flags, hfaddr, hfrag, hfsize, h.fileAcl, hdata, hrdev, hdir]

/-- A slot that is not stale is read alike whatever the number of links in it. -/
theorem inodeOfRaw_links (hmode : raw.iMode ≠ 0) (hdtime : raw.iDtime = 0) (n : UInt16)
    {after : Inode} (h : inodeOfRaw m ino { raw with iLinksCount := 1 } = .ok after) :
    inodeOfRaw m ino { raw with iLinksCount := n } = .ok { after with iNlink := n.toNat } := by
  have hlive : ∀ links : UInt16,
      ¬ (links = 0 && (raw.iMode = 0 || raw.iDtime ≠ 0) : Bool) = true := by
    intro links
    simp [hmode, hdtime]
  unfold inodeOfRaw at h ⊢
  rw [if_neg (hlive 1)] at h
  rw [if_neg (hlive n)]
  by_cases hacl : (raw.iFileAcl ≠ 0 && !krDataBlockValid m.sbi raw.iFileAcl.toNat 1) = true
  · rw [if_pos hacl] at h
    cases h
  · rw [if_neg hacl] at h ⊢
    obtain rfl := Except.ok.inj h
    congr 1
    simp only [krIgetByType, inodeFields, krInodeIsFastSymlink]
    split_ifs <;> rfl

/-- An inode that was stored is read again as it was, as far as the disk keeps it. -/
theorem Inode.Fits.reread (h : inode.Fits m) (agree : FlagsAgree inode) (dev : m.dev.Inverse)
    (ino : Nat) (slot : RawInode) :
    ∃ after, inodeOfRaw m ino (rawOfInode m inode slot) = .ok after ∧
      after.image = inode.image := by
  have storable := h.storable agree
  have hread := inodeOfRaw_accepts storable (fun _ => rfl) ino slot
  have hsame := (sameInode_rawOfInode storable dev ⟨rfl, rfl⟩ rfl ino slot).image
  generalize krSetInodeFlags m.dax (krIgetByType m (rawOfInode m { inode with iNlink := 1 } slot)
    (inodeFields m ino (rawOfInode m { inode with iNlink := 1 } slot))) = one at hread hsame
  have hlinks : (UInt16.ofNat inode.iNlink).toNat = inode.iNlink := by
    rw [UInt16.toNat_ofNat', Nat.mod_eq_of_lt (Nat.lt_of_le_of_lt h.nlink (by decide))]
  refine ⟨{ one with iNlink := (UInt16.ofNat inode.iNlink).toNat }, ?_, ?_⟩
  · have hone : inodeOfRaw m ino { rawOfInode m inode slot with iLinksCount := 1 } = .ok one :=
      hread
    exact inodeOfRaw_links h.mode h.dtime (UInt16.ofNat inode.iNlink) hone
  · rw [hlinks]
    calc ({ one with iNlink := inode.iNlink } : Inode).image
        = { one.image with iNlink := inode.iNlink } := rfl
      _ = { ({ inode with iNlink := 1 } : Inode).image with iNlink := inode.iNlink } := by rw [hsame]
      _ = inode.image := rfl

/-- The slot of a deleted inode is stale. -/
theorem inodeOfRaw_deleted (hlinks : inode.iNlink = 0) (hdtime : inode.iDtime ≠ 0) :
    inodeOfRaw m ino (rawOfInode m' inode slot) = .error .estale := by
  have hzero : (rawOfInode m' inode slot).iLinksCount = 0 := by
    simp only [rawOfInode, hlinks]
    rfl
  have htime : (rawOfInode m' inode slot).iDtime ≠ 0 := hdtime
  unfold inodeOfRaw
  rw [if_pos]
  simp [hzero, htime]

/-- Whether an inode fits is told by what the disk keeps of it. -/
theorem Inode.Fits.of_image (h : inode.Fits m) (himage : inode'.image = inode.image)
    (hdtime : inode'.iDtime = 0) : inode'.Fits m := by
  have field : ∀ {α : Type} (f : Inode → α), f inode'.image = f inode.image := fun f =>
    congrArg f himage
  have hmode : inode'.iMode = inode.iMode := field Inode.iMode
  have hsize : inode'.iSize = inode.iSize := field Inode.iSize
  have hblocks : inode'.iBlocks = inode.iBlocks := field Inode.iBlocks
  have hacl : inode'.iFileAcl = inode.iFileAcl := field Inode.iFileAcl
  have hatime : inode'.iAtime = inode.iAtime := field Inode.iAtime
  have hctime : inode'.iCtime = inode.iCtime := field Inode.iCtime
  have hmtime : inode'.iMtime = inode.iMtime := field Inode.iMtime
  have hnlink : inode'.iNlink = inode.iNlink := field Inode.iNlink
  have huid : inode'.iUid = inode.iUid := field Inode.iUid
  have hgid : inode'.iGid = inode.iGid := field Inode.iGid
  constructor
  · rw [hmode]
    exact h.mode
  · rw [hnlink]
    exact h.nlink
  · exact hdtime
  · rw [hsize, hmode]
    exact h.size
  · rw [hatime]
    exact h.atime
  · rw [hctime]
    exact h.ctime
  · rw [hmtime]
    exact h.mtime
  · rw [hblocks]
    exact h.blocks
  · rw [hacl]
    exact h.acl
  · intro hfast'
    have hfast : krInodeIsFastSymlink m.sbi.sBlocksize inode = true := by
      rw [krInodeIsFastSymlink, hacl, hmode, hblocks] at hfast'
      exact hfast'
    obtain ⟨hle, hzero⟩ := h.link hfast
    have hlink : S_ISLNK inode.iMode = true := by
      simp only [krInodeIsFastSymlink, Bool.and_eq_true] at hfast
      exact hfast.1
    have hdev : (S_ISCHR inode.iMode || S_ISBLK inode.iMode) = false := by
      simp only [S_ISLNK, beq_iff_eq] at hlink
      simp only [S_ISCHR, S_ISBLK, hlink]
      decide
    have hword : inode'.iData (inode.iSize / 4) = inode.iData (inode.iSize / 4) := by
      have hin : ¬ KR_N_BLOCKS ≤ inode.iSize / 4 := by
        simp only [KR_N_BLOCKS]
        omega
      have hdata := congrFun (field Inode.iData) (inode.iSize / 4)
      simp only [Inode.image, hmode, hdev, hin, decide_false, Bool.or_self, Bool.false_eq_true,
        if_false] at hdata
      exact hdata
    rw [hsize]
    constructor
    · exact hle
    · rw [dataByte, hword]
      exact hzero
  · rw [huid, hgid]
    exact h.uid16

/-- An inode that was read has no time of deletion. -/
theorem krIget_dtime {table : Nat × Nat → RawInode} (h : krIget m table ino = .ok inode) :
    inode.iDtime = 0 := by
  unfold krIget at h
  split at h
  · cases h
  · unfold inodeOfRaw at h
    split at h
    · cases h
    split at h
    · cases h
    · obtain rfl := Except.ok.inj h
      unfold krSetInodeFlags
      rw [krIgetByType_eq]
      rfl

theorem krIget_agree {table : Nat × Nat → RawInode} (h : krIget m table ino = .ok inode) :
    FlagsAgree inode := by
  unfold krIget at h
  split at h
  · cases h
  · unfold inodeOfRaw at h
    split at h
    · cases h
    split at h
    · cases h
    · obtain rfl := Except.ok.inj h
      exact krSetInodeFlags_agree _ _

end Slot

/-! ## Mounts that differ in the features of the superblock -/

/-- Storing a large file changes fields of the superblock that no inode is found or read by. -/
structure Mount.Alike (m m' : Mount) : Prop where
  eq : m' = { m with sbi := { m.sbi with sEs := m'.sbi.sEs } }
  inodes : m'.sbi.sEs.sInodesCount = m.sbi.sEs.sInodesCount
  first : m'.sbi.sEs.sFirstDataBlock = m.sbi.sEs.sFirstDataBlock
  blocks : m'.sbi.sEs.sBlocksCount = m.sbi.sEs.sBlocksCount

/-- Each number in range has a slot that can be read, and no two share one. -/
structure Mount.Slots (m : Mount) : Prop where
  found : ∀ ino, inodeInRange m.sbi ino = true → ∃ slot, krGetInode m.sbi m.bread ino = .ok slot
  apart : ∀ ino ino' slot, krGetInode m.sbi m.bread ino = .ok slot →
    krGetInode m.sbi m.bread ino' = .ok slot → ino = ino'

section Alike

variable {m m' : Mount} {ino : Nat}

theorem Mount.Alike.refl (m : Mount) : m.Alike m := ⟨rfl, rfl, rfl, rfl⟩

theorem Mount.Alike.trans {m'' : Mount} (h1 : m.Alike m') (h2 : m'.Alike m'') : m.Alike m'' := by
  constructor
  · rw [h2.eq, h1.eq]
  · exact h2.inodes.trans h1.inodes
  · exact h2.first.trans h1.first
  · exact h2.blocks.trans h1.blocks

theorem largeFileSuper_alike (m : Mount) (inode : Inode) :
    m.Alike { m with sbi := { m.sbi with sEs := largeFileSuper inode m.sbi.sEs } } := by
  obtain ⟨hinodes, hfirst, hblocks⟩ := largeFileSuper_counts inode m.sbi.sEs
  exact ⟨rfl, hinodes, hfirst, hblocks⟩

theorem Mount.Alike.inRange (h : m.Alike m') : inodeInRange m'.sbi ino = inodeInRange m.sbi ino := by
  have hsbi : m'.sbi = { m.sbi with sEs := m'.sbi.sEs } := congrArg Mount.sbi h.eq
  rw [inodeInRange, h.inodes, hsbi]
  rfl

theorem Mount.Alike.krGetInode (h : m.Alike m') :
    krGetInode m'.sbi m'.bread ino = krGetInode m.sbi m.bread ino := by
  have hrange : inodeInRange m'.sbi ino = inodeInRange m.sbi ino := h.inRange
  have hbread : m'.bread = m.bread := by rw [h.eq]
  have hsbi : m'.sbi = { m.sbi with sEs := m'.sbi.sEs } := congrArg Mount.sbi h.eq
  unfold KrFs.krGetInode
  rw [hrange, hbread, hsbi]
  rfl

theorem Mount.Alike.inodeOfRaw (h : m.Alike m') (raw : RawInode) :
    inodeOfRaw m' ino raw = inodeOfRaw m ino raw := by
  have hvalid : ∀ b, krDataBlockValid m'.sbi b 1 = krDataBlockValid m.sbi b 1 := by
    intro b
    have hsbi : m'.sbi = { m.sbi with sEs := m'.sbi.sEs } := congrArg Mount.sbi h.eq
    rw [krDataBlockValid, krDataBlockValid, h.first, h.blocks, hsbi]
  have hread : krSetInodeFlags m'.dax (krIgetByType m' raw (inodeFields m' ino raw)) =
      krSetInodeFlags m.dax (krIgetByType m raw (inodeFields m ino raw)) := by
    rw [h.eq]
    rfl
  rw [KrFs.inodeOfRaw, hvalid, hread]
  rfl

theorem Mount.Alike.krIget (h : m.Alike m') (table : Nat × Nat → RawInode) :
    krIget m' table ino = krIget m table ino := by
  rw [KrFs.krIget, KrFs.krIget, h.krGetInode]
  split
  · rfl
  · exact h.inodeOfRaw _

theorem Mount.Alike.fits (h : m.Alike m') {inode : Inode} (fits : inode.Fits m) : inode.Fits m' := by
  have hsbi : m'.sbi = { m.sbi with sEs := m'.sbi.sEs } := congrArg Mount.sbi h.eq
  have huid : m'.noUid32 = m.noUid32 := by rw [h.eq]
  have hsize : m'.sbi.sBlocksize = m.sbi.sBlocksize := by rw [hsbi]
  have hvalid : krDataBlockValid m'.sbi inode.iFileAcl.toNat 1 =
      krDataBlockValid m.sbi inode.iFileAcl.toNat 1 := by
    rw [krDataBlockValid, krDataBlockValid, h.first, h.blocks, hsbi]
  constructor
  · exact fits.mode
  · exact fits.nlink
  · exact fits.dtime
  · exact fits.size
  · exact fits.atime
  · exact fits.ctime
  · exact fits.mtime
  · exact fits.blocks
  · rw [hvalid]
    exact fits.acl
  · rw [hsize]
    exact fits.link
  · rw [huid]
    exact fits.uid16

theorem Mount.Alike.slots (h : m.Alike m') (slots : m.Slots) : m'.Slots := by
  constructor
  · intro ino hrange
    rw [h.inRange] at hrange
    rw [h.krGetInode]
    exact slots.found ino hrange
  · intro ino ino' slot hino hino'
    rw [h.krGetInode] at hino hino'
    exact slots.apart ino ino' slot hino hino'

end Alike

/-- On an accepted image with whole blocks of inodes in each group each number has a slot. -/
theorem slots_of_krFillSuper {k : MountEnv} {es : SuperBlock} {m : Mount}
    (accepted : krFillSuper k es = .ok m.sbi)
    (hwhole : m.sbi.sInodesPerBlock ∣ m.sbi.sInodesPerGroup)
    (hcount : m.sbi.sEs.sInodesCount.toNat ≤ m.sbi.sGroupsCount * m.sbi.sInodesPerGroup)
    (hfirst : 0 < m.sbi.sFirstIno) (hread : ∀ b, m.bread b = true) : m.Slots := by
  have g := inodeGeometry_of_krFillSuper accepted
  have hlt : ∀ {ino : Nat}, inodeInRange m.sbi ino = true →
      0 < ino ∧ ino ≤ m.sbi.sEs.sInodesCount.toNat ∧ ino < 2 ^ 32 := by
    intro ino h
    have hbound := m.sbi.sEs.sInodesCount.toNat_lt
    simp only [inodeInRange, Bool.not_eq_true', Bool.or_eq_false_iff, Bool.and_eq_false_iff,
      decide_eq_false_iff_not, bne_eq_false_iff_eq] at h
    have hpos : 0 < ino := by
      rcases h.1 with hroot | hlow
      · rw [hroot]
        decide
      · omega
    omega
  constructor
  · intro ino hrange
    obtain ⟨hpos, hle, hsmall⟩ := hlt hrange
    have hgroup : inodeGroup m.sbi ino < m.sbi.sGroupsCount := by
      rw [inodeGroup_eq hpos hsmall]
      apply Nat.div_lt_of_lt_mul
      rw [Nat.mul_comm]
      omega
    have hcheck := checkDescriptor_of_krFillSuper accepted hgroup
    unfold krCheckDescriptor at hcheck
    cases hdesc : krGetGroupDesc m.sbi (inodeGroup m.sbi ino) with
    | none =>
      rw [hdesc] at hcheck
      cases hcheck
    | some gdp =>
      unfold krGetInode
      rw [hrange, hdesc]
      simp only [hread]
      exact ⟨_, rfl⟩
  · intro ino ino' slot hino hino'
    obtain ⟨block, offset⟩ := slot
    obtain ⟨-, -, hrange, -⟩ := krGetInode_ok hino
    obtain ⟨-, -, hrange', -⟩ := krGetInode_ok hino'
    by_contra hne
    have hplace : inodeGroup m.sbi ino ≠ inodeGroup m.sbi ino' ∨
        inodeIndex m.sbi ino ≠ inodeIndex m.sbi ino' := by
      by_contra hsame
      rw [not_or, not_not, not_not] at hsame
      exact hne (inodePlace_injective (hlt hrange).2.2 (hlt hrange').2.2 hsame.1 hsame.2)
    have hindex : ∀ ino, inodeIndex m.sbi ino < m.sbi.sInodesPerGroup := fun ino =>
      Nat.mod_lt _ g.inodesPerGroup_pos
    have hsize := g.inodeSize_pos
    rcases (krGetInode_slot g hino).apart accepted hwhole (hindex ino) (hindex ino')
      (krGetInode_slot g hino') hplace with hbefore | hafter
    · omega
    · omega

end KrFs
