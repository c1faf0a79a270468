import KrFs.BlockPath
import KrFs.Consistency
import KrFs.GetBlocksMap
import KrFs.Lib.ByteFile

/-!
# The quota files

`kr_quota_read` and `kr_quota_write` work on the blocks of a file without the page
cache. Together with the contents of the data blocks a file is an array of bytes, as
long as no write covers a hole only in part: a block that `kr_get_block` has just
allocated holds what the disk held before, and nobody clears the rest of it.
-/

namespace KrFs

open SearchTree

/-- The file system and the contents of the data blocks on disk. Indirect blocks are
kept in `Fs.ptr`. -/
structure QuotaDisk where
  fs : Fs
  data : Nat → Nat → UInt8

/-- What one call meets in its rounds: the calls of `kr_get_block`, failing `sb_bread`
and `sb_getblk` of the data block, and the clock. -/
structure QuotaEnv where
  getBlock : Nat → GetBlocksEnv
  sbBread : Nat → Bool
  sbGetblk : Nat → Bool
  now : Int

section Code

variable (ops : Rebalance Window) (ino fuel : Nat) (reservation : Bool)

/-- `kr_get_block` for a buffer of one block, with the block the buffer is mapped to.
The quota code serializes its calls, so that the look-up sees the tree as it is. -/
def krGetBlock (env : GetBlocksEnv) (fs : Fs) (iblock : Nat) (create : Bool) :
    Exec (Fs × Except Errno (Option Nat)) :=
  (krGetBlocks ops { env with look := fun _ => fs.mem ino } ino fuel reservation fs iblock 1
    create).bind fun (fs, mapped) =>
      match mapped.ret with
      | .error e => .done (fs, .error e)
      | .ok 0 => .done (fs, .ok none)
      | .ok (_ + 1) => .done (fs, .ok (some mapped.bno))

variable (env : QuotaEnv)

/-- The loop of `kr_quota_read`; `got` is what it has copied. -/
def quotaReadLoop : Nat → Nat → QuotaDisk → Nat → Nat → Nat → List UInt8 →
    Exec (QuotaDisk × Except Errno (List UInt8))
  | _, _, disk, _, _, 0, got => .done (disk, .ok got)
  | 0, _, _, _, _, _ + 1, _ => .running
  | rounds + 1, k, disk, blk, offset, toread + 1, got =>
    let blocksize := disk.fs.sbi.sBlocksize
    let tocopy := if blocksize - offset < toread + 1 then blocksize - offset else toread + 1
    (krGetBlock ops ino fuel reservation (env.getBlock k) disk.fs blk false).bind fun (fs, mapped) =>
      let disk := { disk with fs := fs }
      match mapped with
      | .error e => .done (disk, .error e)
      | .ok none =>
        quotaReadLoop rounds (k + 1) disk (blk + 1) 0 (toread + 1 - tocopy)
          (got ++ List.replicate tocopy 0)
      | .ok (some bno) =>
        if !env.sbBread k then .done (disk, .error .eio)
        else
          quotaReadLoop rounds (k + 1) disk (blk + 1) 0 (toread + 1 - tocopy)
            (got ++ Bytes.load (disk.data bno) offset tocopy)

/-- `kr_quota_read`. The length of a buffer added to an offset does not wrap. -/
def krQuotaRead (disk : QuotaDisk) (len off : Nat) : Exec (QuotaDisk × Except Errno (List UInt8)) :=
  let iSize := (disk.fs.inode ino).iSize
  if iSize < off then .done (disk, .ok [])
  else
    let len := if iSize < off + len then iSize - off else len
    quotaReadLoop ops ino fuel reservation env len 0 disk (off >>> disk.fs.sbi.sBlocksizeBits)
      (off &&& (disk.fs.sbi.sBlocksize - 1)) len []

/-- The loop of `kr_quota_write`, with the number of bytes that are left and `err`. -/
def quotaWriteLoop : Nat → Nat → QuotaDisk → Nat → Nat → List UInt8 →
    Exec (QuotaDisk × Nat × Option Errno)
  | _, _, disk, _, _, [] => .done (disk, 0, none)
  | 0, _, _, _, _, _ :: _ => .running
  | rounds + 1, k, disk, blk, offset, b :: rest =>
    let towrite := (b :: rest).length
    let blocksize := disk.fs.sbi.sBlocksize
    let tocopy := if blocksize - offset < towrite then blocksize - offset else towrite
    (krGetBlock ops ino fuel reservation (env.getBlock k) disk.fs blk true).bind fun (fs, mapped) =>
      let disk := { disk with fs := fs }
      match mapped with
      | .error e => .done (disk, towrite, some e)
      | .ok none => .bug -- the number of an unmapped buffer is not initialised
      | .ok (some bno) =>
        if !(if offset ≠ 0 ∨ tocopy ≠ blocksize then env.sbBread k else env.sbGetblk k) then
          .done (disk, towrite, some .eio)
        else
          quotaWriteLoop rounds (k + 1)
            { disk with
              data := Function.update disk.data bno
                (Bytes.store (disk.data bno) offset ((b :: rest).take tocopy)) }
            (blk + 1) 0 ((b :: rest).drop tocopy)

/-- `kr_quota_write`. -/
def krQuotaWrite (disk : QuotaDisk) (data : List UInt8) (off : Nat) :
    Exec (QuotaDisk × Except Errno Nat) :=
  (quotaWriteLoop ops ino fuel reservation env data.length 0 disk
    (off >>> disk.fs.sbi.sBlocksizeBits) (off &&& (disk.fs.sbi.sBlocksize - 1)) data).bind
      fun (disk, towrite, err) =>
        if data.length = towrite then
          .done (disk, match err with
            | some e => .error e
            | none => .ok 0)
        else
          let inode := disk.fs.inode ino
          let iSize := if inode.iSize < off + data.length - towrite then
            off + data.length - towrite else inode.iSize
          .done ({ disk with
            fs := { disk.fs with
              inode := Function.update disk.fs.inode ino
                { inode with
                  iSize := iSize
                  iMtime := env.now
                  iCtime := env.now } } }, .ok (data.length - towrite))

end Code

/-! ## The size of a file -/

/-- A function of the inode that does not see what an allocation of blocks changes. -/
def BlindToBlocks {α : Type} (f : Inode → α) : Prop :=
  ∀ inode n data now info, f { inode with
    iBlocks := n, iData := data, iCtime := now, iBlockAllocInfo := info } = f inode

section Size

variable {ops : Rebalance Window} {env : GetBlocksEnv} {ino fuel : Nat} {fs fs' : Fs}
  {reserved : Nat → Prop} {owned : Nat → Multiset Nat} {extra : Nat → Int} {α : Type}
  {f : Inode → α}

theorem Fs.BlockFrame.keeps (h : fs.BlockFrame fs') (blind : BlindToBlocks f) (i : Nat) :
    f (fs'.inode i) = f (fs.inode i) := by
  obtain ⟨n, hn⟩ := h.inode i
  rw [hn]
  exact blind (fs.inode i) n (fs.inode i).iData (fs.inode i).iCtime (fs.inode i).iBlockAllocInfo

theorem freeEach_keeps (blind : BlindToBlocks f) (blocks : List Nat) (i : Nat) :
    f ((freeEach env ino fs blocks).inode i) = f (fs.inode i) := by
  rw [freeEach_eq]
  exact (freeCalls_frame _ _ _ fs).keeps blind i

theorem krAllocBranch_keeps (blind : BlindToBlocks f) (hbitmap : ∀ g, env.readBitmap g = true)
    (h : fs.Owned reserved owned extra) {goal indirectBlks blks : Nat} (hblks : 1 ≤ blks)
    {offsets : List Nat} {result : Except Errno (List Nat × Nat × Nat)}
    (hrun : krAllocBranch ops env ino fuel fs goal indirectBlks blks offsets =
      .done (fs', result)) (i : Nat) : f (fs'.inode i) = f (fs.inode i) := by
  unfold krAllocBranch at hrun
  generalize halloc : krAllocBlocks ops env ino fuel fs goal indirectBlks blks = call at hrun
  cases call with
  | bug => cases hrun
  | running => cases hrun
  | done res =>
    obtain ⟨fs1, outcome⟩ := res
    have hspec := krAllocBlocks_spec hbitmap h hblks halloc
    cases outcome with
    | error e =>
      simp only [Exec.bind, Exec.done.injEq, Prod.mk.injEq] at hrun
      obtain ⟨rfl, -⟩ := hrun
      exact hspec.1.keeps blind i
    | ok found =>
      obtain ⟨new, data, num⟩ := found
      have hframe : fs.BlockFrame fs1 := hspec.2.2.2.1
      obtain ⟨ptr, hfill, -⟩ : ∃ ptr, (fillBranch env data num 1 fs1 new offsets).1 =
          { fs1 with ptr := ptr } ∧ ∀ c, c ∉ new → ptr c = fs1.ptr c :=
        fillBranch_frame data num new 1 fs1 offsets
      simp only [Exec.bind] at hrun
      split at hrun
      · simp only [Exec.done.injEq, Prod.mk.injEq] at hrun
        rw [← hrun.1, hfill]
        exact hframe.keeps blind i
      · simp only [Exec.done.injEq, Prod.mk.injEq] at hrun
        rw [← hrun.1, (krFreeBlocks_frame _ _ _ _ _).keeps blind i, freeEach_keeps blind, hfill]
        exact hframe.keeps blind i

theorem krSpliceBranch_keeps (blind : BlindToBlocks f) (iblock : Nat) (ind : Indirect)
    (new : List Nat) (data blks i : Nat) :
    f ((krSpliceBranch env ino fs iblock ind new data blks).inode i) = f (fs.inode i) := by
  by_cases hi : i = ino
  · subst hi
    simp only [krSpliceBranch, Fs.setMem, Function.update_self]
    exact blind (fs.inode i) (fs.inode i).iBlocks _ _ _
  · simp [krSpliceBranch, Fs.setMem, hi]

/-- Allocation leaves alone what does not see it. -/
theorem allocLocked_keeps (blind : BlindToBlocks f) (hbitmap : ∀ g, env.readBitmap g = true)
    (h : fs.Owned reserved owned extra) {reservation : Bool} {iblock maxblocks : Nat}
    {offsets : List Nat} {blocksToBoundary : Int} {chain : List Indirect} {mapped : Mapped}
    (hcount : 1 ≤ krBlksToAllocate (fs.mem ino) (lastEntry chain) (offsets.length - chain.length)
      maxblocks blocksToBoundary)
    (hrun : allocLocked ops env ino fuel reservation fs iblock maxblocks offsets blocksToBoundary
      chain = .done (fs', mapped)) (i : Nat) : f (fs'.inode i) = f (fs.inode i) := by
  have hinit : ∃ info rsv, initBlockAllocInfo env ino reservation fs = { fs with
      inode := Function.update fs.inode ino { fs.inode ino with iBlockAllocInfo := info }
      rsv := rsv } := initBlockAllocInfo_eq reservation fs
  unfold allocLocked at hrun
  generalize initBlockAllocInfo env ino reservation fs = fs0 at hrun hinit
  obtain ⟨info, rsv, hfs0⟩ := hinit
  have hinode0 : ∀ j, fs0.inode j = { fs.inode j with
      iBlockAllocInfo := (fs0.inode j).iBlockAllocInfo } := by
    intro j
    rw [hfs0]
    by_cases hj : j = ino
    · subst hj
      simp
    · simp [hj]
  have hown0 : fs0.Owned reserved owned extra := by
    refine h.of_same (by rw [hfs0]) (by rw [hfs0]) (by rw [hfs0]) (by rw [hfs0]) fun j => ?_
    rw [hinode0 j]
  have hmem0 : fs0.mem ino = fs.mem ino := by
    rw [Fs.mem, hinode0 ino, hfs0]
    rfl
  have hkeeps0 : f (fs0.inode i) = f (fs.inode i) := by
    rw [hinode0 i]
    exact blind (fs.inode i) (fs.inode i).iBlocks (fs.inode i).iData (fs.inode i).iCtime _
  dsimp only at hrun
  rw [hmem0] at hrun
  generalize hcall : krAllocBranch ops env ino fuel fs0 _ _ _ _ = call at hrun
  cases call with
  | bug => cases hrun
  | running => cases hrun
  | done res =>
    obtain ⟨fs1, outcome⟩ := res
    have hkeeps1 := krAllocBranch_keeps blind hbitmap hown0 hcount hcall i
    cases outcome with
    | error e =>
      simp only [Exec.bind, Exec.done.injEq, Prod.mk.injEq] at hrun
      rw [← hrun.1, hkeeps1, hkeeps0]
    | ok found =>
      simp only [Exec.bind, Exec.done.injEq, Prod.mk.injEq] at hrun
      rw [← hrun.1, krSpliceBranch_keeps blind, hkeeps1, hkeeps0]

end Size

/-! ## One block -/

/-- A consistent file system, mounted with blocks of a size that `kr.h` allows, and a
file of it. -/
structure Fs.Hosts (fs : Fs) (files : Set Nat) (ino : Nat) : Prop where
  mounted : ∃ k es, krFillSuper k es = .ok fs.sbi
  blocksize_le : fs.sbi.sBlocksize ≤ 4096
  consistent : fs.Consistent files
  file : ino ∈ files

section Hosts

variable {fs : Fs} {files : Set Nat} {ino : Nat}

theorem Fs.Hosts.blockGeometry (h : fs.Hosts files ino) : BlockGeometry fs.sbi := by
  obtain ⟨k, es, accepted⟩ := h.mounted
  exact blockGeometry_of_krFillSuper accepted h.blocksize_le

theorem Fs.Hosts.addrGeometry (h : fs.Hosts files ino) : AddrGeometry fs.sbi := by
  obtain ⟨k, es, accepted⟩ := h.mounted
  exact addrGeometry_of_krFillSuper accepted

theorem Fs.Hosts.blocksize_pow (h : fs.Hosts files ino) :
    fs.sbi.sBlocksize = 2 ^ fs.sbi.sBlocksizeBits := by
  obtain ⟨k, es, accepted⟩ := h.mounted
  exact (inodeGeometry_of_krFillSuper accepted).blocksize_pow

theorem Fs.Hosts.blocksize_pos (h : fs.Hosts files ino) : 0 < fs.sbi.sBlocksize := by
  rw [h.blocksize_pow]
  exact Nat.two_pow_pos _

theorem Fs.Hosts.groups_pos (h : fs.Hosts files ino) : 0 < fs.sbi.sGroupsCount := by
  obtain ⟨k, es, accepted⟩ := h.mounted
  rw [(krFillSuper_ok accepted).1]
  exact Nat.succ_pos _

theorem Fs.Hosts.null (h : fs.Hosts files ino) : ¬ fs.FreeBlock 0 := by
  rintro ⟨g, hg, i, hi, hzero, hclear⟩
  have hres : fs.Reserved (fs.sbi.groupFirstBlockNo g + i) := by
    rw [← hzero]
    exact fs.reserved_zero h.groups_pos
  rw [h.consistent.reserved_set g hg i hi hres] at hclear
  cases hclear

/-- The tree of the file is live. -/
theorem Fs.Hosts.live (h : fs.Hosts files ino) : LiveTree fs ino := by
  obtain ⟨k, es, accepted⟩ := h.mounted
  refine liveTree_of_krFillSuper accepted (h.consistent.nodup ino h.file) fun b hb => ?_
  have hres := h.consistent.unreserved ino h.file b hb
  have hlow : fs.sbi.sEs.sFirstDataBlock.toNat ≤ b := by
    by_contra hlt
    exact hres (.inl (by omega))
  have hhigh : b < fs.sbi.sEs.sBlocksCount.toNat := by
    by_contra hge
    exact hres (.inr (.inl (by omega)))
  obtain ⟨g, i, -, -, hg, hi, rfl⟩ := h.blockGeometry.exists_bit hlow hhigh
  exact ⟨g, i, hi, rfl, (h.consistent.bit_iff g hg i hi).mpr (.inr ⟨ino, h.file, hb⟩)⟩

/-- Two logical blocks never share a physical one. -/
theorem Fs.Hosts.blockAt_inj (h : fs.Hosts files ino) {a b : Nat} (ha : fs.blockAt ino a ≠ 0)
    (heq : fs.blockAt ino b = fs.blockAt ino a) : b = a := by
  have hb : fs.blockAt ino b ≠ 0 := by rwa [heq]
  have hpa := h.live.path_of_mapped ha
  have hpb := h.live.path_of_mapped hb
  refine (h.addrGeometry.path_inj hpa.ne_nil ?_).symm
  exact Mem.blockAt_unique (hpa.subPath (List.append_nil _).symm hpa.ne_nil)
    (hpb.subPath (List.append_nil _).symm hpb.ne_nil) h.live.nodup ha heq

/-- The blocks with a path are an initial segment. -/
theorem Fs.Hosts.path_ne_nil (h : fs.Hosts files ino) {a b : Nat} (hab : a ≤ b)
    (hb : (fs.path b).1 ≠ []) : (fs.path a).1 ≠ [] := by
  have hbits : 4 ≤ fs.sbi.sAddrPerBlockBits := le_trans (by omega) h.addrGeometry.bits
  have hapb : fs.addrPerBlock = 2 ^ fs.sbi.sAddrPerBlockBits := h.addrGeometry.apb_eq
  rw [Fs.path, hapb, ne_eq, krBlockToPath_none_iff hbits] at hb ⊢
  omega

end Hosts

/-- The reads of indirect blocks and of bitmaps succeed. The search for free blocks,
the quota and the buffers of new indirect blocks may fail. -/
structure GetBlocksEnv.Reads (env : GetBlocksEnv) : Prop where
  bread : ∀ i, env.bread i = true
  breadAgain : ∀ i, env.breadAgain i = true
  readBitmap : ∀ g, env.readBitmap g = true

theorem GetBlocksEnv.Reads.quiet {env : GetBlocksEnv} (h : env.Reads) (m : Mem) :
    GetBlocksEnv.Quiet { env with look := fun _ => m } m :=
  ⟨fun _ => rfl, h.bread, h.breadAgain, h.readBitmap⟩

/-- `kr_get_block` has mapped `blk` to `bno`, and no other block. -/
structure Fs.MapsBlock (fs fs' : Fs) (ino blk bno : Nat) : Prop where
  ne_zero : bno ≠ 0
  path : (fs.path blk).1 ≠ []
  map : ∀ l, fs'.blockAt ino l = if l = blk then bno else fs.blockAt ino l
  keeps : fs.blockAt ino blk ≠ 0 → bno = fs.blockAt ino blk

/-- The blocks from `blk` on are mapped to `bno` and its successors, and nothing else has
changed. -/
structure Fs.MapsRun (fs fs' : Fs) (ino blk bno n : Nat) : Prop where
  ne_zero : bno ≠ 0
  path : (fs.path blk).1 ≠ []
  map : ∀ l, fs'.blockAt ino l =
    if blk ≤ l ∧ l < blk + n then bno + (l - blk) else fs.blockAt ino l
  keeps : ∀ i < n, fs.blockAt ino (blk + i) ≠ 0 → bno + i = fs.blockAt ino (blk + i)

section GetBlock

variable {ops : Rebalance Window} {ino fuel : Nat} {reservation : Bool} {env : GetBlocksEnv}
  {fs fs' : Fs} {files : Set Nat} {blk : Nat}

/-- Looking a block up changes nothing. -/
theorem krGetBlock_lookup (h : fs.Hosts files ino) (reads : env.Reads)
    (hpath : (fs.path blk).1 ≠ []) :
    krGetBlock ops ino fuel reservation env fs blk false = .done (fs, .ok
      (if fs.blockAt ino blk = 0 then none else some (fs.blockAt ino blk))) := by
  have quiet := reads.quiet (fs.mem ino)
  obtain ⟨front, off, back, hat⟩ := (fs.mem ino).chain_endsAt hpath
  have hiff : chainFull ((fs.mem ino).chain (fs.path blk).1) = true ↔
      fs.blockAt ino blk ≠ 0 := hat.full_iff
  unfold krGetBlock
  by_cases hz : fs.blockAt ino blk = 0
  · have hfull : chainFull ((fs.mem ino).chain (fs.path blk).1) = false := by
      rw [← Bool.not_eq_true, hiff, not_not]
      exact hz
    rw [krGetBlocks_hole quiet (le_refl 1) hpath hfull false, if_pos hz]
    rfl
  · obtain ⟨hkey, n, hmore, hpos, -, -⟩ := mappedAt_run h.addrGeometry h.live quiet (le_refl 1) hpath
      hat (hiff.mpr hz)
    obtain ⟨n, rfl⟩ := Nat.exists_eq_succ_of_ne_zero (Nat.one_le_iff_ne_zero.mp hpos)
    rw [krGetBlocks_full quiet (le_refl 1) hpath (hiff.mpr hz) hmore false, if_neg hz, ← hkey]
    rfl

/-- A completed call of `kr_get_blocks` that may allocate. -/
theorem krGetBlocks_run (h : fs.Hosts files ino) (reads : env.Reads) {maxblocks : Nat}
    {mapped : Mapped}
    (hrun : krGetBlocks ops { env with look := fun _ => fs.mem ino } ino fuel reservation fs blk
      maxblocks true = .done (fs', mapped)) :
    (∀ {α : Type} {f : Inode → α}, BlindToBlocks f → ∀ i, f (fs'.inode i) = f (fs.inode i)) ∧
      ((∃ e, mapped.ret = .error e ∧ ∀ l, fs'.blockAt ino l = fs.blockAt ino l) ∨
        ∃ n, mapped.ret = .ok (n + 1) ∧ n < maxblocks ∧
          fs.MapsRun fs' ino blk mapped.bno (n + 1)) := by
  have quiet := reads.quiet (fs.mem ino)
  have hmax : 1 ≤ maxblocks := by
    by_contra hzero
    rw [krGetBlocks, if_pos (by omega)] at hrun
    cases hrun
  by_cases hpath : (fs.path blk).1 = []
  · rw [krGetBlocks, if_neg (by omega)] at hrun
    simp only [hpath, if_true, Exec.done.injEq, Prod.mk.injEq] at hrun
    obtain ⟨rfl, rfl⟩ := hrun
    exact ⟨fun _ _ => rfl, .inl ⟨_, rfl, fun _ => rfl⟩⟩
  obtain ⟨front, off, back, hat⟩ := (fs.mem ino).chain_endsAt hpath
  have hiff : chainFull ((fs.mem ino).chain (fs.path blk).1) = true ↔
      fs.blockAt ino blk ≠ 0 := hat.full_iff
  by_cases hz : fs.blockAt ino blk = 0
  · have hfull : chainFull ((fs.mem ino).chain (fs.path blk).1) = false := by
      rw [← Bool.not_eq_true, hiff, not_not]
      exact hz
    rw [krGetBlocks_hole quiet hmax hpath hfull true, if_pos rfl] at hrun
    obtain ⟨hisPath, hboundary⟩ := h.live.paths blk hpath
    have hlast := hisPath.last_lt
    have hzero : (fs.mem ino).row (lastEntry ((fs.mem ino).chain (fs.path blk).1)).base
        (lastEntry ((fs.mem ino).chain (fs.path blk).1)).off = 0 := by
      rw [← verifyChain_lastEntry (verifyChain_chain (fs.mem ino) (fs.path blk).1)
        (List.ne_nil_of_length_pos (by rw [hat.length]; omega))]
      simpa [chainFull] using hfull
    have hcount := (krBlksToAllocate_spec (fs.mem ino)
      (lastEntry ((fs.mem ino).chain (fs.path blk).1)) ((fs.path blk).1.length -
        ((fs.mem ino).chain (fs.path blk).1).length) hmax
      (show 0 ≤ (fs.path blk).2 by omega) fun _ => hzero).1
    refine ⟨fun blind => allocLocked_keeps blind quiet.readBitmap
      (h.consistent.owned h.blockGeometry) hcount hrun, ?_⟩
    obtain hfail | ⟨n, hret, hpos, hle, hadded⟩ := allocLocked_map h.live h.addrGeometry h.null
      hmax hpath hat hzero hrun
    · exact .inl hfail
    · obtain ⟨n, rfl⟩ := Nat.exists_eq_succ_of_ne_zero (Nat.one_le_iff_ne_zero.mp hpos)
      exact .inr ⟨n, hret, by omega, hadded.bno_ne, hpath, hadded.map, fun i hi hne =>
        absurd (hadded.absent i hi) hne⟩
  · obtain ⟨hkey, n, hmore, hpos, hle, hsucc⟩ := mappedAt_run h.addrGeometry h.live quiet hmax hpath
      hat (hiff.mpr hz)
    obtain ⟨n, rfl⟩ := Nat.exists_eq_succ_of_ne_zero (Nat.one_le_iff_ne_zero.mp hpos)
    rw [krGetBlocks_full quiet hmax hpath (hiff.mpr hz) hmore true] at hrun
    simp only [Exec.done.injEq, Prod.mk.injEq] at hrun
    obtain ⟨rfl, rfl⟩ := hrun
    have hbno : (mappedAt ((fs.mem ino).chain (fs.path blk).1) (n + 1) (fs.path blk).2).bno =
        fs.blockAt ino blk := hkey
    refine ⟨fun _ _ => rfl, .inr ⟨n, rfl, by omega, ?_, hpath, fun l => ?_, fun i hi _ => ?_⟩⟩
    · rwa [hbno]
    · split
      · rename_i hin
        have hat := hsucc (l - blk) (by omega)
        rw [Nat.add_sub_cancel' hin.1] at hat
        rw [hbno, hat]
      · rfl
    · rw [hbno, hsucc i hi]

/-- A completed call of `kr_get_blocks` for one block. -/
theorem krGetBlocks_one (h : fs.Hosts files ino) (reads : env.Reads) {mapped : Mapped}
    (hrun : krGetBlocks ops { env with look := fun _ => fs.mem ino } ino fuel reservation fs blk 1
      true = .done (fs', mapped)) :
    (∀ i, (fs'.inode i).iSize = (fs.inode i).iSize) ∧
      ((∃ e, mapped.ret = .error e ∧ ∀ l, fs'.blockAt ino l = fs.blockAt ino l) ∨
        ∃ n, mapped.ret = .ok (n + 1) ∧ fs.MapsBlock fs' ino blk mapped.bno) := by
  obtain ⟨hkeeps, hfail | ⟨n, hret, hlt, hmaps⟩⟩ := krGetBlocks_run h reads hrun
  · exact ⟨hkeeps fun _ _ _ _ _ => rfl, .inl hfail⟩
  · obtain rfl : n = 0 := by omega
    refine ⟨hkeeps fun _ _ _ _ _ => rfl, .inr ⟨0, hret, hmaps.ne_zero, hmaps.path, fun l => ?_,
      hmaps.keeps 0 (by omega)⟩⟩
    rw [hmaps.map l]
    by_cases hl : l = blk
    · rw [if_pos (by omega), if_pos hl, hl, Nat.sub_self, Nat.add_zero]
    · rw [if_neg (by omega), if_neg hl]

/-- What a completed call of `kr_get_block` that may allocate leaves. -/
structure GotBlock (fs fs' : Fs) (files : Set Nat) (ino blk : Nat)
    (found : Except Errno (Option Nat)) : Prop where
  sbi : fs'.sbi = fs.sbi
  hosts : fs'.Hosts files ino
  iSize : ∀ i, (fs'.inode i).iSize = (fs.inode i).iSize
  result : (∃ e, found = .error e ∧ ∀ l, fs'.blockAt ino l = fs.blockAt ino l) ∨
    ∃ bno, found = .ok (some bno) ∧ fs.MapsBlock fs' ino blk bno

theorem krGetBlock_create (h : fs.Hosts files ino) (reads : env.Reads)
    {found : Except Errno (Option Nat)}
    (hrun : krGetBlock ops ino fuel reservation env fs blk true = .done (fs', found)) :
    GotBlock fs fs' files ino blk found := by
  unfold krGetBlock at hrun
  generalize hcall : krGetBlocks ops { env with look := fun _ => fs.mem ino } ino fuel reservation
    fs blk 1 true = call at hrun
  cases call with
  | bug => cases hrun
  | running => cases hrun
  | done res =>
    obtain ⟨fs1, mapped⟩ := res
    have hfile : FileCall ops files fs fs1 := .getBlocks h.file (reads.quiet _) hcall
    obtain ⟨hsbi, hconsistent⟩ := hfile.consistent h.blockGeometry h.addrGeometry h.groups_pos
      h.consistent
    have hhosts : fs1.Hosts files ino := by
      refine ⟨?_, ?_, hconsistent, h.file⟩
      · rw [hsbi]
        exact h.mounted
      · rw [hsbi]
        exact h.blocksize_le
    obtain ⟨hsize, ⟨e, he, hsame⟩ | ⟨n, hn, hmaps⟩⟩ := krGetBlocks_one h reads hcall
    · simp only [Exec.bind, he, Exec.done.injEq, Prod.mk.injEq] at hrun
      obtain ⟨rfl, rfl⟩ := hrun
      exact ⟨hsbi, hhosts, hsize, .inl ⟨e, rfl, hsame⟩⟩
    · simp only [Exec.bind, hn, Exec.done.injEq, Prod.mk.injEq] at hrun
      obtain ⟨rfl, rfl⟩ := hrun
      exact ⟨hsbi, hhosts, hsize, .inr ⟨_, rfl, hmaps⟩⟩

end GetBlock

/-! ## The file as an array -/

/-- The bytes of a logical block; a hole reads as zeroes. -/
def QuotaDisk.block (disk : QuotaDisk) (ino l : Nat) : Nat → UInt8 :=
  if disk.fs.blockAt ino l = 0 then fun _ => 0 else disk.data (disk.fs.blockAt ino l)

def QuotaDisk.file (disk : QuotaDisk) (ino : Nat) : ByteFile :=
  ⟨(disk.fs.inode ino).iSize, Bytes.inBlocks disk.fs.sbi.sBlocksize (disk.block ino)⟩

/-- A block on disk belongs to the data of the file. -/
def Fs.Maps (fs : Fs) (ino b : Nat) : Prop := ∃ l, fs.blockAt ino l = b ∧ b ≠ 0

/-- A write covers each hole of the file that it meets as a whole. -/
def Fs.CoversHoles (fs : Fs) (ino off len : Nat) : Prop :=
  ∀ l, fs.blockAt ino l = 0 → l * fs.sbi.sBlocksize < off + len →
    off < (l + 1) * fs.sbi.sBlocksize →
    off ≤ l * fs.sbi.sBlocksize ∧ (l + 1) * fs.sbi.sBlocksize ≤ off + len

/-- Every byte below `n` has a place in the tree. -/
def Fs.Reaches (fs : Fs) (n : Nat) : Prop := ∀ l, l * fs.sbi.sBlocksize < n → (fs.path l).1 ≠ []

/-- The bytes `bytes` are stored at `start`, and no others. -/
structure Stored (disk disk' : QuotaDisk) (files : Set Nat) (ino start : Nat)
    (bytes : List UInt8) : Prop where
  sbi : disk'.fs.sbi = disk.fs.sbi
  hosts : disk'.fs.Hosts files ino
  iSize : ∀ i, (disk'.fs.inode i).iSize = (disk.fs.inode i).iSize
  file : (disk'.file ino).byte = Bytes.store (disk.file ino).byte start bytes
  mapped : ∀ l, disk.fs.blockAt ino l ≠ 0 → disk'.fs.blockAt ino l = disk.fs.blockAt ino l
  others : ∀ b, ¬ disk'.fs.Maps ino b → disk'.data b = disk.data b
  reaches : bytes ≠ [] → disk.fs.Reaches (start + bytes.length)

section Stored

variable {disk disk' disk'' : QuotaDisk} {files : Set Nat} {ino start : Nat}
  {front back : List UInt8}

/-- A call that fails before it has stored anything. -/
theorem Stored.nothing {fs' : Fs} (hsbi : fs'.sbi = disk.fs.sbi) (hosts : fs'.Hosts files ino)
    (iSize : ∀ i, (fs'.inode i).iSize = (disk.fs.inode i).iSize)
    (hsame : ∀ l, fs'.blockAt ino l = disk.fs.blockAt ino l) :
    Stored disk { disk with fs := fs' } files ino start [] := by
  refine ⟨hsbi, hosts, iSize, ?_, fun l _ => hsame l, fun _ _ => rfl, by simp⟩
  rw [Bytes.store_nil]
  simp only [QuotaDisk.file, hsbi]
  congr 1
  funext l
  simp only [QuotaDisk.block, hsame]

theorem Stored.trans (h1 : Stored disk disk' files ino start front)
    (h2 : Stored disk' disk'' files ino (start + front.length) back) (hfront : front ≠ []) :
    Stored disk disk'' files ino start (front ++ back) := by
  refine ⟨h2.sbi.trans h1.sbi, h2.hosts, fun i => (h2.iSize i).trans (h1.iSize i), ?_, ?_, ?_, ?_⟩
  · rw [h2.file, h1.file, Bytes.store_append]
  · intro l hl
    rw [h2.mapped l (by rwa [h1.mapped l hl]), h1.mapped l hl]
  · intro b hb
    rw [h2.others b hb]
    refine h1.others b ?_
    rintro ⟨l, rfl, hne⟩
    exact hb ⟨l, h2.mapped l hne, hne⟩
  · intro _
    rw [List.length_append, ← Nat.add_assoc]
    by_cases hback : back = []
    · subst hback
      exact h1.reaches hfront
    · have hreach := h2.reaches hback
      intro l hl
      have hpath := hreach l (by rwa [h1.sbi])
      rwa [Fs.path, Fs.addrPerBlock, h1.sbi] at hpath

/-- One round of the loop: the bytes go into the block that `kr_get_block` has
returned. -/
theorem Stored.round {disk : QuotaDisk} {fs' : Fs} {blk bno offset : Nat} (bytes : List UInt8)
    (hosts : disk.fs.Hosts files ino) (got : GotBlock disk.fs fs' files ino blk (.ok (some bno)))
    (maps : disk.fs.MapsBlock fs' ino blk bno)
    (hfits : offset + bytes.length ≤ disk.fs.sbi.sBlocksize)
    (hwhole : disk.fs.blockAt ino blk = 0 → offset = 0 ∧ bytes.length = disk.fs.sbi.sBlocksize) :
    Stored disk ⟨fs', Function.update disk.data bno (Bytes.store (disk.data bno) offset bytes)⟩
      files ino (blk * disk.fs.sbi.sBlocksize + offset) bytes := by
  have hself : fs'.blockAt ino blk = bno := by rw [maps.map, if_pos rfl]
  have hkeep : ∀ l, disk.fs.blockAt ino l ≠ 0 → fs'.blockAt ino l = disk.fs.blockAt ino l := by
    intro l hl
    rw [maps.map]
    split
    · rename_i heq
      subst heq
      exact maps.keeps hl
    · rfl
  refine ⟨got.sbi, got.hosts, got.iSize, ?_, hkeep, ?_, ?_⟩
  · rw [QuotaDisk.file, QuotaDisk.file, ← Bytes.inBlocks_store hosts.blocksize_pos hfits]
    simp only [got.sbi]
    refine Bytes.inBlocks_congr hosts.blocksize_pos fun l o ho => ?_
    by_cases hl : l = blk
    · subst hl
      have hblock : (⟨fs', Function.update disk.data bno
          (Bytes.store (disk.data bno) offset bytes)⟩ : QuotaDisk).block ino l =
          Bytes.store (disk.data bno) offset bytes := by
        rw [QuotaDisk.block]
        dsimp only
        rw [hself, if_neg maps.ne_zero, Function.update_self]
      rw [hblock, Function.update_self, QuotaDisk.block]
      split
      · -- a hole is overwritten as a whole
        rename_i hhole
        obtain ⟨rfl, hlen⟩ := hwhole hhole
        have hin : o < bytes.length := by omega
        rw [← Nat.zero_add o, Bytes.store_inside hin, Bytes.store_inside hin]
      · rename_i hlive
        rw [maps.keeps hlive]
    · rw [Function.update_of_ne hl, QuotaDisk.block, QuotaDisk.block]
      dsimp only
      rw [maps.map, if_neg hl]
      split
      · rfl
      · rename_i hlive
        have hother : disk.fs.blockAt ino l ≠ bno := by
          intro heq
          have hshare : fs'.blockAt ino l = fs'.blockAt ino blk := by rw [hkeep l hlive, heq, hself]
          exact hl (got.hosts.blockAt_inj (by rw [hself]; exact maps.ne_zero) hshare)
        rw [Function.update_of_ne hother]
  · intro b hb
    refine Function.update_of_ne ?_ _ _
    rintro rfl
    exact hb ⟨blk, hself, maps.ne_zero⟩
  · intro _ l hl
    refine hosts.path_ne_nil (b := blk) ?_ maps.path
    by_contra hlt
    have := Nat.mul_le_mul_right disk.fs.sbi.sBlocksize (show blk + 1 ≤ l by omega)
    rw [Nat.add_mul] at this
    omega

/-- The holes behind the first block of a write are covered by the rest of it. -/
theorem Fs.CoversHoles.rest {fs fs' : Fs} {blk bno off len n : Nat} (h : fs.CoversHoles ino off len)
    (hsbi : fs'.sbi = fs.sbi) (maps : fs.MapsBlock fs' ino blk bno) (hn : n ≤ len)
    (hend : off + n = (blk + 1) * fs.sbi.sBlocksize) :
    fs'.CoversHoles ino ((blk + 1) * fs.sbi.sBlocksize) (len - n) := by
  intro l hhole hlow hhigh
  rw [hsbi] at hlow hhigh ⊢
  have hl : l ≠ blk := by
    rintro rfl
    rw [maps.map, if_pos rfl] at hhole
    exact maps.ne_zero hhole
  rw [maps.map, if_neg hl] at hhole
  have hle : blk + 1 ≤ l := Nat.le_of_lt_succ (Nat.lt_of_mul_lt_mul_right hhigh)
  have hstart := Nat.mul_le_mul_right fs.sbi.sBlocksize hle
  obtain ⟨-, hcover⟩ := h l hhole (by omega) (by omega)
  exact ⟨hstart, by omega⟩

end Stored

/-- The reads of a call succeed, and so do the buffers of the data blocks. -/
structure QuotaEnv.Reads (env : QuotaEnv) : Prop where
  getBlock : ∀ k, (env.getBlock k).Reads
  sbBread : ∀ k, env.sbBread k = true
  sbGetblk : ∀ k, env.sbGetblk k = true

section Write

variable {ops : Rebalance Window} {ino fuel : Nat} {reservation : Bool} {env : QuotaEnv}
  {files : Set Nat}

theorem quotaWriteLoop_nil (rounds k : Nat) (disk : QuotaDisk) (blk offset : Nat) :
    quotaWriteLoop ops ino fuel reservation env rounds k disk blk offset [] =
      .done (disk, 0, none) := by
  cases rounds with
  | zero => rfl
  | succ rounds => rfl

/-- The loop of `kr_quota_write` has stored what it reports. -/
theorem quotaWriteLoop_stored (reads : env.Reads) (rounds : Nat) :
    ∀ {k : Nat} {disk disk' : QuotaDisk} {blk offset left : Nat} {data : List UInt8}
      {err : Option Errno}, disk.fs.Hosts files ino → offset < disk.fs.sbi.sBlocksize →
    disk.fs.CoversHoles ino (blk * disk.fs.sbi.sBlocksize + offset) data.length →
    quotaWriteLoop ops ino fuel reservation env rounds k disk blk offset data =
      .done (disk', left, err) →
    left ≤ data.length ∧ (err = none → left = 0) ∧
      Stored disk disk' files ino (blk * disk.fs.sbi.sBlocksize + offset)
        (data.take (data.length - left)) := by
  induction rounds with
  | zero =>
    intro k disk disk' blk offset left data err hosts _ _ hrun
    cases data with
    | nil =>
      rw [quotaWriteLoop_nil, Exec.done.injEq, Prod.mk.injEq, Prod.mk.injEq] at hrun
      obtain ⟨rfl, rfl, rfl⟩ := hrun
      exact ⟨le_refl _, fun _ => rfl, .nothing rfl hosts (fun _ => rfl) fun _ => rfl⟩
    | cons b rest => simp [quotaWriteLoop] at hrun
  | succ rounds ih =>
    intro k disk disk' blk offset left data err hosts hoffset hcovers hrun
    cases data with
    | nil =>
      rw [quotaWriteLoop_nil, Exec.done.injEq, Prod.mk.injEq, Prod.mk.injEq] at hrun
      obtain ⟨rfl, rfl, rfl⟩ := hrun
      exact ⟨le_refl _, fun _ => rfl, .nothing rfl hosts (fun _ => rfl) fun _ => rfl⟩
    | cons b rest =>
      rw [quotaWriteLoop] at hrun
      dsimp only at hrun
      have hpos : 0 < (b :: rest).length := Nat.succ_pos _
      generalize b :: rest = data at hcovers hrun hpos ⊢
      obtain ⟨tocopy, htocopy⟩ : ∃ n, n = if disk.fs.sbi.sBlocksize - offset < data.length then
        disk.fs.sbi.sBlocksize - offset else data.length := ⟨_, rfl⟩
      rw [← htocopy] at hrun
      have hsplit : 0 < tocopy ∧ tocopy ≤ data.length ∧ offset + tocopy ≤ disk.fs.sbi.sBlocksize ∧
          (tocopy = data.length ∨ offset + tocopy = disk.fs.sbi.sBlocksize) := by
        split at htocopy <;> omega
      obtain ⟨hcopy, hcopyLe, hfits, hend⟩ := hsplit
      generalize hcall : krGetBlock ops ino fuel reservation (env.getBlock k) disk.fs blk true =
        call at hrun
      cases call with
      | bug => cases hrun
      | running => cases hrun
      | done res =>
        obtain ⟨fs1, found⟩ := res
        have got := krGetBlock_create hosts (reads.getBlock k) hcall
        obtain ⟨e, rfl, hsame⟩ | ⟨bno, rfl, maps⟩ := got.result
        · simp only [Exec.bind, Exec.done.injEq, Prod.mk.injEq] at hrun
          obtain ⟨rfl, rfl, rfl⟩ := hrun
          refine ⟨le_refl _, by simp, ?_⟩
          rw [Nat.sub_self, List.take_zero]
          exact .nothing got.sbi got.hosts got.iSize hsame
        · have hlen : (data.take tocopy).length = tocopy := by
            rw [List.length_take]
            omega
          have hne : data.take tocopy ≠ [] := List.ne_nil_of_length_pos (by omega)
          have hround := Stored.round (data.take tocopy) hosts got maps (by rwa [hlen])
            fun hhole => by
              have hcover := hcovers blk hhole (by omega) (by rw [Nat.add_mul]; omega)
              rw [Nat.add_mul] at hcover
              omega
          simp only [Exec.bind, reads.sbBread k, reads.sbGetblk k, ite_self, Bool.not_true,
            Bool.false_eq_true, if_false] at hrun
          by_cases hrest : tocopy = data.length
          · -- the last block
            rw [hrest] at hround
            rw [hrest, List.drop_length, quotaWriteLoop_nil, Exec.done.injEq, Prod.mk.injEq,
              Prod.mk.injEq] at hrun
            obtain ⟨rfl, rfl, rfl⟩ := hrun
            exact ⟨Nat.zero_le _, fun _ => rfl, hround⟩
          · have hnext : blk * disk.fs.sbi.sBlocksize + offset + tocopy =
                (blk + 1) * disk.fs.sbi.sBlocksize := by
              rw [Nat.add_mul]
              omega
            obtain ⟨hleft, herr, hstored⟩ := ih got.hosts
              (show 0 < fs1.sbi.sBlocksize from got.hosts.blocksize_pos)
              (by
                rw [List.length_drop, got.sbi]
                exact hcovers.rest got.sbi maps hcopyLe hnext) hrun
            rw [List.length_drop] at hleft hstored
            refine ⟨by omega, herr, ?_⟩
            have htake : data.take (data.length - left) = data.take tocopy ++
                (data.drop tocopy).take (data.length - tocopy - left) := by
              rw [← List.take_add]
              congr 1
              omega
            rw [htake]
            refine hround.trans ?_ hne
            rw [hlen, hnext]
            have hstart : (blk + 1) * fs1.sbi.sBlocksize + 0 =
                (blk + 1) * disk.fs.sbi.sBlocksize := by rw [got.sbi, Nat.add_zero]
            rw [← hstart]
            exact hstored

end Write

/-! ## The calls -/

/-- A state in which the quota code finds its file. -/
structure QuotaDisk.Good (disk : QuotaDisk) (files : Set Nat) (ino : Nat) : Prop where
  hosts : disk.fs.Hosts files ino
  reaches : disk.fs.Reaches (disk.fs.inode ino).iSize

section Calls

variable {ops : Rebalance Window} {ino fuel : Nat} {reservation : Bool} {env : QuotaEnv}
  {files : Set Nat} {disk disk' : QuotaDisk}

/-- The block and the offset in it make up the position. -/
theorem Fs.Hosts.position {fs : Fs} (h : fs.Hosts files ino) (off : Nat) :
    off &&& (fs.sbi.sBlocksize - 1) < fs.sbi.sBlocksize ∧
      (off >>> fs.sbi.sBlocksizeBits) * fs.sbi.sBlocksize + (off &&& (fs.sbi.sBlocksize - 1)) =
        off := by
  rw [h.blocksize_pow, Nat.and_two_pow_sub_one_eq_mod, Nat.shiftRight_eq_div_pow]
  exact ⟨Nat.mod_lt _ (Nat.two_pow_pos _), Nat.div_add_mod' off _⟩

/-- The loop of `kr_quota_read` ends with the bytes of the file. -/
theorem quotaReadLoop_eq (reads : env.Reads) (hosts : disk.fs.Hosts files ino) (rounds : Nat) :
    ∀ {k blk offset toread : Nat} {got : List UInt8}, toread ≤ rounds →
    offset < disk.fs.sbi.sBlocksize →
    disk.fs.Reaches (blk * disk.fs.sbi.sBlocksize + offset + toread) →
    quotaReadLoop ops ino fuel reservation env rounds k disk blk offset toread got =
      .done (disk, .ok (got ++ Bytes.load (disk.file ino).byte
        (blk * disk.fs.sbi.sBlocksize + offset) toread)) := by
  induction rounds with
  | zero =>
    intro k blk offset toread got hrounds _ _
    obtain rfl : toread = 0 := by omega
    simp [quotaReadLoop, Bytes.load]
  | succ rounds ih =>
    intro k blk offset toread got hrounds hoffset hreach
    cases toread with
    | zero => simp [quotaReadLoop, Bytes.load]
    | succ toread =>
      rw [quotaReadLoop]
      dsimp only
      have hpos : 0 < toread + 1 := Nat.succ_pos _
      generalize toread + 1 = len at hrounds hreach hpos ⊢
      obtain ⟨tocopy, htocopy⟩ : ∃ n, n = if disk.fs.sbi.sBlocksize - offset < len then
        disk.fs.sbi.sBlocksize - offset else len := ⟨_, rfl⟩
      rw [← htocopy]
      have hsplit : 0 < tocopy ∧ tocopy ≤ len ∧ offset + tocopy ≤ disk.fs.sbi.sBlocksize ∧
          (tocopy = len ∨ offset + tocopy = disk.fs.sbi.sBlocksize) := by
        split at htocopy <;> omega
      obtain ⟨hcopy, hcopyLe, hfits, hend⟩ := hsplit
      have hpath : (disk.fs.path blk).1 ≠ [] := hreach blk (by omega)
      rw [krGetBlock_lookup hosts (reads.getBlock k) hpath]
      -- what this round copies, and what the rest of the loop does
      have hchunk : Bytes.load (disk.file ino).byte (blk * disk.fs.sbi.sBlocksize + offset) tocopy =
          Bytes.load (disk.block ino blk) offset tocopy := Bytes.load_inBlocks (disk.block ino) blk hfits
      have hrest : ∀ got : List UInt8, quotaReadLoop ops ino fuel reservation env rounds (k + 1)
          disk (blk + 1) 0 (len - tocopy) got = .done (disk, .ok (got ++ Bytes.load
            (disk.file ino).byte (blk * disk.fs.sbi.sBlocksize + offset + tocopy)
              (len - tocopy))) := by
        intro got
        rcases hend with hlast | hfull
        · subst hlast
          rw [Nat.sub_self, ih (Nat.zero_le _) hosts.blocksize_pos fun l hl => ?_]
          · simp [Bytes.load]
          · refine hosts.path_ne_nil (b := blk) ?_ hpath
            by_contra hlt
            have := Nat.mul_le_mul_right disk.fs.sbi.sBlocksize (show blk + 1 ≤ l by omega)
            omega
        · have hnext : (blk + 1) * disk.fs.sbi.sBlocksize + 0 =
              blk * disk.fs.sbi.sBlocksize + offset + tocopy := by
            rw [Nat.add_mul]
            omega
          rw [ih (by omega) hosts.blocksize_pos (by
            rw [hnext]
            intro l hl
            exact hreach l (by omega)), hnext]
      have hall : len = tocopy + (len - tocopy) := by omega
      conv_rhs => rw [hall, Bytes.load_append, hchunk, ← List.append_assoc]
      by_cases hhole : disk.fs.blockAt ino blk = 0
      · rw [if_pos hhole]
        have hzero : Bytes.load (disk.block ino blk) offset tocopy = List.replicate tocopy 0 := by
          simp [QuotaDisk.block, hhole, Bytes.load]
        rw [hzero]
        exact hrest _
      · rw [if_neg hhole]
        have hdata : disk.block ino blk = disk.data (disk.fs.blockAt ino blk) := if_neg hhole
        rw [hdata]
        simp only [Exec.bind, reads.sbBread k, Bool.not_true, Bool.false_eq_true, if_false]
        exact hrest _

/-- `kr_quota_read` returns, and what it returns are the bytes of the file. -/
theorem krQuotaRead_eq (good : disk.Good files ino) (reads : env.Reads) (len off : Nat) :
    krQuotaRead ops ino fuel reservation env disk len off =
      .done (disk, .ok ((disk.file ino).read off len)) := by
  obtain ⟨hoffset, hposition⟩ := good.hosts.position off
  unfold krQuotaRead ByteFile.read
  dsimp only
  have hsize : (disk.file ino).size = (disk.fs.inode ino).iSize := rfl
  rw [hsize]
  split
  · rename_i hpast
    rw [show (disk.fs.inode ino).iSize - off = 0 by omega, Nat.min_zero]
    rfl
  · rename_i hin
    obtain ⟨n, hn⟩ : ∃ n, n = if (disk.fs.inode ino).iSize < off + len then
      (disk.fs.inode ino).iSize - off else len := ⟨_, rfl⟩
    have hmin : min len ((disk.fs.inode ino).iSize - off) = n := by
      split at hn <;> omega
    rw [← hn, hmin, quotaReadLoop_eq reads good.hosts n (le_refl n) hoffset]
    · rw [hposition, List.nil_append]
    · rw [hposition]
      intro l hl
      exact good.reaches l (by omega)

/-- Sizes and times of the inodes do not matter for consistency. -/
theorem Fs.Consistent.setInodes {fs : Fs} (h : fs.Consistent files) {inode : Nat → Inode}
    (hdata : ∀ i, (inode i).iData = (fs.inode i).iData)
    (hblocks : ∀ i, (inode i).iBlocks = (fs.inode i).iBlocks) :
    ({ fs with inode := inode } : Fs).Consistent files := by
  have htree : ∀ i, ({ fs with inode := inode } : Fs).fileTree i = fs.fileTree i := by
    intro i
    simp only [Fs.fileTree, Fs.mem, hdata, Fs.addrPerBlock]
  refine ⟨h.groupFree, h.counter, h.reserved_set, ?_, ?_, ?_, ?_, ?_⟩
  · simp only [htree]
    exact h.bit_iff
  · simp only [htree]
    exact h.nodup
  · simp only [htree]
    exact h.disjoint
  · simp only [htree]
    exact h.unreserved
  · simp only [htree, hblocks]
    exact h.iBlocks

/-- What a completed call keeps besides the file itself. -/
structure QuotaKept (disk disk' : QuotaDisk) (files : Set Nat) (ino : Nat) : Prop where
  good : disk'.Good files ino
  mapped : ∀ l, disk.fs.blockAt ino l ≠ 0 → disk'.fs.blockAt ino l = disk.fs.blockAt ino l
  others : ∀ b, ¬ disk'.fs.Maps ino b → disk'.data b = disk.data b

theorem Stored.reaches_of {start : Nat} {bytes : List UInt8}
    (h : Stored disk disk' files ino start bytes) {n : Nat} (hn : disk.fs.Reaches n) :
    disk'.fs.Reaches n := by
  intro l hl
  rw [Fs.path, Fs.addrPerBlock, h.sbi]
  exact hn l (by rwa [← h.sbi])

/-- The end of a call that has stored nothing. -/
theorem Stored.unchanged {start : Nat} (good : disk.Good files ino)
    (h : Stored disk disk' files ino start []) :
    QuotaKept disk disk' files ino ∧ disk'.file ino = disk.file ino := by
  refine ⟨⟨⟨h.hosts, ?_⟩, h.mapped, h.others⟩, ?_⟩
  · rw [h.iSize]
    exact h.reaches_of good.reaches
  · have hbyte := h.file
    rw [Bytes.store_nil] at hbyte
    rw [QuotaDisk.file, h.iSize]
    exact congrArg (ByteFile.mk _) hbyte

/-- The end of a call that has stored some bytes: the size is brought up to date. -/
theorem Stored.finish {off : Nat} {bytes : List UInt8} (good : disk.Good files ino)
    (h : Stored disk disk' files ino off bytes) (hbytes : bytes ≠ []) {inode : Inode}
    (hdata : inode.iData = (disk'.fs.inode ino).iData)
    (hblocks : inode.iBlocks = (disk'.fs.inode ino).iBlocks)
    (hsize : inode.iSize = max (disk.fs.inode ino).iSize (off + bytes.length)) {last : QuotaDisk}
    (hlast : last = { disk' with
      fs := { disk'.fs with inode := Function.update disk'.fs.inode ino inode } }) :
    QuotaKept disk last files ino ∧ last.file ino = (disk.file ino).write off bytes := by
  have hsbi : last.fs.sbi = disk'.fs.sbi := by rw [hlast]
  have hinode : last.fs.inode ino = inode := by
    rw [hlast]
    exact Function.update_self _ _ _
  have hblockAt : ∀ l, last.fs.blockAt ino l = disk'.fs.blockAt ino l := by
    intro l
    simp only [Fs.blockAt, Fs.mem, hinode, hdata, Fs.path, Fs.addrPerBlock, hsbi]
    rw [hlast]
  have hconsistent : last.fs.Consistent files := by
    rw [hlast]
    refine h.hosts.consistent.setInodes (fun i => ?_) fun i => ?_
    · by_cases hi : i = ino
      · subst hi
        rw [Function.update_self, hdata]
      · rw [Function.update_of_ne hi]
    · by_cases hi : i = ino
      · subst hi
        rw [Function.update_self, hblocks]
      · rw [Function.update_of_ne hi]
  have hhosts : last.fs.Hosts files ino := by
    refine ⟨?_, ?_, hconsistent, h.hosts.file⟩
    · rw [hsbi]
      exact h.hosts.mounted
    · rw [hsbi]
      exact h.hosts.blocksize_le
  have hreach : disk.fs.Reaches (last.fs.inode ino).iSize := by
    intro l hl
    rw [hinode, hsize, lt_max_iff] at hl
    rcases hl with hold | hnew
    · exact good.reaches l hold
    · exact h.reaches hbytes l hnew
  refine ⟨⟨⟨hhosts, ?_⟩, fun l hl => ?_, fun b hb => ?_⟩, ?_⟩
  · intro l hl
    rw [Fs.path, Fs.addrPerBlock, hsbi]
    exact h.reaches_of hreach l (by rwa [← hsbi])
  · rw [hblockAt]
    exact h.mapped l hl
  · have hsame : last.data = disk'.data := by rw [hlast]
    rw [hsame]
    refine h.others b ?_
    rintro ⟨l, hl, hne⟩
    exact hb ⟨l, by rwa [hblockAt], hne⟩
  · have hblock : last.block ino = disk'.block ino := by
      funext l
      rw [QuotaDisk.block, QuotaDisk.block, hblockAt, hlast]
    rw [QuotaDisk.file, ByteFile.write, hinode, hsize, hblock, hsbi, ← h.file]
    rfl

/-- A completed `kr_quota_write` that covers no hole in part is a write to the array. -/
theorem krQuotaWrite_step (good : disk.Good files ino) (reads : env.Reads) {data : List UInt8}
    {off : Nat} (hcovers : disk.fs.CoversHoles ino off data.length) {ret : Except Errno Nat}
    (hrun : krQuotaWrite ops ino fuel reservation env disk data off = .done (disk', ret)) :
    QuotaKept disk disk' files ino ∧
      ByteFile.Step (disk.file ino) (.write off data ret) (disk'.file ino) := by
  obtain ⟨hoffset, hposition⟩ := good.hosts.position off
  unfold krQuotaWrite at hrun
  generalize hloop : quotaWriteLoop ops ino fuel reservation env data.length 0 disk _ _ data =
    loop at hrun
  cases loop with
  | bug => cases hrun
  | running => cases hrun
  | done res =>
    obtain ⟨disk1, left, err⟩ := res
    obtain ⟨hleft, herr, hstored⟩ := quotaWriteLoop_stored reads data.length good.hosts hoffset
      (by rwa [hposition]) hloop
    rw [hposition] at hstored
    simp only [Exec.bind] at hrun
    split at hrun
    · rename_i hnone
      simp only [Exec.done.injEq, Prod.mk.injEq] at hrun
      obtain ⟨rfl, rfl⟩ := hrun
      rw [← hnone, Nat.sub_self, List.take_zero] at hstored
      obtain ⟨hkept, hfile⟩ := hstored.unchanged good
      refine ⟨hkept, ?_⟩
      rw [hfile]
      cases err with
      | none => exact .idle _ _ _
      | some e => exact .failed _ _ _ e
    · rename_i hsome
      simp only [Exec.done.injEq, Prod.mk.injEq] at hrun
      obtain ⟨hlast, rfl⟩ := hrun
      have hpos : 0 < data.length - left := by omega
      have hlen : (data.take (data.length - left)).length = data.length - left := by
        rw [List.length_take]
        omega
      have hfinish : QuotaKept disk disk' files ino ∧ disk'.file ino =
          (disk.file ino).write off (data.take (data.length - left)) := by
        refine hstored.finish good (List.ne_nil_of_length_pos (by omega)) ?_ ?_ ?_ hlast.symm
        · rfl
        · rfl
        · dsimp only
          rw [hstored.iSize, hlen]
          split <;> omega
      obtain ⟨hkept, hfile⟩ := hfinish
      rw [hfile]
      exact ⟨hkept, .wrote _ _ hpos (Nat.sub_le _ _)⟩

end Calls

/-! ## Runs -/

/-- One completed call on the quota file of the inode. -/
inductive QuotaStep (ops : Rebalance Window) (ino : Nat) :
    QuotaDisk → ByteFile.Event Errno → QuotaDisk → Prop
  | read {disk disk' : QuotaDisk} {env : QuotaEnv} {fuel len off : Nat} {reservation : Bool}
      {got : Except Errno (List UInt8)} (reads : env.Reads)
      (call : krQuotaRead ops ino fuel reservation env disk len off = .done (disk', got)) :
      QuotaStep ops ino disk (.read off len got) disk'
  | write {disk disk' : QuotaDisk} {env : QuotaEnv} {fuel off : Nat} {reservation : Bool}
      {data : List UInt8} {ret : Except Errno Nat} (reads : env.Reads)
      (call : krQuotaWrite ops ino fuel reservation env disk data off = .done (disk', ret)) :
      QuotaStep ops ino disk (.write off data ret) disk'

/-- The call covers no hole of the file only in part. -/
def QuotaDisk.WritesWhole (disk : QuotaDisk) (ino : Nat) : ByteFile.Event Errno → Prop
  | .read _ _ _ => True
  | .write off data _ => disk.fs.CoversHoles ino off data.length

section Runs

variable {ops : Rebalance Window} {ino : Nat} {files : Set Nat} {disk disk' : QuotaDisk}

theorem QuotaKept.refl (good : disk.Good files ino) : QuotaKept disk disk files ino :=
  ⟨good, fun _ _ => rfl, fun _ _ => rfl⟩

theorem QuotaKept.trans {disk'' : QuotaDisk} (h1 : QuotaKept disk disk' files ino)
    (h2 : QuotaKept disk' disk'' files ino) : QuotaKept disk disk'' files ino := by
  refine ⟨h2.good, fun l hl => ?_, fun b hb => ?_⟩
  · rw [h2.mapped l (by rwa [h1.mapped l hl]), h1.mapped l hl]
  · rw [h2.others b hb]
    refine h1.others b ?_
    rintro ⟨l, rfl, hne⟩
    exact hb ⟨l, h2.mapped l hne, hne⟩

theorem QuotaStep.simulates {e : ByteFile.Event Errno} (good : disk.Good files ino)
    (whole : disk.WritesWhole ino e) (step : QuotaStep ops ino disk e disk') :
    QuotaKept disk disk' files ino ∧ ByteFile.Step (disk.file ino) e (disk'.file ino) := by
  cases step with
  | read reads call =>
    rw [krQuotaRead_eq good reads, Exec.done.injEq, Prod.mk.injEq] at call
    obtain ⟨rfl, rfl⟩ := call
    exact ⟨.refl good, .read _ _ _⟩
  | write reads call => exact krQuotaWrite_step good reads whole call

/-- A file without a block, of size zero, holds no byte. -/
theorem QuotaDisk.file_empty (hsize : (disk.fs.inode ino).iSize = 0)
    (holes : ∀ l, disk.fs.blockAt ino l = 0) : disk.file ino = .empty := by
  have hblock : disk.block ino = fun _ _ => 0 := by
    funext l
    rw [QuotaDisk.block, if_pos (holes l)]
  rw [QuotaDisk.file, hsize, hblock]
  rfl

/-- A run of calls on a quota file, empty at first, none of which writes to a part of a
hole, is a run on an array of bytes. Reads return from every state of it, and no block
changes that is not one of the file. -/
theorem quotaFile_simulates {k : MountEnv} {es : SuperBlock}
    (accepted : krFillSuper k es = .ok disk.fs.sbi) (hsize : disk.fs.sbi.sBlocksize ≤ 4096)
    (consistent : disk.fs.Consistent files) (file : ino ∈ files)
    (empty : (disk.fs.inode ino).iSize = 0) (holes : ∀ l, disk.fs.blockAt ino l = 0)
    {events : List (ByteFile.Event Errno)}
    (run : Trace (fun d e d' => d.WritesWhole ino e ∧ QuotaStep ops ino d e d') disk events disk') :
    Trace ByteFile.Step .empty events (disk'.file ino) ∧
      (∀ (env : QuotaEnv) (fuel : Nat) (reservation : Bool) (len off : Nat), env.Reads →
        krQuotaRead ops ino fuel reservation env disk' len off =
          .done (disk', .ok ((disk'.file ino).read off len))) ∧
      disk'.fs.Consistent files ∧ ∀ b, ¬ disk'.fs.Maps ino b → disk'.data b = disk.data b := by
  have good : disk.Good files ino := by
    refine ⟨⟨⟨k, es, accepted⟩, hsize, consistent, file⟩, ?_⟩
    rw [empty]
    intro l hl
    omega
  have hstep : ∀ {d d' : QuotaDisk} {e : ByteFile.Event Errno}, QuotaKept disk d files ino →
      d.WritesWhole ino e ∧ QuotaStep ops ino d e d' →
      QuotaKept disk d' files ino ∧ ByteFile.Step (d.file ino) e (d'.file ino) := by
    rintro d d' e hkept ⟨whole, step⟩
    obtain ⟨hnext, habs⟩ := step.simulates hkept.good whole
    exact ⟨hkept.trans hnext, habs⟩
  obtain ⟨hkept, htrace⟩ := run.simulated (fun d => d.file ino) hstep (.refl good)
  rw [QuotaDisk.file_empty empty holes] at htrace
  exact ⟨htrace, fun env fuel reservation len off reads => krQuotaRead_eq hkept.good reads len off,
    hkept.good.hosts.consistent, hkept.others⟩

end Runs

/-- `tinyFs` with an empty quota file, on a disk whose free blocks were used before. -/
def usedDisk : QuotaDisk := ⟨tinyFs, fun _ _ => 255⟩

def tinyQuotaEnv : QuotaEnv := ⟨fun _ => tinyGetEnv, fun _ => true, fun _ => true, 0⟩

theorem tinyQuotaEnv_reads : tinyQuotaEnv.Reads :=
  ⟨fun _ => ⟨fun _ => rfl, fun _ => rfl, fun _ => rfl⟩, fun _ => rfl, fun _ => rfl⟩

theorem usedDisk_holes (l : Nat) : usedDisk.fs.blockAt 12 l = 0 := by
  rw [Fs.blockAt]
  cases (usedDisk.fs.path l).1 with
  | nil => rfl
  | cons off offsets => exact Mem.follow_zero offsets

def blockWrite : ByteFile.Event Errno := .write 0 (List.replicate 1024 7) (.ok 1024)

/-- A block is written as a whole. -/
theorem quotaFile_simulates_block : ∃ disk', QuotaStep Rebalance.plain 12 usedDisk blockWrite disk' ∧
    Trace ByteFile.Step .empty [blockWrite] (disk'.file 12) := by
  have hvalue : (krQuotaWrite Rebalance.plain 12 60 true tinyQuotaEnv usedDisk
      (List.replicate 1024 7) 0).toOption.map (fun r => r.2) = some (.ok 1024) := by decide +kernel
  obtain ⟨⟨disk', ret⟩, hcall, rfl⟩ := Exec.toOption_map_eq_some.mp hvalue
  have hstep : QuotaStep Rebalance.plain 12 usedDisk blockWrite disk' :=
    .write tinyQuotaEnv_reads hcall
  have hwhole : usedDisk.WritesWhole 12 blockWrite := by
    have hblocksize : usedDisk.fs.sbi.sBlocksize = 1024 := rfl
    intro l _ hlow _
    rw [List.length_replicate, hblocksize] at hlow ⊢
    omega
  exact ⟨disk', hstep, (quotaFile_simulates krFillSuper_tinyImage (by decide) tinyFs_consistent
    (Set.mem_singleton 12) rfl usedDisk_holes (.cons ⟨hwhole, hstep⟩ (.done _))).1⟩

/-- Three bytes are written into a hole. What is read in front of them was on the disk
before. -/
theorem quotaFile_stale : ∃ disk1 disk2 got,
    krQuotaWrite Rebalance.plain 12 60 true tinyQuotaEnv usedDisk [1, 2, 3] 100 =
      .done (disk1, .ok 3) ∧
    krQuotaRead Rebalance.plain 12 60 true tinyQuotaEnv disk1 103 0 = .done (disk2, .ok got) ∧
    got.getD 0 0 = 255 ∧
    ¬ ∃ file, Trace ByteFile.Step .empty
      [.write 100 [1, 2, 3] (.ok 3), (.read 0 103 (.ok got) : ByteFile.Event Errno)] file := by
  have hvalue : ((krQuotaWrite Rebalance.plain 12 60 true tinyQuotaEnv usedDisk [1, 2, 3]
      100).toOption.bind fun w => (krQuotaRead Rebalance.plain 12 60 true tinyQuotaEnv w.1 103
        0).toOption.map fun r => (w.2, r.2.map fun got => got.getD 0 0)) =
      some (.ok 3, .ok 255) := by decide +kernel
  obtain ⟨⟨disk1, wrote⟩, hwrite, hvalue⟩ := Option.bind_eq_some_iff.mp hvalue
  obtain ⟨⟨disk2, ret⟩, hread, hvalue⟩ := Exec.toOption_map_eq_some.mp hvalue
  obtain ⟨rfl, hret⟩ := Prod.mk.inj hvalue
  cases ret with
  | error e => cases hret
  | ok got =>
    have hgot : got.getD 0 0 = 255 := Except.ok.inj hret
    refine ⟨disk1, disk2, got, Exec.toOption_eq_some.mp hwrite, hread, hgot, ?_⟩
    rintro ⟨file, hrun⟩
    cases hrun with
    | cons first rest =>
      cases first with
      | wrote =>
        cases rest with
        | cons second _ =>
          cases second with
          | read =>
            revert hgot
            decide

end KrFs
