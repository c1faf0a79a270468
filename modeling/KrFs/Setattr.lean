import KrFs.InodeCodec
import KrFs.Reserve
import KrFs.Truncate

/-!
# Changing the attributes of an inode

`kr_setattr` and `kr_setsize`. The quota code is a parameter: the accounts that the
usage of the inodes is charged to, and two of its calls with the failures they
document. A call that fails leaves the inode as it was; its usage stays with its
owner unless `dquot_transfer` has moved it before the size change fails.
-/

namespace KrFs

open SearchTree

def ATTR_MODE : UInt32 := 1
def ATTR_UID : UInt32 := 2
def ATTR_GID : UInt32 := 4
def ATTR_SIZE : UInt32 := 8

/-- `struct iattr`. -/
structure Iattr where
  iaValid : UInt32
  iaMode : UInt16
  iaUid : UInt32
  iaGid : UInt32
  iaSize : Nat

def Iattr.has (attr : Iattr) (flag : UInt32) : Bool := attr.iaValid &&& flag != 0

/-- Usage is charged to the owner and to the group of an inode. -/
inductive QuotaType where
  | usr | grp
deriving DecidableEq

/-- The owner of an inode, for one kind of quota. -/
def Inode.owner (inode : Inode) : QuotaType → UInt32
  | .usr => inode.iUid
  | .grp => inode.iGid

/-- The owner that a change sets, when it is another one. -/
def Iattr.newOwner (attr : Iattr) (inode : Inode) : QuotaType → Option UInt32
  | .usr => if attr.has ATTR_UID && attr.iaUid != inode.iUid then some attr.iaUid else none
  | .grp => if attr.has ATTR_GID && attr.iaGid != inode.iGid then some attr.iaGid else none

/-- The quota code: to whom the usage of an inode is charged, if quotas of the kind are
on, and the calls of `kr_setattr`. -/
structure QuotaOps (Q : Type) where
  account : Q → Nat → QuotaType → Option UInt32
  dquotInitialize : Q → Nat → Option Errno × Q
  dquotTransfer : Q → Nat → Inode → Iattr → Option Errno × Q

/-- `dquot_initialize` moves no usage; `dquot_transfer` moves that of the inode to the
new owners, or none when it fails. -/
structure QuotaOps.Lawful {Q : Type} (quota : QuotaOps Q) : Prop where
  init_keeps : ∀ q ino, quota.account (quota.dquotInitialize q ino).2 = quota.account q
  transfer_error : ∀ q ino inode attr err, (quota.dquotTransfer q ino inode attr).1 = some err →
    quota.account (quota.dquotTransfer q ino inode attr).2 = quota.account q
  transfer : ∀ q ino inode attr, (quota.dquotTransfer q ino inode attr).1 = none →
    ∀ type, quota.account (quota.dquotTransfer q ino inode attr).2 ino type =
      (quota.account q ino type).map fun old => (attr.newOwner inode type).getD old

/-- What the kernel does in one call of `kr_setattr`: the result of `setattr_prepare`
with the change it leaves, `is_quota_modification`, the truncation of the last page,
the reads of the block truncation, `setattr_copy`, `posix_acl_chmod` and the clock. -/
structure SetattrEnv where
  prepare : Except Errno Iattr
  isQuotaModification : Inode → Iattr → Bool
  truncatePage : Option Errno
  trunc : TruncEnv
  setattrCopy : Inode → Iattr → Inode
  posixAclChmod : Option Errno
  now : Int

section Setattr

variable {Q : Type} (quota : QuotaOps Q) (ops : Rebalance Window) (env : SetattrEnv) (ino : Nat)

/-- The inodes whose size `kr_setsize` refuses to change. -/
def refusesSize (blocksize : Nat) (inode : Inode) : Option Errno :=
  if !(S_ISREG inode.iMode || S_ISDIR inode.iMode || S_ISLNK inode.iMode) then some .einval
  else if krInodeIsFastSymlink blocksize inode then some .einval
  else if inode.sFlags &&& S_APPEND != 0 || inode.sFlags &&& S_IMMUTABLE != 0 then some .eperm
  else none

/-- `kr_setsize`. -/
def krSetsize (fs : Fs) (newsize : Nat) : Fs × Option Errno :=
  match refusesSize fs.sbi.sBlocksize (fs.inode ino) with
  | some err => (fs, some err)
  | none =>
    match env.truncatePage with
    | some err => (fs, some err)
    | none =>
      let fs := { fs with
        inode := Function.update fs.inode ino { fs.inode ino with iSize := newsize } }
      let fs := truncateBlocks ops env.trunc fs ino newsize
      ({ fs with
        inode := Function.update fs.inode ino
          { fs.inode ino with iMtime := env.now, iCtime := env.now } }, none)

/-- The call of `dquot_initialize` in `kr_setattr`. -/
def quotaReady (q : Q) (inode : Inode) (attr : Iattr) : Option Errno × Q :=
  if env.isQuotaModification inode attr then quota.dquotInitialize q ino else (none, q)

/-- The part of `kr_setattr` up to `setattr_copy`. -/
def setattrCharge (q : Q) (fs : Fs) (attr : Iattr) : Q × Fs × Option Errno :=
  let inode := fs.inode ino
  match quotaReady quota env ino q inode attr with
  | (some err, q) => (q, fs, some err)
  | (none, q) =>
    let transferred :=
      if (attr.has ATTR_UID && attr.iaUid != inode.iUid) ||
          (attr.has ATTR_GID && attr.iaGid != inode.iGid) then quota.dquotTransfer q ino inode attr
      else (none, q)
    match transferred with
    | (some err, q) => (q, fs, some err)
    | (none, q) =>
      if attr.has ATTR_SIZE && attr.iaSize != inode.iSize then
        (q, krSetsize ops env ino fs attr.iaSize)
      else (q, fs, none)

/-- `kr_setattr`. -/
def krSetattr (q : Q) (fs : Fs) : Q × Fs × Option Errno :=
  match env.prepare with
  | .error err => (q, fs, some err)
  | .ok attr =>
    match setattrCharge quota ops env ino q fs attr with
    | (q, fs, some err) => (q, fs, some err)
    | (q, fs, none) =>
      let fs := { fs with
        inode := Function.update fs.inode ino (env.setattrCopy (fs.inode ino) attr) }
      (q, fs, if attr.has ATTR_MODE then env.posixAclChmod else none)

end Setattr

/-! ## A change that fails -/

section Fails

variable {Q : Type} {quota : QuotaOps Q} {ops : Rebalance Window} {env : SetattrEnv} {ino : Nat}
  {q : Q} {fs : Fs} {attr : Iattr}

/-- The usage of the inode is charged to its owner and to its group. -/
def QuotaOps.Charged (quota : QuotaOps Q) (q : Q) (ino : Nat) (inode : Inode) : Prop :=
  ∀ type id, quota.account q ino type = some id → id = inode.owner type

/-- What a call that fails leaves alone. -/
structure SetattrKept (quota : QuotaOps Q) (ino : Nat) (fs : Fs) (q' : Q) (fs' : Fs) : Prop where
  owner : (fs'.inode ino).owner = (fs.inode ino).owner
  mode : (fs'.inode ino).iMode = (fs.inode ino).iMode
  size : (fs'.inode ino).iSize = (fs.inode ino).iSize
  map : (fs'.inode ino).iData = (fs.inode ino).iData ∧ fs'.ptr = fs.ptr
  charged : quota.Charged q' ino (fs'.inode ino)

/-- The change sets an owner whose kind of quota is on, the quota code moves the usage
to it, and the size, which is to change too, cannot be changed. -/
structure SetattrDrifts (quota : QuotaOps Q) (env : SetattrEnv) (ino : Nat) (q : Q) (fs : Fs)
    (attr : Iattr) : Prop where
  initialized : (quotaReady quota env ino q (fs.inode ino) attr).1 = none
  transferred : (quota.dquotTransfer (quotaReady quota env ino q (fs.inode ino) attr).2 ino
    (fs.inode ino) attr).1 = none
  moved : ∃ type, quota.account q ino type ≠ none ∧ attr.newOwner (fs.inode ino) type ≠ none
  resized : attr.has ATTR_SIZE = true ∧ attr.iaSize ≠ (fs.inode ino).iSize
  refused : refusesSize fs.sbi.sBlocksize (fs.inode ino) ≠ none ∨ env.truncatePage ≠ none

theorem krSetsize_error {newsize : Nat} {err : Errno}
    (h : (krSetsize ops env ino fs newsize).2 = some err) :
    (krSetsize ops env ino fs newsize).1 = fs := by
  unfold krSetsize at h ⊢
  cases hrefuses : refusesSize fs.sbi.sBlocksize (fs.inode ino) with
  | some e => rfl
  | none =>
    cases hpage : env.truncatePage with
    | some e => rfl
    | none =>
      simp only [hrefuses, hpage] at h
      cases h

theorem krSetsize_fails_iff {newsize : Nat} : (krSetsize ops env ino fs newsize).2 ≠ none ↔
    refusesSize fs.sbi.sBlocksize (fs.inode ino) ≠ none ∨ env.truncatePage ≠ none := by
  unfold krSetsize
  cases refusesSize fs.sbi.sBlocksize (fs.inode ino) with
  | some e => simp
  | none =>
    cases env.truncatePage with
    | some e => simp
    | none => simp

/-- Some owner is new just when `dquot_transfer` is called. -/
theorem newOwner_iff {inode : Inode} : (∃ type, attr.newOwner inode type ≠ none) ↔
    ((attr.has ATTR_UID && attr.iaUid != inode.iUid) ||
      (attr.has ATTR_GID && attr.iaGid != inode.iGid)) = true := by
  rw [Bool.or_eq_true]
  constructor
  · rintro ⟨type, h⟩
    cases type with
    | usr => exact Or.inl (by by_contra hno; exact h (if_neg hno))
    | grp => exact Or.inr (by by_contra hno; exact h (if_neg hno))
  · rintro (h | h)
    · exact ⟨.usr, by simp [Iattr.newOwner, h]⟩
    · exact ⟨.grp, by simp [Iattr.newOwner, h]⟩

theorem newOwner_ne {inode : Inode} {type : QuotaType} {id : UInt32}
    (h : attr.newOwner inode type = some id) : id ≠ inode.owner type := by
  cases type with
  | usr =>
    simp only [Iattr.newOwner, Option.ite_none_right_eq_some, Bool.and_eq_true, bne_iff_ne,
      Option.some.injEq] at h
    exact h.2 ▸ h.1.2
  | grp =>
    simp only [Iattr.newOwner, Option.ite_none_right_eq_some, Bool.and_eq_true, bne_iff_ne,
      Option.some.injEq] at h
    exact h.2 ▸ h.1.2

theorem quotaReady_account (lawful : quota.Lawful) (inode : Inode) :
    quota.account (quotaReady quota env ino q inode attr).2 = quota.account q := by
  unfold quotaReady
  split
  · exact lawful.init_keeps q ino
  · rfl

/-- A change that fails leaves the inode and its blocks as they were. -/
theorem SetattrKept.of_charged {q' : Q} (h : quota.Charged q' ino (fs.inode ino)) :
    SetattrKept quota ino fs q' fs :=
  ⟨rfl, rfl, rfl, ⟨rfl, rfl⟩, h⟩

/-- Where `dquot_transfer` has succeeded, the usage is with the old owners just when
none of the new ones has a quota. -/
theorem charged_transfer_iff (lawful : quota.Lawful) {inode : Inode}
    (hcharged : quota.Charged q ino inode)
    (hmoved : (quota.dquotTransfer q ino inode attr).1 = none) :
    quota.Charged (quota.dquotTransfer q ino inode attr).2 ino inode ↔
      ¬ ∃ type, quota.account q ino type ≠ none ∧ attr.newOwner inode type ≠ none := by
  have htransfer := lawful.transfer q ino inode attr hmoved
  constructor
  · rintro hafter ⟨type, haccount, hnew⟩
    obtain ⟨old, hold⟩ := Option.ne_none_iff_exists'.mp haccount
    obtain ⟨id, hid⟩ := Option.ne_none_iff_exists'.mp hnew
    have hcharge := hafter type id (by rw [htransfer, hold, hid]; rfl)
    exact newOwner_ne hid hcharge
  · intro hnone type id hid
    rw [htransfer] at hid
    obtain ⟨old, hold, rfl⟩ := Option.map_eq_some_iff.mp hid
    cases hnew : attr.newOwner inode type with
    | none => exact hcharged type old hold
    | some new => exact absurd ⟨type, by rw [hold]; simp, by rw [hnew]; simp⟩ hnone

/-- The part of a call up to `setattr_copy`: when it fails, the file system is as it
was, and the usage of the inode is charged to its owners, just when it does not drift. -/
theorem setattrCharge_keeps_iff (lawful : quota.Lawful)
    (hcharged : quota.Charged q ino (fs.inode ino)) :
    (∀ err, (setattrCharge quota ops env ino q fs attr).2.2 = some err →
      SetattrKept quota ino fs (setattrCharge quota ops env ino q fs attr).1
        (setattrCharge quota ops env ino q fs attr).2.1) ↔
      ¬ SetattrDrifts quota env ino q fs attr := by
  have haccount : ∀ {q'}, quota.account q' = quota.account q →
      quota.Charged q' ino (fs.inode ino) := by
    intro q' h type id hid
    rw [h] at hid
    exact hcharged type id hid
  have hready := @quotaReady_account Q quota env ino q attr lawful (fs.inode ino)
  unfold setattrCharge
  dsimp only
  cases hinit : quotaReady quota env ino q (fs.inode ino) attr with
  | mk result q1 =>
    rw [hinit] at hready
    cases result with
    | some err =>
      refine iff_of_true (fun err' _ => .of_charged (haccount hready)) fun hdrifts => ?_
      have hnone := hdrifts.initialized
      rw [hinit] at hnone
      cases hnone
    | none =>
      have hcharged1 := haccount hready
      dsimp only at hready ⊢
      by_cases howner : ((attr.has ATTR_UID && attr.iaUid != (fs.inode ino).iUid) ||
          (attr.has ATTR_GID && attr.iaGid != (fs.inode ino).iGid)) = true
      · rw [if_pos howner]
        cases htransfer : quota.dquotTransfer q1 ino (fs.inode ino) attr with
        | mk result q2 =>
          cases result with
          | some err =>
            have hsame := lawful.transfer_error q1 ino (fs.inode ino) attr err (by rw [htransfer])
            rw [htransfer] at hsame
            refine iff_of_true (fun err' _ => .of_charged (haccount (hsame.trans hready)))
              fun hdrifts => ?_
            have hnone := hdrifts.transferred
            rw [hinit, htransfer] at hnone
            cases hnone
          | none =>
            have hiff := charged_transfer_iff lawful hcharged1 (by rw [htransfer])
            rw [htransfer, hready] at hiff
            dsimp only at hiff ⊢
            by_cases hsize : (attr.has ATTR_SIZE && attr.iaSize != (fs.inode ino).iSize) = true
            · rw [if_pos hsize]
              simp only [Bool.and_eq_true, bne_iff_ne] at hsize
              cases hset : (krSetsize ops env ino fs attr.iaSize).2 with
              | none =>
                refine iff_of_true (fun err herr => by cases herr) fun hdrifts => ?_
                exact krSetsize_fails_iff.mpr hdrifts.refused hset
              | some err =>
                have hfs := krSetsize_error hset
                have hrefused := krSetsize_fails_iff.mp (by rw [hset]; simp)
                dsimp only
                rw [hfs]
                constructor
                · intro hkept hdrifts
                  exact hiff.mp (hkept err rfl).charged hdrifts.moved
                · intro hnot err' _
                  refine .of_charged (hiff.mpr fun hmoved => hnot ⟨?_, ?_, hmoved, hsize, hrefused⟩)
                  · rw [hinit]
                  · rw [hinit, htransfer]
            · rw [if_neg hsize]
              refine iff_of_true (fun err herr => by cases herr) fun hdrifts => hsize ?_
              simpa only [Bool.and_eq_true, bne_iff_ne] using hdrifts.resized
      · -- no owner changes, and no usage is moved
        rw [if_neg howner]
        have hnot : ¬ SetattrDrifts quota env ino q fs attr := fun hdrifts => by
          obtain ⟨type, -, hnew⟩ := hdrifts.moved
          exact howner (newOwner_iff.mp ⟨type, hnew⟩)
        refine iff_of_true (fun err herr => ?_) hnot
        dsimp only at herr ⊢
        split at herr
        · rename_i hsize
          rw [if_pos hsize]
          dsimp only at herr ⊢
          rw [krSetsize_error herr]
          exact .of_charged hcharged1
        · cases herr

/-- A call of `kr_setattr` that fails in `dquot_initialize`, `dquot_transfer` or
`kr_setsize` leaves owner, mode, size and block map of the inode as they were, and its
usage charged to its owners, just when the call does not drift. -/
theorem krSetattr_keeps_iff (lawful : quota.Lawful)
    (hcharged : quota.Charged q ino (fs.inode ino)) (hprepare : env.prepare = .ok attr) :
    (∀ err, (setattrCharge quota ops env ino q fs attr).2.2 = some err →
      (krSetattr quota ops env ino q fs).2.2 = some err ∧
      SetattrKept quota ino fs (krSetattr quota ops env ino q fs).1
        (krSetattr quota ops env ino q fs).2.1) ↔
      ¬ SetattrDrifts quota env ino q fs attr := by
  rw [← @setattrCharge_keeps_iff Q quota ops env ino q fs attr lawful hcharged]
  refine forall_congr' fun err => forall_congr' fun herr => ?_
  have hcall : krSetattr quota ops env ino q fs = setattrCharge quota ops env ino q fs attr := by
    unfold krSetattr
    rw [hprepare]
    dsimp only
    generalize setattrCharge quota ops env ino q fs attr = r at herr ⊢
    obtain ⟨q', fs', result⟩ := r
    cases herr
    rfl
  rw [hcall]
  exact ⟨fun h => h.2, fun h => ⟨herr, h⟩⟩

end Fails

/-- Quota code that keeps a table of the accounts. -/
def tableQuota : QuotaOps (Nat → QuotaType → Option UInt32) where
  account q := q
  dquotInitialize q _ := (none, q)
  dquotTransfer q ino inode attr :=
    (none, Function.update q ino fun type =>
      (q ino type).map fun old => (attr.newOwner inode type).getD old)

theorem tableQuota_lawful : tableQuota.Lawful := by
  refine ⟨fun _ _ => rfl, fun q ino inode attr err h => ?_, fun q ino inode attr _ type => ?_⟩
  · cases h
  · simp [tableQuota]

/-- A file of user 1000. -/
def ownedFs : Fs :=
  { reserveFs with
    inode := fun _ =>
      { Inode.blank with
        iMode := 0x81A4
        iUid := 1000
        iGid := 1000
        iSize := 1500 } }

/-- A change of its owner, its size or both, in which the last page cannot be read. -/
def failingEnv (valid : UInt32) : SetattrEnv where
  prepare := .ok ⟨valid, 0, 1001, 1001, 100⟩
  isQuotaModification := fun _ _ => true
  truncatePage := some .eio
  trunc := ⟨fun _ => true, fun _ => true, fun _ => true⟩
  setattrCopy := fun inode _ => inode
  posixAclChmod := none
  now := 0

theorem tableQuota_charged :
    tableQuota.Charged (fun _ _ => some 1000) 12 (ownedFs.inode 12) := by
  intro type id h
  cases h
  cases type with
  | usr => rfl
  | grp => rfl

/-- A change of the size alone. -/
theorem krSetattr_keeps_iff_size :
    let r := krSetattr tableQuota Rebalance.plain (failingEnv ATTR_SIZE) 12
      (fun _ _ => some 1000) ownedFs
    r.2.2 = some .eio ∧ SetattrKept tableQuota 12 ownedFs r.1 r.2.1 := by
  refine (krSetattr_keeps_iff tableQuota_lawful tableQuota_charged rfl).mpr ?_ .eio (by decide)
  rintro ⟨-, -, ⟨type, -, hnew⟩, -, -⟩
  cases type with
  | usr => exact hnew (by decide)
  | grp => exact hnew (by decide)

/-- A change of owner and size: the call fails, the file still belongs to user 1000, and
user 1001 is charged for it. -/
theorem krSetattr_drifts_chown :
    let r := krSetattr tableQuota Rebalance.plain (failingEnv (ATTR_UID ||| ATTR_SIZE)) 12
      (fun _ _ => some 1000) ownedFs
    r.2.2 = some .eio ∧ (r.2.1.inode 12).iUid = 1000 ∧
      tableQuota.account r.1 12 .usr = some 1001 ∧
      ¬ SetattrKept tableQuota 12 ownedFs r.1 r.2.1 := by
  intro r
  have herr : r.2.2 = some .eio := by decide
  have howner : (r.2.1.inode 12).iUid = 1000 := by decide
  have haccount : tableQuota.account r.1 12 .usr = some 1001 := by decide
  refine ⟨herr, howner, haccount, fun hkept => ?_⟩
  have hcharge := hkept.charged .usr 1001 haccount
  rw [show (r.2.1.inode 12).owner .usr = 1000 from howner] at hcharge
  exact absurd hcharge (by decide)

end KrFs
