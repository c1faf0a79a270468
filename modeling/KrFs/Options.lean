import KrFs.Lib.Flags
import KrFs.MatchToken

/-!
# Mount options

The option code of `super.c`: the defaults that `kr_fill_super` takes from the
superblock, `get_sb_block`, `parse_options` and `kr_show_options`. Messages are
left out. User and group identifiers are those of the initial user namespace,
where `make_kuid` fails for -1 only. The text that is shown starts with a comma,
since `/proc/mounts` appends it to the generic options; the option string is what
follows this comma.
-/

namespace KrFs

open Flags

/-- The build options that the code depends on. -/
structure KrConfig where
  posixAcl : Bool
  quota : Bool

/-- The bits of `s_mount_opt`. -/
inductive MountOpt where
  | check | oldalloc | grpid | debug | errorsCont | errorsRo | errorsPanic | minixDf | nobh
  | noUid32 | xattrUser | posixAcl | xip | usrquota | grpquota | reservation
deriving DecidableEq

/-- The constants `KR_MOUNT_*`. -/
def MountOpt.mask : MountOpt → BitVec 64
  | .check => 0x000001
  | .oldalloc => 0x000002
  | .grpid => 0x000004
  | .debug => 0x000008
  | .errorsCont => 0x000010
  | .errorsRo => 0x000020
  | .errorsPanic => 0x000040
  | .minixDf => 0x000080
  | .nobh => 0x000100
  | .noUid32 => 0x000200
  | .xattrUser => 0x004000
  | .posixAcl => 0x008000
  | .xip => 0x010000
  | .usrquota => 0x020000
  | .grpquota => 0x040000
  | .reservation => 0x080000

/-- `s_mount_opt` as a word of flags. -/
def mountOpts : Layout MountOpt 64 where
  mask := MountOpt.mask
  bit := fun f => Nat.log2 (MountOpt.mask f).toNat
  bit_lt := by intro f; cases f <;> decide
  bit_inj := by intro f g; cases f <;> cases g <;> decide
  mask_eq := by intro f; cases f <;> decide

/-- `struct kr_mount_options`: what `parse_options` may change. -/
structure MountOptions where
  sMountOpt : BitVec 64
  sResuid : UInt32
  sResgid : UInt32
deriving DecidableEq

namespace MountOptions

def setOpt (o : MountOptions) (f : MountOpt) : MountOptions :=
  { o with sMountOpt := mountOpts.set o.sMountOpt f }

def clearOpt (o : MountOptions) (f : MountOpt) : MountOptions :=
  { o with sMountOpt := mountOpts.clear o.sMountOpt f }

def testOpt (o : MountOptions) (f : MountOpt) : Bool := mountOpts.test o.sMountOpt f

def setResuid (o : MountOptions) (uid : UInt32) : MountOptions := { o with sResuid := uid }

def setResgid (o : MountOptions) (gid : UInt32) : MountOptions := { o with sResgid := gid }

end MountOptions

/-- The fields of the superblock that hold defaults. -/
structure MountDefaults where
  sDefaultMountOpts : UInt32
  sErrors : UInt16
  sDefResuid : UInt16
  sDefResgid : UInt16

def KR_DEFM_DEBUG : UInt32 := 0x0001
def KR_DEFM_BSDGROUPS : UInt32 := 0x0002
def KR_DEFM_ACL : UInt32 := 0x0008
def KR_DEFM_UID16 : UInt32 := 0x0010
def KR_ERRORS_CONTINUE : UInt16 := 1
def KR_ERRORS_PANIC : UInt16 := 3
def KR_DEF_RESUID : Nat := 0
def KR_DEF_RESGID : Nat := 0

/-- A default option of the superblock. -/
def MountDefaults.defm (es : MountDefaults) (mask : UInt32) : Bool :=
  es.sDefaultMountOpts &&& mask != 0

/-- The part of `kr_fill_super` that sets the options before they are parsed. -/
def defaultOptions (config : KrConfig) (es : MountDefaults) : MountOptions :=
  let o : MountOptions := ⟨0, es.sDefResuid.toUInt32, es.sDefResgid.toUInt32⟩
  let o := if es.defm KR_DEFM_DEBUG then o.setOpt .debug else o
  let o := if es.defm KR_DEFM_BSDGROUPS then o.setOpt .grpid else o
  let o := if es.defm KR_DEFM_UID16 then o.setOpt .noUid32 else o
  let o := if config.posixAcl && es.defm KR_DEFM_ACL then o.setOpt .posixAcl else o
  let o := if es.sErrors = KR_ERRORS_PANIC then o.setOpt .errorsPanic
    else if es.sErrors = KR_ERRORS_CONTINUE then o.setOpt .errorsCont
    else o.setOpt .errorsRo
  o.setOpt .reservation

/-- `get_sb_block`: the superblock to read and the options that are left. -/
def getSbBlock (data : List Char) : Nat × List Char :=
  if "sb=".toList.isPrefixOf data then
    match simpleStrtoul (data.drop 3) with
    | (sbBlock, []) => (sbBlock, [])
    | (sbBlock, c :: rest) => if c = ',' then (sbBlock, rest) else (1, data)
  else (1, data)

/-- The tokens of the option table. -/
inductive Opt where
  | bsdDf | minixDf | grpid | nogrpid | resgid | resuid | sb | errCont | errPanic | errRo | nouid32
  | nocheck | debug | oldalloc | orlov | nobh | userXattr | nouserXattr | acl | noacl | xip | dax
  | ignore | err | quota | usrquota | grpquota | reservation | noreservation
deriving DecidableEq

/-- The table `tokens`. -/
def tokens : List (Opt × List Char) :=
  [(.bsdDf, "bsddf".toList), (.minixDf, "minixdf".toList), (.grpid, "grpid".toList),
    (.grpid, "bsdgroups".toList), (.nogrpid, "nogrpid".toList), (.nogrpid, "sysvgroups".toList),
    (.resgid, "resgid=%u".toList), (.resuid, "resuid=%u".toList), (.sb, "sb=%u".toList),
    (.errCont, "errors=continue".toList), (.errPanic, "errors=panic".toList),
    (.errRo, "errors=remount-ro".toList), (.nouid32, "nouid32".toList),
    (.nocheck, "check=none".toList), (.nocheck, "nocheck".toList), (.debug, "debug".toList),
    (.oldalloc, "oldalloc".toList), (.orlov, "orlov".toList), (.nobh, "nobh".toList),
    (.userXattr, "user_xattr".toList), (.nouserXattr, "nouser_xattr".toList),
    (.acl, "acl".toList), (.noacl, "noacl".toList), (.xip, "xip".toList), (.dax, "dax".toList),
    (.grpquota, "grpquota".toList), (.ignore, "noquota".toList), (.quota, "quota".toList),
    (.usrquota, "usrquota".toList), (.reservation, "reservation".toList),
    (.noreservation, "noreservation".toList)]

/-- `make_kuid` and `make_kgid` of an `int`; -1 is not valid. -/
def makeKid (option : Int) : Option UInt32 :=
  let id := UInt32.ofInt option
  if id = 0xFFFFFFFF then none else some id

/-- The number of a `resuid=` or `resgid=`. -/
def matchKid (args : List (List Char)) : Option UInt32 :=
  (matchInt (args.headD [])).bind makeKid

/-- The cases of `parse_options`; `none` is the return of 0. -/
def parseToken (config : KrConfig) (o : MountOptions) (args : List (List Char)) :
    Opt → Option MountOptions
  | .bsdDf => some (o.clearOpt .minixDf)
  | .minixDf => some (o.setOpt .minixDf)
  | .grpid => some (o.setOpt .grpid)
  | .nogrpid => some (o.clearOpt .grpid)
  | .resuid => (matchKid args).map o.setResuid
  | .resgid => (matchKid args).map o.setResgid
  | .sb => some o
  | .errPanic => some (((o.clearOpt .errorsCont).clearOpt .errorsRo).setOpt .errorsPanic)
  | .errRo => some (((o.clearOpt .errorsCont).clearOpt .errorsPanic).setOpt .errorsRo)
  | .errCont => some (((o.clearOpt .errorsRo).clearOpt .errorsPanic).setOpt .errorsCont)
  | .nouid32 => some (o.setOpt .noUid32)
  | .nocheck => some (o.clearOpt .check)
  | .debug => some (o.setOpt .debug)
  | .oldalloc => some (o.setOpt .oldalloc)
  | .orlov => some (o.clearOpt .oldalloc)
  | .nobh => some (o.setOpt .nobh)
  | .userXattr | .nouserXattr => some o
  | .acl => some (if config.posixAcl then o.setOpt .posixAcl else o)
  | .noacl => some (if config.posixAcl then o.clearOpt .posixAcl else o)
  | .xip => some (o.setOpt .xip)
  | .dax => some o
  | .quota | .usrquota => some (if config.quota then o.setOpt .usrquota else o)
  | .grpquota => some (if config.quota then o.setOpt .grpquota else o)
  | .reservation => some (o.setOpt .reservation)
  | .noreservation => some (o.clearOpt .reservation)
  | .ignore => some o
  | .err => none

/-- One round of the loop of `parse_options`. -/
def parseOption (config : KrConfig) (o : MountOptions) (p : List Char) : Option MountOptions :=
  if p = [] then some o
  else parseToken config o (matchToken .err tokens p).2 (matchToken .err tokens p).1

/-- `parse_options`. -/
def parseOptions (config : KrConfig) (o : MountOptions) (options : List Char) :
    Option MountOptions :=
  (options.splitOn ',').foldlM (parseOption config) o

/-- The options of a mount: `get_sb_block` and `parse_options` over the defaults. -/
def mountWith (config : KrConfig) (es : MountDefaults) (data : List Char) :
    Option (Nat × MountOptions) :=
  (parseOptions config (defaultOptions config es) (getSbBlock data).2).map fun o =>
    ((getSbBlock data).1, o)

/-- One option of the text if the condition holds. -/
def shown (c : Bool) (option : List Char) : List (List Char) := if c then [option] else []

@[simp] theorem shown_true (option : List Char) : shown true option = [option] := rfl

@[simp] theorem shown_false (option : List Char) : shown false option = [] := rfl

/-- The options that `kr_show_options` prints after the superblock, in its order. -/
def shownOptions (config : KrConfig) (es : MountDefaults) (o : MountOptions) :
    List (List Char) :=
  shown (o.testOpt .minixDf) "minixdf".toList ++
  shown (o.testOpt .grpid) "grpid".toList ++
  shown (!o.testOpt .grpid && es.defm KR_DEFM_BSDGROUPS) "nogrpid".toList ++
  shown (o.sResuid.toNat != KR_DEF_RESUID || es.sDefResuid.toNat != KR_DEF_RESUID)
    ("resuid=".toList ++ Nat.toDigits 10 o.sResuid.toNat) ++
  shown (o.sResgid.toNat != KR_DEF_RESGID || es.sDefResgid.toNat != KR_DEF_RESGID)
    ("resgid=".toList ++ Nat.toDigits 10 o.sResgid.toNat) ++
  shown (o.testOpt .errorsRo && (es.sErrors == KR_ERRORS_PANIC || es.sErrors == KR_ERRORS_CONTINUE))
    "errors=remount-ro".toList ++
  shown (o.testOpt .errorsCont) "errors=continue".toList ++
  shown (o.testOpt .errorsPanic) "errors=panic".toList ++
  shown (o.testOpt .noUid32) "nouid32".toList ++
  shown (o.testOpt .debug) "debug".toList ++
  shown (o.testOpt .oldalloc) "oldalloc".toList ++
  shown (config.posixAcl && o.testOpt .posixAcl) "acl".toList ++
  shown (config.posixAcl && (!o.testOpt .posixAcl && es.defm KR_DEFM_ACL)) "noacl".toList ++
  shown (o.testOpt .nobh) "nobh".toList ++
  shown (config.quota && o.testOpt .usrquota) "usrquota".toList ++
  shown (config.quota && o.testOpt .grpquota) "grpquota".toList ++
  shown (!o.testOpt .reservation) "noreservation".toList

/-- `kr_show_options`. -/
def krShowOptions (config : KrConfig) (es : MountDefaults) (sSbBlock : Nat) (o : MountOptions) :
    List Char :=
  (shown (sSbBlock != 1) ("sb=".toList ++ Nat.toDigits 10 sSbBlock) ++
    shownOptions config es o).flatMap fun option => ',' :: option

/-! ## What parsing keeps -/

section Parse

variable {config : KrConfig} {es : MountDefaults} {o o' : MountOptions}

@[simp] theorem testOpt_setOpt (o : MountOptions) (f g : MountOpt) :
    (o.setOpt f).testOpt g = (o.testOpt g || decide (f = g)) :=
  mountOpts.test_set o.sMountOpt f g

@[simp] theorem testOpt_clearOpt (o : MountOptions) (f g : MountOpt) :
    (o.clearOpt f).testOpt g = (o.testOpt g && !decide (f = g)) :=
  mountOpts.test_clear o.sMountOpt f g

/-- The errors behaviours that are set. -/
def MountOptions.behaviours (o : MountOptions) : Nat :=
  (o.testOpt .errorsCont).toNat + (o.testOpt .errorsRo).toNat + (o.testOpt .errorsPanic).toNat

/-- What holds of the options at any time: exactly one errors behaviour, no bit that
the build or the source has no option for, and of the defaults those that no
option clears. -/
structure MountOptions.Ok (config : KrConfig) (es : MountDefaults) (o : MountOptions) : Prop where
  within : mountOpts.Within o.sMountOpt
  one : o.behaviours = 1
  unused : o.testOpt .check = false ∧ o.testOpt .xattrUser = false
  debug : es.defm KR_DEFM_DEBUG = true → o.testOpt .debug = true
  noUid32 : es.defm KR_DEFM_UID16 = true → o.testOpt .noUid32 = true
  posixAcl : config.posixAcl = false → o.testOpt .posixAcl = false
  quota : config.quota = false → o.testOpt .usrquota = false ∧ o.testOpt .grpquota = false

/-- The flags of the defaults. -/
theorem testOpt_default (config : KrConfig) (es : MountDefaults) (f : MountOpt) :
    (defaultOptions config es).testOpt f = match f with
      | .debug => es.defm KR_DEFM_DEBUG
      | .grpid => es.defm KR_DEFM_BSDGROUPS
      | .noUid32 => es.defm KR_DEFM_UID16
      | .posixAcl => config.posixAcl && es.defm KR_DEFM_ACL
      | .errorsPanic => es.sErrors == KR_ERRORS_PANIC
      | .errorsCont => es.sErrors != KR_ERRORS_PANIC && es.sErrors == KR_ERRORS_CONTINUE
      | .errorsRo => es.sErrors != KR_ERRORS_PANIC && es.sErrors != KR_ERRORS_CONTINUE
      | .reservation => true
      | _ => false := by
  have hzero : ∀ f, (⟨0#64, es.sDefResuid.toUInt32, es.sDefResgid.toUInt32⟩ :
      MountOptions).testOpt f = false := fun f => mountOpts.test_zero f
  have hdiffer : ¬ KR_ERRORS_CONTINUE = KR_ERRORS_PANIC := by decide
  unfold defaultOptions
  by_cases hpanic : es.sErrors = KR_ERRORS_PANIC
  · cases f <;> simp [apply_ite MountOptions.testOpt, ite_apply, hzero, hpanic]
  · by_cases hcont : es.sErrors = KR_ERRORS_CONTINUE
    · have hnot : (KR_ERRORS_CONTINUE == KR_ERRORS_PANIC) = false := by decide
      cases f <;> simp [apply_ite MountOptions.testOpt, ite_apply, hzero, hcont, hdiffer, hnot, bne]
    · cases f <;> simp [apply_ite MountOptions.testOpt, ite_apply, hzero, hpanic, hcont]

theorem MountOptions.behaviours_setOpt (o : MountOptions) {f : MountOpt}
    (hf : f ≠ .errorsCont ∧ f ≠ .errorsRo ∧ f ≠ .errorsPanic) :
    (o.setOpt f).behaviours = o.behaviours := by
  simp [MountOptions.behaviours, hf]

theorem MountOptions.behaviours_clearOpt (o : MountOptions) {f : MountOpt}
    (hf : f ≠ .errorsCont ∧ f ≠ .errorsRo ∧ f ≠ .errorsPanic) :
    (o.clearOpt f).behaviours = o.behaviours := by
  simp [MountOptions.behaviours, hf]

/-- The bits that a single option may set. -/
def MountOpt.Settable (config : KrConfig) : MountOpt → Prop
  | .check | .xattrUser | .errorsCont | .errorsRo | .errorsPanic => False
  | .posixAcl => config.posixAcl = true
  | .usrquota | .grpquota => config.quota = true
  | _ => True

/-- The bits that a single option may clear. -/
def MountOpt.Clearable : MountOpt → Prop
  | .debug | .noUid32 | .errorsCont | .errorsRo | .errorsPanic => False
  | _ => True

theorem MountOptions.Ok.setOpt (h : o.Ok config es) {f : MountOpt} (hf : f.Settable config) :
    (o.setOpt f).Ok config es := by
  have herrors : f ≠ .errorsCont ∧ f ≠ .errorsRo ∧ f ≠ .errorsPanic := by
    refine ⟨?_, ?_, ?_⟩ <;> rintro rfl <;> exact hf
  have hunused : f ≠ .check ∧ f ≠ .xattrUser := by
    refine ⟨?_, ?_⟩ <;> rintro rfl <;> exact hf
  refine ⟨h.within.set f, ?_, ?_, fun hd => ?_, fun hd => ?_, fun hacl => ?_, fun hq => ?_⟩
  · rw [o.behaviours_setOpt herrors]
    exact h.one
  · simp [h.unused, hunused]
  · simp [h.debug hd]
  · simp [h.noUid32 hd]
  · have hne : f ≠ .posixAcl := by
      rintro rfl
      simp [MountOpt.Settable, hacl] at hf
    simp [h.posixAcl hacl, hne]
  · have hne : f ≠ .usrquota ∧ f ≠ .grpquota := by
      refine ⟨?_, ?_⟩ <;> rintro rfl <;> simp [MountOpt.Settable, hq] at hf
    simp [h.quota hq, hne]

theorem MountOptions.Ok.clearOpt (h : o.Ok config es) {f : MountOpt} (hf : f.Clearable) :
    (o.clearOpt f).Ok config es := by
  have herrors : f ≠ .errorsCont ∧ f ≠ .errorsRo ∧ f ≠ .errorsPanic := by
    refine ⟨?_, ?_, ?_⟩ <;> rintro rfl <;> exact hf
  have hkept : f ≠ .debug ∧ f ≠ .noUid32 := by
    refine ⟨?_, ?_⟩ <;> rintro rfl <;> exact hf
  refine ⟨h.within.clear f, ?_, ?_, fun hd => ?_, fun hd => ?_, fun hacl => ?_, fun hq => ?_⟩
  · rw [o.behaviours_clearOpt herrors]
    exact h.one
  · simp [h.unused]
  · simp [h.debug hd, hkept]
  · simp [h.noUid32 hd, hkept]
  · simp [h.posixAcl hacl]
  · simp [h.quota hq]

/-- An `errors=` option clears the two other behaviours. -/
theorem MountOptions.Ok.behaviour (h : o.Ok config es) {a b c : MountOpt}
    (hall : [a, b, c].Perm [.errorsCont, .errorsRo, .errorsPanic]) :
    (((o.clearOpt a).clearOpt b).setOpt c).Ok config es := by
  have hmem : ∀ f, f ∈ [a, b, c] ↔ f ∈ [MountOpt.errorsCont, .errorsRo, .errorsPanic] :=
    fun f => hall.mem_iff
  have hother : ∀ f, f ∉ [MountOpt.errorsCont, .errorsRo, .errorsPanic] →
      (((o.clearOpt a).clearOpt b).setOpt c).testOpt f = o.testOpt f := by
    intro f hf
    rw [← hmem] at hf
    simp only [List.mem_cons, List.not_mem_nil, or_false, not_or] at hf
    simp [Ne.symm hf.1, Ne.symm hf.2.1, Ne.symm hf.2.2]
  refine ⟨((h.within.clear a).clear b).set c, ?_, ?_, fun hd => ?_, fun hd => ?_, fun hacl => ?_,
    fun hq => ?_⟩
  · have hsum : (((o.clearOpt a).clearOpt b).setOpt c).behaviours = ([a, b, c].map fun f =>
        ((((o.clearOpt a).clearOpt b).setOpt c).testOpt f).toNat).sum := by
      rw [(hall.map _).sum_nat]
      simp [MountOptions.behaviours, Nat.add_assoc]
    have hnd : [a, b, c].Nodup := hall.nodup_iff.mpr (by decide)
    simp only [List.nodup_cons, List.mem_cons, List.not_mem_nil, or_false, not_or] at hnd
    rw [hsum]
    simp [Ne.symm hnd.1.1, Ne.symm hnd.1.2, Ne.symm hnd.2.1, hnd.1.1]
  · rw [hother _ (by decide), hother _ (by decide)]
    exact h.unused
  · rw [hother _ (by decide)]
    exact h.debug hd
  · rw [hother _ (by decide)]
    exact h.noUid32 hd
  · rw [hother _ (by decide)]
    exact h.posixAcl hacl
  · rw [hother _ (by decide), hother _ (by decide)]
    exact h.quota hq

theorem defaultOptions_ok (config : KrConfig) (es : MountDefaults) :
    (defaultOptions config es).Ok config es := by
  refine ⟨?_, ?_, ?_, fun hd => ?_, fun hd => ?_, fun hacl => ?_, fun _ => ?_⟩
  · have hadd : ∀ {x : MountOptions} (c : Bool) (f : MountOpt), mountOpts.Within x.sMountOpt →
        mountOpts.Within (if c then x.setOpt f else x).sMountOpt := by
      intro x c f hx
      split
      · exact hx.set f
      · exact hx
    have hstart : mountOpts.Within (⟨0, es.sDefResuid.toUInt32, es.sDefResgid.toUInt32⟩ :
        MountOptions).sMountOpt := Layout.within_zero
    have hflags := hadd (config.posixAcl && es.defm KR_DEFM_ACL) .posixAcl
      (hadd (es.defm KR_DEFM_UID16) .noUid32 (hadd (es.defm KR_DEFM_BSDGROUPS) .grpid
        (hadd (es.defm KR_DEFM_DEBUG) .debug hstart)))
    unfold defaultOptions
    refine Layout.Within.set ?_ _
    split
    · exact hflags.set _
    split
    · exact hflags.set _
    · exact hflags.set _
  · have hcont := testOpt_default config es .errorsCont
    have hro := testOpt_default config es .errorsRo
    have hpanic := testOpt_default config es .errorsPanic
    dsimp only at hcont hro hpanic
    rw [MountOptions.behaviours, hcont, hro, hpanic, bne, bne]
    cases es.sErrors == KR_ERRORS_PANIC <;> cases es.sErrors == KR_ERRORS_CONTINUE <;> rfl
  · exact ⟨testOpt_default config es .check, testOpt_default config es .xattrUser⟩
  · rw [testOpt_default]
    exact hd
  · rw [testOpt_default]
    exact hd
  · rw [testOpt_default]
    simp [hacl]
  · exact ⟨testOpt_default config es .usrquota, testOpt_default config es .grpquota⟩

/-- Every token keeps the invariant. -/
theorem parseToken_ok (h : o.Ok config es) {args : List (List Char)} {opt : Opt}
    (hparse : parseToken config o args opt = some o') : o'.Ok config es := by
  have hkid : ∀ {uid gid : UInt32}, (⟨o.sMountOpt, uid, gid⟩ : MountOptions).Ok config es :=
    fun {uid gid} => ⟨h.within, h.one, h.unused, h.debug, h.noUid32, h.posixAcl, h.quota⟩
  have hacl : ∀ {x : MountOptions}, (config.posixAcl = true → x.Ok config es) →
      (if config.posixAcl = true then x else o).Ok config es := by
    intro x hx
    split
    · rename_i hon
      exact hx hon
    · exact h
  have hquota : ∀ {x : MountOptions}, (config.quota = true → x.Ok config es) →
      (if config.quota = true then x else o).Ok config es := by
    intro x hx
    split
    · rename_i hon
      exact hx hon
    · exact h
  cases opt with
  | resuid =>
    obtain ⟨uid, -, rfl⟩ := Option.map_eq_some_iff.mp hparse
    exact hkid
  | resgid =>
    obtain ⟨gid, -, rfl⟩ := Option.map_eq_some_iff.mp hparse
    exact hkid
  | err => cases hparse
  | errCont => cases hparse; exact h.behaviour (by decide)
  | errPanic => cases hparse; exact h.behaviour (by decide)
  | errRo => cases hparse; exact h.behaviour (by decide)
  | acl => cases hparse; exact hacl fun hon => h.setOpt hon
  | noacl => cases hparse; exact hacl fun _ => h.clearOpt trivial
  | quota => cases hparse; exact hquota fun hon => h.setOpt hon
  | usrquota => cases hparse; exact hquota fun hon => h.setOpt hon
  | grpquota => cases hparse; exact hquota fun hon => h.setOpt hon
  | bsdDf => cases hparse; exact h.clearOpt trivial
  | nogrpid => cases hparse; exact h.clearOpt trivial
  | nocheck => cases hparse; exact h.clearOpt trivial
  | orlov => cases hparse; exact h.clearOpt trivial
  | noreservation => cases hparse; exact h.clearOpt trivial
  | minixDf => cases hparse; exact h.setOpt trivial
  | grpid => cases hparse; exact h.setOpt trivial
  | nouid32 => cases hparse; exact h.setOpt trivial
  | debug => cases hparse; exact h.setOpt trivial
  | oldalloc => cases hparse; exact h.setOpt trivial
  | nobh => cases hparse; exact h.setOpt trivial
  | xip => cases hparse; exact h.setOpt trivial
  | reservation => cases hparse; exact h.setOpt trivial
  | sb => cases hparse; exact h
  | userXattr => cases hparse; exact h
  | nouserXattr => cases hparse; exact h
  | dax => cases hparse; exact h
  | ignore => cases hparse; exact h

/-- A property that each round keeps holds after a loop that succeeds. -/
theorem foldlM_ok {α β : Type} {step : α → β → Option α} {P : α → Prop}
    (hstep : ∀ {a b a'}, P a → step a b = some a' → P a') (l : List β) :
    ∀ {a a' : α}, P a → l.foldlM step a = some a' → P a' := by
  induction l with
  | nil =>
    intro a a' ha h
    cases h
    exact ha
  | cons b l ih =>
    intro a a' ha h
    rw [List.foldlM_cons] at h
    obtain ⟨a1, h1, h2⟩ := Option.bind_eq_some_iff.mp h
    exact ih (hstep ha h1) h2

theorem parseOptions_ok (h : o.Ok config es) {options : List Char}
    (hparse : parseOptions config o options = some o') : o'.Ok config es := by
  refine foldlM_ok (fun {a p a'} ha hround => ?_) _ h hparse
  unfold parseOption at hround
  split at hround
  · cases hround
    exact ha
  · exact parseToken_ok ha hround

end Parse

/-! ## Parsing what is shown -/

section Shown

variable {config : KrConfig} {es : MountDefaults}

/-- A token of the text: not empty, without a comma, and not a superblock. -/
def Plain (option : List Char) : Prop :=
  ',' ∉ option ∧ ∃ c rest, option = c :: rest ∧ c ≠ 's'

theorem plain_shown {c : Bool} {option : List Char} (h : Plain option) :
    ∀ p ∈ shown c option, Plain p := by
  intro p hp
  unfold shown at hp
  split at hp
  · rw [List.mem_singleton.mp hp]
    exact h
  · simp at hp

theorem comma_not_mem_toDigits (n : Nat) : ',' ∉ Nat.toDigits 10 n := by
  intro h
  exact absurd (Nat.isDigit_of_mem_toDigits (by omega) (by omega) h) (by decide)

theorem plain_number {name : List Char} (hcomma : ',' ∉ name) {c : Char} {rest : List Char}
    (hname : name = c :: rest) (hs : c ≠ 's') (n : Nat) : Plain (name ++ Nat.toDigits 10 n) := by
  refine ⟨?_, c, rest ++ Nat.toDigits 10 n, by rw [hname]; rfl, hs⟩
  rw [List.mem_append, not_or]
  exact ⟨hcomma, comma_not_mem_toDigits n⟩

theorem shownOptions_plain (o : MountOptions) : ∀ p ∈ shownOptions config es o, Plain p := by
  have hword : ∀ {c : Bool} {option : List Char}, ',' ∉ option → option.head? ≠ some 's' →
      option ≠ [] → ∀ p ∈ shown c option, Plain p := by
    intro c option hcomma hs hne
    obtain ⟨d, rest, rfl⟩ := List.exists_cons_of_ne_nil hne
    exact plain_shown ⟨hcomma, d, rest, rfl, by simpa using hs⟩
  intro p hp
  simp only [shownOptions, List.mem_append] at hp
  rcases hp with ((((((((((((((((hp | hp) | hp) | hp) | hp) | hp) | hp) | hp) | hp) | hp) | hp) | hp) |
    hp) | hp) | hp) | hp) | hp)
  all_goals first
    | exact hword (by decide) (by decide) (by decide) p hp
    | exact plain_shown (plain_number (by decide) rfl (by decide) _) p hp

/-- A text of options without its first comma. -/
theorem drop_flatMap (options : List (List Char)) :
    (options.flatMap fun option => ',' :: option).drop 1 = [','].intercalate options := by
  cases options with
  | nil => rfl
  | cons p options =>
    rw [List.flatMap_cons, List.cons_append, List.drop_succ_cons, List.drop_zero]
    induction options generalizing p with
    | nil => simp [List.intercalate]
    | cons q options ih =>
      rw [List.flatMap_cons, List.cons_append, ih q]
      simp [List.intercalate]

/-- Parsing a text of options takes one option after the other. -/
theorem parseOptions_text (o : MountOptions) {options : List (List Char)}
    (h : ∀ p ∈ options, Plain p) :
    parseOptions config o ((options.flatMap fun option => ',' :: option).drop 1) =
      options.foldlM (parseOption config) o := by
  rw [drop_flatMap, parseOptions]
  by_cases hnil : options = []
  · subst hnil
    rfl
  · rw [List.splitOn_intercalate ',' (fun p hp => (h p hp).1) hnil]

theorem makeKid_toNat {id : UInt32} (h : id.toNat < 2 ^ 31) : makeKid id.toNat = some id := by
  have hid : UInt32.ofInt id.toNat = id := by
    unfold UInt32.ofInt
    apply UInt32.toNat_inj.mp
    have := id.toNat_lt
    simp
    omega
  have hne : id ≠ 0xFFFFFFFF := by
    rintro rfl
    exact absurd h (by decide)
  simp only [makeKid, hid, hne, if_false]

/-- The option of a table entry that ends in a number. -/
theorem parseOption_number {name : List Char} {opt : Opt} {front back : List (Opt × List Char)}
    (htable : tokens = front ++ (opt, name ++ ['%', 'u']) :: back) (hne : name ≠ [])
    (hname : '%' ∉ name) {n : Nat} (hn : n < 2 ^ 64)
    (hfront : ∀ e ∈ front, matchOne e.2 (name ++ Nat.toDigits 10 n) = none) (d : MountOptions) :
    parseOption config d (name ++ Nat.toDigits 10 n) =
      parseToken config d [Nat.toDigits 10 n] opt := by
  have hmatch : matchToken .err tokens (name ++ Nat.toDigits 10 n) = (opt, [Nat.toDigits 10 n]) := by
    rw [htable]
    exact matchToken_append hfront (matchOne_number name hname hn)
  rw [parseOption, if_neg (by simp [hne]), hmatch]

theorem matchKid_toNat {id : UInt32} (h : id.toNat < 2 ^ 31) :
    matchKid [Nat.toDigits 10 id.toNat] = some id := by
  rw [matchKid, List.headD_cons, matchInt_toDigits h]
  exact makeKid_toNat h

theorem parseOption_resuid {uid : UInt32} (h : uid.toNat < 2 ^ 31) (d : MountOptions) :
    parseOption config d ("resuid=".toList ++ Nat.toDigits 10 uid.toNat) =
      some (d.setResuid uid) := by
  have htable : tokens = tokens.take 7 ++ (.resuid, "resuid=".toList ++ ['%', 'u']) ::
    tokens.drop 8 := rfl
  rw [parseOption_number htable (by decide) (by decide) (by omega) ?_]
  · simp [parseToken, matchKid_toNat h]
  · simp only [tokens, List.take_succ_cons, List.take_zero, List.forall_mem_cons]
    exact ⟨rfl, rfl, rfl, rfl, rfl, rfl, rfl, by simp⟩

theorem parseOption_resgid {gid : UInt32} (h : gid.toNat < 2 ^ 31) (d : MountOptions) :
    parseOption config d ("resgid=".toList ++ Nat.toDigits 10 gid.toNat) =
      some (d.setResgid gid) := by
  have htable : tokens = tokens.take 6 ++ (.resgid, "resgid=".toList ++ ['%', 'u']) ::
    tokens.drop 7 := rfl
  rw [parseOption_number htable (by decide) (by decide) (by omega) ?_]
  · simp [parseToken, matchKid_toNat h]
  · simp only [tokens, List.take_succ_cons, List.take_zero, List.forall_mem_cons]
    exact ⟨rfl, rfl, rfl, rfl, rfl, rfl, by simp⟩

/-- An option that is shown under a condition, with what parsing it does. -/
structure ShownOption where
  cond : Bool
  text : List Char
  clears : List MountOpt
  sets : List MountOpt
  resuid : Option UInt32
  resgid : Option UInt32

def ShownOption.change (e : ShownOption) (d : MountOptions) : MountOptions where
  sMountOpt := e.sets.foldl mountOpts.set (e.clears.foldl mountOpts.clear d.sMountOpt)
  sResuid := e.resuid.getD d.sResuid
  sResgid := e.resgid.getD d.sResgid

/-- The options of `kr_show_options` with their meaning. -/
def shownEffects (config : KrConfig) (es : MountDefaults) (o : MountOptions) : List ShownOption :=
  let flags := fun cond text clears sets => ShownOption.mk cond text clears sets none none
  [flags (o.testOpt .minixDf) "minixdf".toList [] [.minixDf],
    flags (o.testOpt .grpid) "grpid".toList [] [.grpid],
    flags (!o.testOpt .grpid && es.defm KR_DEFM_BSDGROUPS) "nogrpid".toList [.grpid] [],
    ⟨o.sResuid.toNat != KR_DEF_RESUID || es.sDefResuid.toNat != KR_DEF_RESUID,
      "resuid=".toList ++ Nat.toDigits 10 o.sResuid.toNat, [], [], some o.sResuid, none⟩,
    ⟨o.sResgid.toNat != KR_DEF_RESGID || es.sDefResgid.toNat != KR_DEF_RESGID,
      "resgid=".toList ++ Nat.toDigits 10 o.sResgid.toNat, [], [], none, some o.sResgid⟩,
    flags (o.testOpt .errorsRo &&
        (es.sErrors == KR_ERRORS_PANIC || es.sErrors == KR_ERRORS_CONTINUE))
      "errors=remount-ro".toList [.errorsCont, .errorsPanic] [.errorsRo],
    flags (o.testOpt .errorsCont) "errors=continue".toList [.errorsRo, .errorsPanic] [.errorsCont],
    flags (o.testOpt .errorsPanic) "errors=panic".toList [.errorsCont, .errorsRo] [.errorsPanic],
    flags (o.testOpt .noUid32) "nouid32".toList [] [.noUid32],
    flags (o.testOpt .debug) "debug".toList [] [.debug],
    flags (o.testOpt .oldalloc) "oldalloc".toList [] [.oldalloc],
    flags (config.posixAcl && o.testOpt .posixAcl) "acl".toList [] [.posixAcl],
    flags (config.posixAcl && (!o.testOpt .posixAcl && es.defm KR_DEFM_ACL)) "noacl".toList
      [.posixAcl] [],
    flags (o.testOpt .nobh) "nobh".toList [] [.nobh],
    flags (config.quota && o.testOpt .usrquota) "usrquota".toList [] [.usrquota],
    flags (config.quota && o.testOpt .grpquota) "grpquota".toList [] [.grpquota],
    flags (!o.testOpt .reservation) "noreservation".toList [.reservation] []]

theorem shownOptions_eq (config : KrConfig) (es : MountDefaults) (o : MountOptions) :
    shownOptions config es o =
      (shownEffects config es o).flatMap fun e => shown e.cond e.text := by
  simp only [shownOptions, shownEffects, List.flatMap_cons, List.flatMap_nil, List.append_nil,
    List.append_assoc]

/-- An option that is shown is parsed to what it means. -/
theorem shownEffects_parse {o : MountOptions} (huid : o.sResuid.toNat < 2 ^ 31)
    (hgid : o.sResgid.toNat < 2 ^ 31) : ∀ e ∈ shownEffects config es o, e.cond = true →
    ∀ d, parseOption config d e.text = some (e.change d) := by
  have built : ∀ {on c : Bool} {x y d : MountOptions}, (on && c) = true →
      some (if on = true then x else y) = some x := by
    intro on c x y _ h
    rw [Bool.and_eq_true] at h
    rw [if_pos h.1]
  simp only [shownEffects, List.forall_mem_cons]
  exact ⟨fun _ _ => rfl, fun _ _ => rfl, fun _ _ => rfl, fun _ => parseOption_resuid huid,
    fun _ => parseOption_resgid hgid, fun _ _ => rfl, fun _ _ => rfl, fun _ _ => rfl,
    fun _ _ => rfl, fun _ _ => rfl, fun _ _ => rfl, fun hc d => built (d := d) hc,
    fun hc d => built (d := d) hc, fun _ _ => rfl, fun hc d => built (d := d) hc,
    fun hc d => built (d := d) hc, fun _ _ => rfl, by simp⟩

/-- Parsing options that are shown under conditions. -/
theorem foldlM_shown (effects : List ShownOption)
    (h : ∀ e ∈ effects, e.cond = true → ∀ d, parseOption config d e.text = some (e.change d)) :
    ∀ d, (effects.flatMap fun e => shown e.cond e.text).foldlM (parseOption config) d =
      some (effects.foldl (fun d e => if e.cond then e.change d else d) d) := by
  induction effects with
  | nil => exact fun _ => rfl
  | cons e effects ih =>
    intro d
    rw [List.forall_mem_cons] at h
    rw [List.flatMap_cons, List.foldlM_append, List.foldl_cons]
    cases hcond : e.cond with
    | true => simp [h.1 hcond, ih h.2]
    | false => simp [ih h.2]

/-- What a run of options does to one flag and to the identifiers. -/
theorem foldl_change (effects : List ShownOption) : ∀ d : MountOptions,
    let d' := effects.foldl (fun d e => if e.cond then e.change d else d) d
    d'.sResuid = effects.foldl (fun uid e => if e.cond then e.resuid.getD uid else uid) d.sResuid ∧
    d'.sResgid = effects.foldl (fun gid e => if e.cond then e.resgid.getD gid else gid) d.sResgid ∧
    ∀ f, d'.testOpt f = effects.foldl (fun b e =>
      if e.cond then b && !decide (f ∈ e.clears) || decide (f ∈ e.sets) else b) (d.testOpt f) := by
  induction effects with
  | nil => exact fun _ => ⟨rfl, rfl, fun _ => rfl⟩
  | cons e effects ih =>
    intro d
    simp only [List.foldl_cons]
    cases e.cond with
    | false => exact ih d
    | true =>
      obtain ⟨huid, hgid, hflag⟩ := ih (e.change d)
      refine ⟨huid, hgid, fun f => ?_⟩
      rw [if_pos rfl, if_pos rfl, hflag f]
      congr 1
      rw [MountOptions.testOpt, ShownOption.change, Layout.test_foldl_set, Layout.test_foldl_clear]
      rfl

theorem MountOptions.behaviours_cases {o : MountOptions} (h : o.behaviours = 1) :
    (o.testOpt .errorsCont = true ∧ o.testOpt .errorsRo = false ∧ o.testOpt .errorsPanic = false) ∨
    (o.testOpt .errorsCont = false ∧ o.testOpt .errorsRo = true ∧ o.testOpt .errorsPanic = false) ∨
    (o.testOpt .errorsCont = false ∧ o.testOpt .errorsRo = false ∧ o.testOpt .errorsPanic = true) := by
  unfold MountOptions.behaviours at h
  revert h
  cases o.testOpt .errorsCont <;> cases o.testOpt .errorsRo <;> cases o.testOpt .errorsPanic <;> simp

/-- The behaviour that is set decides what is shown and what the defaults have. -/
theorem shownEffects_errors {o : MountOptions} (h : o.Ok config es) {f : MountOpt}
    (hf : f = .errorsCont ∨ f = .errorsRo ∨ f = .errorsPanic) :
    (shownEffects config es o).foldl (fun b e =>
      if e.cond then b && !decide (f ∈ e.clears) || decide (f ∈ e.sets) else b)
      ((defaultOptions config es).testOpt f) = o.testOpt f := by
  obtain ⟨hcont, hro, hpanic⟩ | ⟨hcont, hro, hpanic⟩ | ⟨hcont, hro, hpanic⟩ :=
    MountOptions.behaviours_cases h.one
  · rcases hf with rfl | rfl | rfl <;>
      simp [shownEffects, hcont, hro, hpanic]
  · by_cases hp : es.sErrors = KR_ERRORS_PANIC
    · rcases hf with rfl | rfl | rfl <;> simp [shownEffects, hcont, hro, hpanic, hp]
    · by_cases hc : es.sErrors = KR_ERRORS_CONTINUE
      · rcases hf with rfl | rfl | rfl <;> simp [shownEffects, hcont, hro, hpanic, hc]
      · rcases hf with rfl | rfl | rfl <;>
          simp [shownEffects, testOpt_default, hcont, hro, hpanic, hp, hc]
  · rcases hf with rfl | rfl | rfl <;>
      simp [shownEffects, hcont, hro, hpanic]

theorem defaultOptions_resuid (config : KrConfig) (es : MountDefaults) :
    (defaultOptions config es).sResuid = es.sDefResuid.toUInt32 := by
  simp [defaultOptions, apply_ite MountOptions.sResuid, MountOptions.setOpt]

theorem defaultOptions_resgid (config : KrConfig) (es : MountDefaults) :
    (defaultOptions config es).sResgid = es.sDefResgid.toUInt32 := by
  simp [defaultOptions, apply_ite MountOptions.sResgid, MountOptions.setOpt]

/-- An identifier that is not shown is 0, and so is its default. -/
theorem kid_of_not_shown {id : UInt32} {default : UInt16} {n : Nat} (hn : n = 0)
    (h : (id.toNat != n || default.toNat != n) = false) : default.toUInt32 = id := by
  subst hn
  rw [Bool.or_eq_false_iff, bne_eq_false_iff_eq, bne_eq_false_iff_eq] at h
  apply UInt32.toNat_inj.mp
  rw [UInt16.toNat_toUInt32, h.1, h.2]

/-- The options shown for `o`, parsed over the defaults, give `o` again but for
`KR_MOUNT_XIP`. -/
theorem shownOptions_parse {o : MountOptions} (h : o.Ok config es)
    (huid : o.sResuid.toNat < 2 ^ 31) (hgid : o.sResgid.toNat < 2 ^ 31) :
    ∃ o', (shownOptions config es o).foldlM (parseOption config) (defaultOptions config es) =
        some o' ∧ o'.sResuid = o.sResuid ∧ o'.sResgid = o.sResgid ∧
      ∀ f, f ≠ .xip → o'.testOpt f = o.testOpt f := by
  rw [shownOptions_eq, foldlM_shown _ (shownEffects_parse huid hgid)]
  obtain ⟨huid', hgid', hflag⟩ := foldl_change (shownEffects config es o) (defaultOptions config es)
  refine ⟨_, rfl, ?_, ?_, fun f hf => ?_⟩
  · rw [huid', defaultOptions_resuid]
    cases hshown : (o.sResuid.toNat != KR_DEF_RESUID || es.sDefResuid.toNat != KR_DEF_RESUID) with
    | true => simp [shownEffects, hshown]
    | false => simpa [shownEffects, hshown] using kid_of_not_shown rfl hshown
  · rw [hgid', defaultOptions_resgid]
    cases hshown : (o.sResgid.toNat != KR_DEF_RESGID || es.sDefResgid.toNat != KR_DEF_RESGID) with
    | true => simp [shownEffects, hshown]
    | false => simpa [shownEffects, hshown] using kid_of_not_shown rfl hshown
  · rw [hflag]
    cases f with
    | xip => exact absurd rfl hf
    | errorsCont => exact shownEffects_errors h (by simp)
    | errorsRo => exact shownEffects_errors h (by simp)
    | errorsPanic => exact shownEffects_errors h (by simp)
    | check => simp [shownEffects, testOpt_default, h.unused]
    | xattrUser => simp [shownEffects, testOpt_default, h.unused]
    | minixDf => simp [shownEffects, testOpt_default]
    | oldalloc => simp [shownEffects, testOpt_default]
    | nobh => simp [shownEffects, testOpt_default]
    | reservation => simp [shownEffects, testOpt_default]
    | grpid => cases hg : o.testOpt .grpid <;> simp [shownEffects, testOpt_default, hg]
    | debug => simpa [shownEffects, testOpt_default] using h.debug
    | noUid32 => simpa [shownEffects, testOpt_default] using h.noUid32
    | posixAcl =>
      cases hc : config.posixAcl with
      | false => simp [shownEffects, testOpt_default, hc, h.posixAcl hc]
      | true => cases ha : o.testOpt .posixAcl <;> simp [shownEffects, testOpt_default, hc, ha]
    | usrquota =>
      cases hc : config.quota with
      | false => simp [shownEffects, testOpt_default, hc, h.quota hc]
      | true => simp [shownEffects, testOpt_default, hc]
    | grpquota =>
      cases hc : config.quota with
      | false => simp [shownEffects, testOpt_default, hc, h.quota hc]
      | true => simp [shownEffects, testOpt_default, hc]

theorem flatMap_stops (options : List (List Char)) :
    Stops (options.flatMap fun option => ',' :: option) := by
  cases options with
  | nil => exact stops_nil
  | cons p options => exact stops_comma _

/-- `get_sb_block` takes the superblock from the text and leaves the options. -/
theorem getSbBlock_text {sSbBlock : Nat} (hfit : sSbBlock < 2 ^ 64) {options : List (List Char)}
    (h : ∀ p ∈ options, Plain p) :
    getSbBlock (((shown (sSbBlock != 1) ("sb=".toList ++ Nat.toDigits 10 sSbBlock) ++
      options).flatMap fun option => ',' :: option).drop 1) =
      (sSbBlock, (options.flatMap fun option => ',' :: option).drop 1) := by
  by_cases hone : sSbBlock = 1
  · have hfirst : "sb=".toList.isPrefixOf
        ((options.flatMap fun option => ',' :: option).drop 1) = false := by
      cases options with
      | nil => rfl
      | cons p options =>
        obtain ⟨-, c, rest, rfl, hc⟩ := h p (by simp)
        have hbeq : ('s' == c) = false := by simpa using Ne.symm hc
        simp [List.isPrefixOf, hbeq]
    subst hone
    simp only [bne_self_eq_false, shown_false, List.nil_append, getSbBlock, hfirst]
    simp
  · have hne : (sSbBlock != 1) = true := by simpa using hone
    rw [hne, shown_true, List.singleton_append, List.flatMap_cons, List.cons_append,
      List.drop_succ_cons, List.drop_zero]
    have hread := simpleStrtoul_toDigits hfit (flatMap_stops options)
    have hdrop : ("sb=".toList ++ Nat.toDigits 10 sSbBlock ++
        options.flatMap fun option => ',' :: option).drop 3 =
        Nat.toDigits 10 sSbBlock ++ options.flatMap fun option => ',' :: option := rfl
    have hfirst : "sb=".toList.isPrefixOf ("sb=".toList ++ Nat.toDigits 10 sSbBlock ++
        options.flatMap fun option => ',' :: option) = true := rfl
    unfold getSbBlock
    rw [hfirst, if_pos rfl, hdrop, hread]
    cases options with
    | nil => rfl
    | cons p options => rfl

theorem parseInteger_lt (base : Nat) (s : List Char) : ∀ {acc : Nat}, acc < 2 ^ 64 →
    (parseInteger base acc s).1 < 2 ^ 64 := by
  induction s with
  | nil => exact fun h => h
  | cons c s ih =>
    intro acc h
    unfold parseInteger
    split
    · split
      · exact ih (Nat.mod_lt _ (Nat.two_pow_pos 64))
      · exact h
    · exact h

/-- The superblock number is an `unsigned long`. -/
theorem getSbBlock_lt (data : List Char) : (getSbBlock data).1 < 2 ^ 64 := by
  have hlt : (simpleStrtoul (data.drop 3)).1 < 2 ^ 64 := parseInteger_lt _ _ (by omega)
  unfold getSbBlock
  split
  · split
    · rename_i heq
      rwa [heq] at hlt
    · rename_i heq
      rw [heq] at hlt
      split
      · exact hlt
      · simp
  · simp

/-- The options that are shown, given to a mount of the same superblock, make the
same mount: for any options it was mounted with and any that later remounts
accepted, the number of the superblock, the reserved identifiers and the options
but for `KR_MOUNT_XIP` come out again, with one errors behaviour. -/
theorem krShowOptions_remounts {data : List Char} {sSbBlock : Nat} {o0 o : MountOptions}
    (hmount : mountWith config es data = some (sSbBlock, o0)) {remounts : List (List Char)}
    (hremounts : remounts.foldlM (parseOptions config) o0 = some o)
    (huid : o.sResuid.toNat < 2 ^ 31) (hgid : o.sResgid.toNat < 2 ^ 31) :
    ∃ o', mountWith config es ((krShowOptions config es sSbBlock o).drop 1) =
        some (sSbBlock, o') ∧ o'.sResuid = o.sResuid ∧ o'.sResgid = o.sResgid ∧
      (o'.clearOpt .xip).sMountOpt = (o.clearOpt .xip).sMountOpt ∧
      o.behaviours = 1 ∧ o'.behaviours = 1 := by
  obtain ⟨o1, hparse, heq⟩ := Option.map_eq_some_iff.mp hmount
  rw [Prod.mk.injEq] at heq
  obtain ⟨rfl, rfl⟩ := heq
  have hok0 := parseOptions_ok (defaultOptions_ok config es) hparse
  have hok : o.Ok config es := foldlM_ok (fun ha hround => parseOptions_ok ha hround) _ hok0 hremounts
  have hplain : ∀ p ∈ shownOptions config es o, Plain p := shownOptions_plain o
  obtain ⟨o', hshown, huid', hgid', hflags⟩ := shownOptions_parse hok huid hgid
  have hparse' : parseOptions config (defaultOptions config es)
      (((shownOptions config es o).flatMap fun option => ',' :: option).drop 1) = some o' := by
    rw [parseOptions_text _ hplain]
    exact hshown
  have hok' := parseOptions_ok (defaultOptions_ok config es) hparse'
  refine ⟨o', ?_, huid', hgid', ?_, hok.one, hok'.one⟩
  · rw [mountWith, krShowOptions, getSbBlock_text (getSbBlock_lt data) hplain, hparse']
    rfl
  · refine (hok'.within.clear .xip).ext (hok.within.clear .xip) fun f => ?_
    have hclear : (o'.clearOpt .xip).testOpt f = (o.clearOpt .xip).testOpt f := by
      by_cases hf : f = .xip
      · simp [hf]
      · simp [hflags f hf]
    exact hclear

/-- A superblock with the error behaviour `continue` and BSD groups, mounted from
another copy and remounted twice. -/
theorem krShowOptions_remounts_panic :
    let config : KrConfig := ⟨true, true⟩
    let es : MountDefaults := ⟨0x0003, 1, 0, 7⟩
    ∃ o o', krShowOptions config es 8193 o =
        ",sb=8193,nogrpid,resuid=5,resgid=7,errors=panic,debug,noreservation".toList ∧
      mountWith config es ((krShowOptions config es 8193 o).drop 1) = some (8193, o') ∧
      (o'.clearOpt .xip).sMountOpt = (o.clearOpt .xip).sMountOpt := by
  intro config es
  have hmount : mountWith config es "sb=8193,resuid=5,xip".toList =
      some (8193, ⟨0x9001c, 5, 7⟩) := by decide +kernel
  have hremounts : ["errors=panic,nogrpid".toList, "noreservation".toList].foldlM
      (parseOptions config) ⟨0x9001c, 5, 7⟩ = some ⟨0x10048, 5, 7⟩ := by decide +kernel
  obtain ⟨o', hagain, -, -, hopt, -⟩ :=
    krShowOptions_remounts hmount hremounts (by decide) (by decide)
  exact ⟨_, o', by decide +kernel, hagain, hopt⟩

end Shown

end KrFs
