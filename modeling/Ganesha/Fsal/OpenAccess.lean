import Mathlib.Data.List.Basic

/-!
# The check of the rights at an open

`fsal_internal_testAccess` of `FSAL/FSAL_POSIX/fsal_internal.c` and `FSAL/FSAL_XFS/fsal_internal.c`, under
`POSIXFSAL_open` (in the build without streams) and `XFSFSAL_open`. What the two opens return is the status;
the file has its content beside.
-/

namespace Ganesha.Fsal

/-! ## The data -/

/-- The codes of the statuses, with the error of the system that they stand for. -/
inductive Status
  | noError
  | fault
  | inval
  | access
  | stale (errno : ℕ)
  | posix (errno : ℕ)
  deriving DecidableEq

/-- `posixfsal_cred_t` and `xfsfsal_cred_t`, with the first `nbgroups` groups. -/
structure Credential where
  user : UInt32
  group : UInt32
  altGroups : List UInt32

/-- The owner, the group and the mode of a file. -/
structure Stat where
  uid : UInt32
  gid : UInt32
  mode : UInt32

def fsalORdonly : UInt16 := 0x0001

def fsalORdwr : UInt16 := 0x0002

def fsalOWronly : UInt16 := 0x0004

def fsalOAppend : UInt16 := 0x0008

def fsalOTrunc : UInt16 := 0x0010

def fsalOCreate : UInt16 := 0x0020

def fsalOwnerOk : UInt16 := 8

def fsalROk : UInt16 := 4

def fsalWOk : UInt16 := 2

def fsalXOk : UInt16 := 1

def fsalFOk : UInt16 := 0

/-- The bits of `mode_t` with those of `fsal_accessmode_t`. -/
def modeBits : List (UInt32 × UInt32) :=
  [(0o4000, 0o4000), (0o2000, 0o2000), (0o1000, 0o1000), (0o400, 0o400), (0o200, 0o200), (0o100, 0o100),
   (0o40, 0o40), (0o20, 0o20), (0o10, 0o10), (0o4, 0o4), (0o2, 0o2), (0o1, 0o1)]

def unix2fsalMode (unixMode : UInt32) : UInt32 :=
  modeBits.foldl (fun fsalmode b => if unixMode &&& b.1 ≠ 0 then fsalmode ||| b.2 else fsalmode) 0

/-! ## The check -/

/-- The flags that are missing once those that a class has are cleared. -/
def clearRights (mode r w x : UInt32) (missing : UInt16) : UInt16 :=
  let missing := if mode &&& r ≠ 0 then missing &&& ~~~fsalROk else missing
  let missing := if mode &&& w ≠ 0 then missing &&& ~~~fsalWOk else missing
  if mode &&& x ≠ 0 then missing &&& ~~~fsalXOk else missing

/-- `fsal_internal_testAccess`. Only one of the back ends looks at `FSAL_OWNER_OK`. -/
def testAccess (ownerOverride : Bool) (cred : Credential) (accessType : UInt16)
    (buffstat attributes : Option Stat) : Status :=
  match attributes.or (buffstat.map fun s => { s with mode := unix2fsalMode s.mode }) with
  | none => .fault
  | some a =>
    if accessType &&& fsalFOk ≠ 0 then .inval
    else if cred.user = 0 then .noError
    else if cred.user = a.uid then
      let missing := clearRights a.mode 0o400 0o200 0o100 accessType
      let missing := if ownerOverride = true ∧ missing &&& fsalOwnerOk ≠ 0 then 0 else missing
      if missing = 0 then .noError else .access
    else if cred.group = a.gid ∨ a.gid ∈ cred.altGroups then
      if clearRights a.mode 0o40 0o20 0o10 accessType = 0 then .noError else .access
    else if clearRights a.mode 0o4 0o2 0o1 accessType = 0 then .noError else .access

/-- `fsal_internal_testAccess` of POSIX. -/
def posixTestAccess : Credential → UInt16 → Option Stat → Option Stat → Status := testAccess true

/-- `fsal_internal_testAccess` of XFS. -/
def xfsTestAccess : Credential → UInt16 → Option Stat → Option Stat → Status := testAccess false

/-! ## Flags -/

/-- The flags that `fsal2posix_openflags` accepts. -/
def Accepted (flags : UInt16) : Prop :=
  flags &&& ~~~(fsalORdonly ||| fsalORdwr ||| fsalOWronly ||| fsalOAppend ||| fsalOTrunc) = 0 ∧
    (if flags &&& fsalORdonly ≠ 0 then 1 else 0) + (if flags &&& fsalORdwr ≠ 0 then 1 else 0) +
      (if flags &&& fsalOWronly ≠ 0 then 1 else 0) ≤ 1 ∧
    ¬ (flags &&& fsalOAppend ≠ 0 ∧ flags &&& fsalOTrunc ≠ 0) ∧
    ¬ (flags &&& fsalOTrunc ≠ 0 ∧ flags &&& (fsalOWronly ||| fsalORdwr) = 0)

instance (flags : UInt16) : Decidable (Accepted flags) := inferInstanceAs (Decidable (_ ∧ _ ∧ _ ∧ _))

/-- The flags of the system that stand for flags. -/
def convertFlags (table : List (UInt16 × UInt32)) (flags : UInt16) : UInt32 :=
  table.foldl (fun oflags b => if flags &&& b.1 ≠ 0 then oflags ||| b.2 else oflags) 0

def oTrunc : UInt32 := 0o1000

/-- `fsal2posix_openflags` of POSIX. -/
def posixOpenflags (flags : UInt16) : Option UInt32 :=
  if Accepted flags then
    some (convertFlags [(fsalORdonly, 0), (fsalORdwr, 2), (fsalOWronly, 1), (fsalOAppend, 0o2000),
      (fsalOTrunc, oTrunc), (fsalOCreate, 0o100)] flags)
  else none

/-- `fsal2posix_openflags` of XFS. -/
def xfsOpenflags (flags : UInt16) : Option UInt32 :=
  if Accepted flags then some (convertFlags [(fsalORdonly, 0), (fsalOWronly, 1), (fsalORdwr, 2)] flags)
  else none

/-! ## The opens -/

/-- What an open returns, with the content of the file after it. -/
structure OpenResult where
  status : Status
  content : List UInt8
  deriving DecidableEq

/-- The content after an open of the system. -/
def openContent (oflags : UInt32) (content : List UInt8) : List UInt8 :=
  if oflags &&& oTrunc ≠ 0 then [] else content

/-- What is around an open: the result of `fsal_internal_getPathFromHandle`, whether `open` works, the errors
of `open_by_handle` and of `fstat`, whether the second `open_by_handle` fails, the file, and what the
descriptor 0 is. -/
structure Env where
  path : Status
  opens : Bool
  handleErrno : Option ℕ
  directoryFails : Bool
  fstatErrno : Option ℕ
  stat : Stat
  descriptorZero : Stat

/-- `POSIXFSAL_open`. Nobody tests whether `open` works. -/
def posixOpen (cred : Credential) (openflags : UInt16) (env : Env) (content : List UInt8) : OpenResult :=
  if env.path ≠ .noError then ⟨env.path, content⟩
  else
    match posixTestAccess cred ((if openflags &&& fsalORdonly ≠ 0 then fsalROk else fsalWOk) ||| fsalOwnerOk)
      (some env.stat) none with
    | .noError =>
      match posixOpenflags openflags with
      | none => ⟨.inval, content⟩
      | some oflags => ⟨.noError, if env.opens = true then openContent oflags content else content⟩
    | status => ⟨status, content⟩

def eisdir : ℕ := 21

def enoent : ℕ := 2

/-- `fsal_internal_handle2fd`: the status, what the descriptor is of, and the content. The descriptor of a
directory is lost, as the comparison is stored in its place. -/
def xfsHandle2fd (env : Env) (oflags : UInt32) (content : List UInt8) : Status × Stat × List UInt8 :=
  match env.handleErrno with
  | none => (.noError, env.stat, openContent oflags content)
  | some errno =>
    if errno = eisdir ∧ env.directoryFails = false then (.noError, env.descriptorZero, content)
    else (.posix errno, env.stat, content)

/-- `XFSFSAL_open`. -/
def xfsOpen (cred : Credential) (openflags : UInt16) (env : Env) (content : List UInt8) : OpenResult :=
  match xfsOpenflags openflags with
  | none => ⟨.inval, content⟩
  | some oflags =>
    match xfsHandle2fd env oflags content with
    | (.noError, buffstat, content) =>
      match env.fstatErrno with
      | some errno => ⟨if errno = enoent then .stale errno else .posix errno, content⟩
      | none =>
        ⟨xfsTestAccess cred (if openflags &&& fsalORdonly ≠ 0 then fsalROk else fsalWOk) (some buffstat) none,
          content⟩
    | (status, _, content) => ⟨status, content⟩

/-! ## What the property is about -/

/-- The two back ends. -/
inductive BackEnd
  | posix
  | xfs

/-- The open of a back end. -/
def BackEnd.open : BackEnd → Credential → UInt16 → Env → List UInt8 → OpenResult
  | .posix => posixOpen
  | .xfs => xfsOpen

/-- The check of the rights is reached, for the file. -/
def BackEnd.Reached (env : Env) : BackEnd → Prop
  | .posix => env.path = .noError
  | .xfs => env.handleErrno = none ∧ env.fstatErrno = none

/-- The permission classes. -/
inductive Class
  | owner
  | group
  | other

/-- The one class that applies. -/
def classOf (cred : Credential) (stat : Stat) : Class :=
  if cred.user = stat.uid then .owner
  else if cred.group = stat.gid ∨ stat.gid ∈ cred.altGroups then .group
  else .other

/-- The class has the right to read. -/
def CanRead (stat : Stat) : Class → Prop
  | .owner => stat.mode &&& 0o400 ≠ 0
  | .group => stat.mode &&& 0o40 ≠ 0
  | .other => stat.mode &&& 0o4 ≠ 0

/-- The class has the right to write. -/
def CanWrite (stat : Stat) : Class → Prop
  | .owner => stat.mode &&& 0o200 ≠ 0
  | .group => stat.mode &&& 0o20 ≠ 0
  | .other => stat.mode &&& 0o2 ≠ 0

/-- The class that applies grants every right that the flags need. -/
def Granted (cred : Credential) (flags : UInt16) (stat : Stat) : Prop :=
  (flags &&& fsalORdonly ≠ 0 ∨ flags &&& fsalORdwr ≠ 0 → CanRead stat (classOf cred stat)) ∧
    (flags &&& fsalOWronly ≠ 0 ∨ flags &&& fsalOTrunc ≠ 0 ∨ flags &&& fsalORdwr ≠ 0 →
      CanWrite stat (classOf cred stat))

/-- The caller may open the file. The back end of POSIX asks for the override of the owner. -/
def Allowed (b : BackEnd) (cred : Credential) (flags : UInt16) (stat : Stat) : Prop :=
  cred.user = 0 ∨ (match b with | .posix => cred.user = stat.uid | .xfs => False) ∨ Granted cred flags stat

/-- The check lets the open proceed exactly if the caller may open the file, and an open that is refused
leaves the content. -/
structure Enforced (b : BackEnd) (cred : Credential) (flags : UInt16) (env : Env) (content : List UInt8) :
    Prop where
  proceeds : (b.open cred flags env content).status = .noError ↔ Allowed b cred flags env.stat
  refused : (b.open cred flags env content).status = .access → (b.open cred flags env content).content = content

/-- The right is that of the flags: with XFS the right to read is not tested for reading and writing, and
that to write is tested if there is no flag for the access; with POSIX a caller that is not the owner is
refused whatever its class grants. -/
def Tested (cred : Credential) (flags : UInt16) (stat : Stat) : BackEnd → Prop
  | .posix => cred.user = 0 ∨ cred.user = stat.uid ∨ ¬ Granted cred flags stat
  | .xfs => cred.user = 0 ∨
    (flags &&& fsalORdwr ≠ 0 → CanWrite stat (classOf cred stat) → CanRead stat (classOf cred stat)) ∧
      (flags &&& fsalORdonly = 0 → flags &&& fsalORdwr = 0 → flags &&& fsalOWronly = 0 →
        CanWrite stat (classOf cred stat))

variable {cred : Credential} {flags : UInt16} {env : Env} {content : List UInt8} {stat : Stat}

/-! ## The mode -/

/-- A bit is set at the end if it was set before or by one of the turns. -/
lemma and_foldl_bits {α : Type} {P : α × UInt32 → Prop} [DecidablePred P] (c acc : UInt32)
    (bits : List (α × UInt32)) : bits.foldl (fun f b => if P b then f ||| b.2 else f) acc &&& c ≠ 0 ↔
      acc &&& c ≠ 0 ∨ ∃ b ∈ bits, P b ∧ b.2 &&& c ≠ 0 := by
  induction bits generalizing acc with
  | nil =>
    constructor
    · exact .inl
    · rintro (h | ⟨b, hb, -⟩)
      · exact h
      · cases hb
  | cons b bits ih =>
    have hor : ∀ f : UInt32, (f ||| b.2) &&& c ≠ 0 ↔ f &&& c ≠ 0 ∨ b.2 &&& c ≠ 0 := by
      intro f
      have hdistrib : (f ||| b.2) &&& c = (f &&& c) ||| (b.2 &&& c) := by
        apply UInt32.toBitVec_inj.mp
        ext i hi
        simp only [UInt32.toBitVec_and, UInt32.toBitVec_or, BitVec.getElem_and, BitVec.getElem_or,
          Bool.and_or_distrib_right]
      rw [hdistrib, ne_eq, UInt32.or_eq_zero_iff, not_and_or]
    rw [List.foldl_cons, ih]
    by_cases hb : P b
    · rw [if_pos hb, hor]
      constructor
      · rintro ((h | h) | ⟨b', hb', h⟩)
        · exact .inl h
        · exact .inr ⟨b, List.mem_cons_self, hb, h⟩
        · exact .inr ⟨b', List.mem_cons_of_mem _ hb', h⟩
      · rintro (h | ⟨b', hb', h, h'⟩)
        · exact .inl (.inl h)
        · rcases List.mem_cons.mp hb' with rfl | hb'
          · exact .inl (.inr h')
          · exact .inr ⟨b', hb', h, h'⟩
    · rw [if_neg hb]
      constructor
      · rintro (h | ⟨b', hb', h⟩)
        · exact .inl h
        · exact .inr ⟨b', List.mem_cons_of_mem _ hb', h⟩
      · rintro (h | ⟨b', hb', h, h'⟩)
        · exact .inl h
        · rcases List.mem_cons.mp hb' with rfl | hb'
          · exact absurd h hb
          · exact .inr ⟨b', hb', h, h'⟩

/-- A permission bit of the mode is the one of the FSAL. -/
lemma unix2fsalMode_and (m c : UInt32) (hall : modeBits.all (fun b => b.2 &&& c ≠ 0 ↔ b.1 = c) = true)
    (hmem : (c, c) ∈ modeBits) : unix2fsalMode m &&& c ≠ 0 ↔ m &&& c ≠ 0 := by
  have hc : ∀ b ∈ modeBits, (b.2 &&& c ≠ 0 ↔ b.1 = c) := fun b hb =>
    of_decide_eq_true (List.all_eq_true.mp hall b hb)
  rw [unix2fsalMode, and_foldl_bits]
  constructor
  · rintro (h | ⟨b, hb, hm, hbc⟩)
    · rw [UInt32.zero_and] at h
      exact absurd rfl h
    · rwa [(hc b hb).mp hbc] at hm
  · intro hm
    exact .inr ⟨(c, c), hmem, hm, (hc _ hmem).mpr rfl⟩

/-! ## The check -/

/-- What `clearRights` does, by which of the three bits are set. -/
def clearBits (r w x : Bool) (missing : UInt16) : UInt16 :=
  let missing := if r = true then missing &&& ~~~fsalROk else missing
  let missing := if w = true then missing &&& ~~~fsalWOk else missing
  if x = true then missing &&& ~~~fsalXOk else missing

lemma clearRights_eq (mode r w x : UInt32) (missing : UInt16) :
    clearRights mode r w x missing = clearBits (mode &&& r ≠ 0) (mode &&& w ≠ 0) (mode &&& x ≠ 0) missing := by
  simp only [clearRights, clearBits, decide_eq_true_eq]

lemma clearRights_read (mode r w x : UInt32) : clearRights mode r w x fsalROk = 0 ↔ mode &&& r ≠ 0 := by
  have hbits : ∀ r w x, clearBits r w x fsalROk = 0 ↔ r = true := by decide
  rw [clearRights_eq, hbits, decide_eq_true_eq]

lemma clearRights_write (mode r w x : UInt32) : clearRights mode r w x fsalWOk = 0 ↔ mode &&& w ≠ 0 := by
  have hbits : ∀ r w x, clearBits r w x fsalWOk = 0 ↔ w = true := by decide
  rw [clearRights_eq, hbits, decide_eq_true_eq]

/-- The owner's bit is left. -/
lemma clearRights_owner (mode r w x : UInt32) {missing : UInt16} (hmissing : missing = fsalROk ∨ missing = fsalWOk) :
    clearRights mode r w x (missing ||| fsalOwnerOk) &&& fsalOwnerOk ≠ 0 := by
  rw [clearRights_eq]
  rcases hmissing with rfl | rfl
  · have hbits : ∀ r w x, clearBits r w x (fsalROk ||| fsalOwnerOk) &&& fsalOwnerOk ≠ 0 := by decide
    exact hbits _ _ _
  · have hbits : ∀ r w x, clearBits r w x (fsalWOk ||| fsalOwnerOk) &&& fsalOwnerOk ≠ 0 := by decide
    exact hbits _ _ _

lemma canRead_unix2fsalMode (c : Class) :
    CanRead { stat with mode := unix2fsalMode stat.mode } c ↔ CanRead stat c := by
  cases c with
  | owner => exact unix2fsalMode_and _ _ (by decide) (by decide)
  | group => exact unix2fsalMode_and _ _ (by decide) (by decide)
  | other => exact unix2fsalMode_and _ _ (by decide) (by decide)

lemma canWrite_unix2fsalMode (c : Class) :
    CanWrite { stat with mode := unix2fsalMode stat.mode } c ↔ CanWrite stat c := by
  cases c with
  | owner => exact unix2fsalMode_and _ _ (by decide) (by decide)
  | group => exact unix2fsalMode_and _ _ (by decide) (by decide)
  | other => exact unix2fsalMode_and _ _ (by decide) (by decide)

/-- The test of XFS is that of the class of the caller. -/
lemma xfsTestAccess_iff {read : Bool} :
    xfsTestAccess cred (if read = true then fsalROk else fsalWOk) (some stat) none = .noError ↔
      cred.user = 0 ∨ if read = true then CanRead stat (classOf cred stat)
        else CanWrite stat (classOf cred stat) := by
  have hok : (if read = true then fsalROk else fsalWOk) &&& fsalFOk = 0 := UInt16.and_zero
  -- the classes read the bits of the mode that was converted
  have hclass : ∀ c : Class, (if read = true then CanRead { stat with mode := unix2fsalMode stat.mode } c else
      CanWrite { stat with mode := unix2fsalMode stat.mode } c) ↔
        if read = true then CanRead stat c else CanWrite stat c := by
    intro c
    cases read with
    | true => exact canRead_unix2fsalMode c
    | false => exact canWrite_unix2fsalMode c
  have hcheck : ∀ r w x : UInt32, clearRights (unix2fsalMode stat.mode) r w x
      (if read = true then fsalROk else fsalWOk) = 0 ↔
        if read = true then unix2fsalMode stat.mode &&& r ≠ 0 else unix2fsalMode stat.mode &&& w ≠ 0 := by
    intro r w x
    cases read with
    | true => exact clearRights_read _ r w x
    | false => exact clearRights_write _ r w x
  have hcode : ∀ P : Prop, [Decidable P] → ((if P then Status.noError else .access) = .noError ↔ P) := by
    intro P _
    by_cases h : P
    · rw [if_pos h]
      exact iff_of_true rfl h
    · rw [if_neg h]
      exact iff_of_false Status.noConfusion h
  unfold xfsTestAccess testAccess classOf
  simp only [Option.none_or, Option.map_some, hok, ne_eq, not_true, if_false, Bool.false_eq_true, false_and]
  by_cases hroot : cred.user = 0
  · simp only [hroot, if_true, true_or]
  rw [if_neg hroot, ← hclass, or_iff_right hroot]
  by_cases howner : cred.user = stat.uid
  · rw [if_pos howner, if_pos howner, hcode, hcheck]
    rfl
  rw [if_neg howner, if_neg howner]
  by_cases hgroup : cred.group = stat.gid ∨ stat.gid ∈ cred.altGroups
  · rw [if_pos hgroup, if_pos hgroup, hcode, hcheck]
    rfl
  · rw [if_neg hgroup, if_neg hgroup, hcode, hcheck]
    rfl

/-- The test of POSIX passes for the owner and for root only. -/
lemma posixTestAccess_iff {read : Bool} :
    posixTestAccess cred ((if read = true then fsalROk else fsalWOk) ||| fsalOwnerOk) (some stat) none = .noError ↔
      cred.user = 0 ∨ cred.user = stat.uid := by
  have hok : ((if read = true then fsalROk else fsalWOk) ||| fsalOwnerOk) &&& fsalFOk = 0 := UInt16.and_zero
  have howned : ∀ r w x : UInt32, clearRights (unix2fsalMode stat.mode) r w x
      ((if read = true then fsalROk else fsalWOk) ||| fsalOwnerOk) &&& fsalOwnerOk ≠ 0 := by
    intro r w x
    refine clearRights_owner _ r w x ?_
    cases read with
    | true => exact .inl rfl
    | false => exact .inr rfl
  have hmissing : ∀ r w x : UInt32, clearRights (unix2fsalMode stat.mode) r w x
      ((if read = true then fsalROk else fsalWOk) ||| fsalOwnerOk) ≠ 0 := by
    intro r w x hzero
    have howned := howned r w x
    rw [hzero, UInt16.zero_and] at howned
    exact howned rfl
  unfold posixTestAccess testAccess
  simp only [Option.none_or, Option.map_some, hok, ne_eq, not_true, if_false, howned, not_false_eq_true,
    and_self, if_true]
  rw [if_neg (hmissing 0o40 0o20 0o10), if_neg (hmissing 0o4 0o2 0o1)]
  by_cases hroot : cred.user = 0
  · simp only [hroot, if_true, true_or]
  rw [if_neg hroot, or_iff_right hroot]
  by_cases howner : cred.user = stat.uid
  · rw [if_pos howner]
    exact iff_of_true rfl howner
  · rw [if_neg howner]
    refine iff_of_false ?_ howner
    by_cases hgroup : cred.group = stat.gid ∨ stat.gid ∈ cred.altGroups
    · rw [if_pos hgroup]
      exact Status.noConfusion
    · rw [if_neg hgroup]
      exact Status.noConfusion

/-! ## The opens -/

/-- Access is given or denied. -/
lemma testAccess_cases (override : Bool) (accessType : UInt16) :
    testAccess override cred accessType (some stat) none = .noError ∨
      testAccess override cred accessType (some stat) none = .access := by
  have hok : accessType &&& fsalFOk = 0 := UInt16.and_zero
  unfold testAccess
  simp only [Option.none_or, Option.map_some, hok, ne_eq, not_true, if_false]
  split_ifs
  all_goals first
    | exact .inl rfl
    | exact .inr rfl

/-- XFS tests one right and changes nothing. -/
lemma xfsOpen_eq (hflags : Accepted flags) (hreached : BackEnd.Reached env .xfs) :
    xfsOpen cred flags env content =
      ⟨xfsTestAccess cred (if flags &&& fsalORdonly ≠ 0 then fsalROk else fsalWOk) (some env.stat) none,
        content⟩ := by
  have hkeep : openContent (convertFlags [(fsalORdonly, 0), (fsalOWronly, 1), (fsalORdwr, 2)] flags) content =
      content := by
    refine if_neg fun htrunc => ?_
    rw [convertFlags, and_foldl_bits] at htrunc
    rcases htrunc with hzero | ⟨b, hb, -, hbit⟩
    · exact hzero rfl
    · have hnone : [(fsalORdonly, (0 : UInt32)), (fsalOWronly, 1), (fsalORdwr, 2)].all
          (fun b => b.2 &&& oTrunc = 0) = true := by decide
      exact hbit (of_decide_eq_true (List.all_eq_true.mp hnone b hb))
  simp only [xfsOpen, xfsOpenflags, hflags, if_true, xfsHandle2fd, hreached.1, hreached.2, hkeep]

/-- What an open that reaches the test answers. -/
lemma posixOpen_status (hflags : Accepted flags) (hreached : BackEnd.Reached env .posix) :
    (posixOpen cred flags env content).status = posixTestAccess cred
      ((if flags &&& fsalORdonly ≠ 0 then fsalROk else fsalWOk) ||| fsalOwnerOk) (some env.stat) none ∧
    ((posixOpen cred flags env content).status = .access → (posixOpen cred flags env content).content = content) := by
  have hpath : ¬ env.path ≠ .noError := fun hne => hne hreached
  rcases @testAccess_cases cred env.stat true
    ((if flags &&& fsalORdonly ≠ 0 then fsalROk else fsalWOk) ||| fsalOwnerOk) with hcheck | hcheck
  · have hcheck : posixTestAccess cred _ (some env.stat) none = .noError := hcheck
    simp only [posixOpen, hpath, if_false, hcheck, posixOpenflags, hflags, if_true, reduceCtorEq, false_implies,
      and_self]
  · have hcheck : posixTestAccess cred _ (some env.stat) none = .access := hcheck
    simp only [posixOpen, hpath, if_false, hcheck, forall_const, and_self]

/-- The flags that are accepted. -/
lemma accepted_cases (hflags : Accepted flags) :
    (flags &&& fsalORdonly ≠ 0 ∧ flags &&& fsalORdwr = 0 ∧ flags &&& fsalOWronly = 0 ∧
        flags &&& fsalOTrunc = 0) ∨
      (flags &&& fsalORdonly = 0 ∧ flags &&& fsalORdwr ≠ 0 ∧ flags &&& fsalOWronly = 0) ∨
      (flags &&& fsalORdonly = 0 ∧ flags &&& fsalORdwr = 0 ∧ flags &&& fsalOWronly ≠ 0) ∨
      (flags &&& fsalORdonly = 0 ∧ flags &&& fsalORdwr = 0 ∧ flags &&& fsalOWronly = 0 ∧
        flags &&& fsalOTrunc = 0) := by
  obtain ⟨-, hone, -, htrunc⟩ := hflags
  have hor : flags &&& (fsalOWronly ||| fsalORdwr) = 0 ↔ flags &&& fsalOWronly = 0 ∧ flags &&& fsalORdwr = 0 := by
    have hdistrib : flags &&& (fsalOWronly ||| fsalORdwr) = (flags &&& fsalOWronly) ||| (flags &&& fsalORdwr) := by
      apply UInt16.toBitVec_inj.mp
      ext i hi
      simp only [UInt16.toBitVec_and, UInt16.toBitVec_or, BitVec.getElem_and, BitVec.getElem_or,
        Bool.and_or_distrib_left]
    rw [hdistrib, UInt16.or_eq_zero_iff]
  rw [hor] at htrunc
  by_cases hr : flags &&& fsalORdonly = 0 <;> by_cases hrw : flags &&& fsalORdwr = 0 <;>
    by_cases hw : flags &&& fsalOWronly = 0 <;> by_cases ht : flags &&& fsalOTrunc = 0 <;>
      simp [hr, hrw, hw, ht] at hone htrunc ⊢

lemma rdwr_iff (A R W : Prop) : ((A ∨ W) ↔ (A ∨ R ∧ W)) ↔ (A ∨ (W → R)) := by tauto

/-- The checks of the two back ends enforce the rights of the class of the caller exactly if they test them,
and an open that is refused has not changed the file. -/
theorem enforced_iff (b : BackEnd) (hflags : Accepted flags) (hreached : b.Reached env) :
    Enforced b cred flags env content ↔ Tested cred flags env.stat b := by
  cases b with
  | posix =>
    obtain ⟨hstatus, hrefused⟩ := @posixOpen_status cred flags env content hflags hreached
    have hcheck := @posixTestAccess_iff cred env.stat (decide (flags &&& fsalORdonly ≠ 0))
    simp only [decide_eq_true_eq] at hcheck
    rw [← hstatus] at hcheck
    have hiff : Enforced .posix cred flags env content ↔
        ((posixOpen cred flags env content).status = .noError ↔ Allowed .posix cred flags env.stat) :=
      ⟨fun h => h.proceeds, fun h => ⟨h, hrefused⟩⟩
    rw [hiff, hcheck]
    show (_ ↔ cred.user = 0 ∨ cred.user = env.stat.uid ∨ Granted cred flags env.stat) ↔
      (cred.user = 0 ∨ cred.user = env.stat.uid ∨ ¬ Granted cred flags env.stat)
    tauto
  | xfs =>
    have heq := @xfsOpen_eq cred flags env content hflags hreached
    have hcheck := @xfsTestAccess_iff cred env.stat (decide (flags &&& fsalORdonly ≠ 0))
    simp only [decide_eq_true_eq] at hcheck
    have hiff : Enforced .xfs cred flags env content ↔
        ((xfsOpen cred flags env content).status = .noError ↔ Allowed .xfs cred flags env.stat) := by
      refine ⟨fun h => h.proceeds, fun h => ⟨h, fun _ => ?_⟩⟩
      show (xfsOpen cred flags env content).content = content
      rw [heq]
    rw [hiff, heq, hcheck]
    show (_ ↔ cred.user = 0 ∨ False ∨ Granted cred flags env.stat) ↔ Tested cred flags env.stat .xfs
    unfold Granted Tested
    rcases accepted_cases hflags with hflag | hflag | hflag | hflag
    · obtain ⟨hr, hrw, hw, ht⟩ := hflag
      simp only [hr, hrw, hw, ht, ne_eq, not_false_eq_true, not_true, if_true, or_false, forall_const, false_implies,
        and_true, false_or, or_true]
    · obtain ⟨hr, hrw, hw⟩ := hflag
      simp only [hr, hrw, hw, ne_eq, not_false_eq_true, not_true, if_false, or_true, forall_const, false_implies,
        and_true, false_or]
      exact rdwr_iff _ _ _
    · obtain ⟨hr, hrw, hw⟩ := hflag
      simp only [hr, hrw, hw, ne_eq, not_false_eq_true, not_true, if_false, or_false, forall_const, false_implies,
        and_true, false_or, true_or, or_true, true_and]
    · obtain ⟨hr, hrw, hw, ht⟩ := hflag
      simp only [hr, hrw, hw, ht, ne_eq, not_true, if_false, or_false, forall_const, false_implies, and_true,
        or_true, true_and, iff_true]

/-- A file that its group may read and write. -/
def sampleEnv : Env := ⟨.noError, true, none, false, none, ⟨1, 7, 0o660⟩, ⟨0, 0, 0⟩⟩

theorem enforced_iff_group : Enforced .xfs ⟨5, 7, []⟩ fsalORdwr sampleEnv [1] ↔
    Tested ⟨5, 7, []⟩ fsalORdwr sampleEnv.stat .xfs :=
  enforced_iff .xfs (by decide) ⟨rfl, rfl⟩

/-- A member of the group of a file may read it. -/
theorem not_enforced_of_group : ¬ ∀ b cred flags env content, Accepted flags → b.Reached env →
    Enforced b cred flags env content := by
  intro h
  have hproceeds := (h .posix ⟨5, 7, []⟩ fsalORdonly sampleEnv [1] (by decide) rfl).proceeds
  have hallowed : Allowed .posix ⟨5, 7, []⟩ fsalORdonly sampleEnv.stat := by
    refine .inr (.inr ⟨fun _ => ?_, fun hno => absurd hno (by decide)⟩)
    show (0o660 : UInt32) &&& 0o40 ≠ 0
    decide
  exact absurd (hproceeds.mpr hallowed) (by decide +kernel)

end Ganesha.Fsal
