import Ganesha.Fattr.Bitmap
import Mathlib.Data.Nat.Notation

/-!
# COMPOUND

`NFS_Protocols/nfs4_Compound.c`: the tables of the operations, and `nfs4_Compound`. A table that is
indexed out of its bounds is the result `none`.
-/

namespace Ganesha.Compound
open Fattr (Build)

/-! ## Tables -/

/-- The functions of the tables. -/
inductive Funct
  | nfs4OpAccess
  | nfs4OpClose
  | nfs4OpCommit
  | nfs4OpCreate
  | nfs4OpDelegpurge
  | nfs4OpDelegreturn
  | nfs4OpGetattr
  | nfs4OpGetfh
  | nfs4OpLink
  | nfs4OpLock
  | nfs4OpLockt
  | nfs4OpLocku
  | nfs4OpLookup
  | nfs4OpLookupp
  | nfs4OpNverify
  | nfs4OpOpen
  | nfs4OpOpenattr
  | nfs4OpOpenConfirm
  | nfs4OpOpenDowngrade
  | nfs4OpPutfh
  | nfs4OpPutpubfh
  | nfs4OpPutrootfh
  | nfs4OpRead
  | nfs4OpReaddir
  | nfs4OpReadlink
  | nfs4OpRemove
  | nfs4OpRename
  | nfs4OpRenew
  | nfs4OpRestorefh
  | nfs4OpSavefh
  | nfs4OpSecinfo
  | nfs4OpSetattr
  | nfs4OpSetclientid
  | nfs4OpSetclientidConfirm
  | nfs4OpVerify
  | nfs4OpWrite
  | nfs4OpReleaseLockowner
  | nfs4OpIllegal
  | nfs41OpClose
  | nfs41OpLock
  | nfs41OpLockt
  | nfs41OpLocku
  | nfs41OpOpen
  | nfs41OpRead
  | nfs41OpWrite
  | nfs41OpExchangeId
  | nfs41OpCreateSession
  | nfs41OpDestroySession
  | nfs41OpGetdeviceinfo
  | nfs41OpGetdevicelist
  | nfs41OpLayoutcommit
  | nfs41OpLayoutget
  | nfs41OpLayoutreturn
  | nfs41OpSequence
  | nfs41OpSetSsv
  | nfs41OpReclaimComplete
  deriving DecidableEq

/-- `nfs4_op_desc_t`. -/
structure OpDesc where
  name : String
  val : ℕ
  funct : Funct
  deriving DecidableEq

/-- `optab4index`: three operations are not there, and the others follow in order. -/
def optab4index : Build → List ℕ
  | .nfs40 => [0, 0, 0] ++ List.range 40
  | .nfs41 => [0, 0, 0] ++ List.range 59

def posIllegal : Build → ℕ
  | .nfs40 => 40
  | .nfs41 => 59

def optab4v0 : List OpDesc :=
  [⟨"OP_ACCESS", 3, .nfs4OpAccess⟩, ⟨"OP_CLOSE", 4, .nfs4OpClose⟩, ⟨"OP_COMMIT", 5, .nfs4OpCommit⟩,
    ⟨"OP_CREATE", 6, .nfs4OpCreate⟩, ⟨"OP_DELEGPURGE", 7, .nfs4OpDelegpurge⟩,
    ⟨"OP_DELEGRETURN", 8, .nfs4OpDelegreturn⟩, ⟨"OP_GETATTR", 9, .nfs4OpGetattr⟩,
    ⟨"OP_GETFH", 10, .nfs4OpGetfh⟩, ⟨"OP_LINK", 11, .nfs4OpLink⟩, ⟨"OP_LOCK", 12, .nfs4OpLock⟩,
    ⟨"OP_LOCKT", 13, .nfs4OpLockt⟩, ⟨"OP_LOCKU", 14, .nfs4OpLocku⟩,
    ⟨"OP_LOOKUP", 15, .nfs4OpLookup⟩, ⟨"OP_LOOKUPP", 16, .nfs4OpLookupp⟩,
    ⟨"OP_NVERIFY", 17, .nfs4OpNverify⟩, ⟨"OP_OPEN", 18, .nfs4OpOpen⟩,
    ⟨"OP_OPENATTR", 19, .nfs4OpOpenattr⟩, ⟨"OP_OPEN_CONFIRM", 20, .nfs4OpOpenConfirm⟩,
    ⟨"OP_OPEN_DOWNGRADE", 21, .nfs4OpOpenDowngrade⟩, ⟨"OP_PUTFH", 22, .nfs4OpPutfh⟩,
    ⟨"OP_PUTPUBFH", 23, .nfs4OpPutpubfh⟩, ⟨"OP_PUTROOTFH", 24, .nfs4OpPutrootfh⟩,
    ⟨"OP_READ", 25, .nfs4OpRead⟩, ⟨"OP_READDIR", 26, .nfs4OpReaddir⟩,
    ⟨"OP_READLINK", 27, .nfs4OpReadlink⟩, ⟨"OP_REMOVE", 28, .nfs4OpRemove⟩,
    ⟨"OP_RENAME", 29, .nfs4OpRename⟩, ⟨"OP_RENEW", 30, .nfs4OpRenew⟩,
    ⟨"OP_RESTOREFH", 31, .nfs4OpRestorefh⟩, ⟨"OP_SAVEFH", 32, .nfs4OpSavefh⟩,
    ⟨"OP_SECINFO", 33, .nfs4OpSecinfo⟩, ⟨"OP_SETATTR", 34, .nfs4OpSetattr⟩,
    ⟨"OP_SETCLIENTID", 35, .nfs4OpSetclientid⟩,
    ⟨"OP_SETCLIENTID_CONFIRM", 36, .nfs4OpSetclientidConfirm⟩, ⟨"OP_VERIFY", 37, .nfs4OpVerify⟩,
    ⟨"OP_WRITE", 38, .nfs4OpWrite⟩, ⟨"OP_RELEASE_LOCKOWNER", 39, .nfs4OpReleaseLockowner⟩,
    ⟨"OP_ILLEGAL", 10044, .nfs4OpIllegal⟩]

def optab4v1 : List OpDesc :=
  [⟨"OP_ACCESS", 3, .nfs4OpAccess⟩, ⟨"OP_CLOSE", 4, .nfs41OpClose⟩,
    ⟨"OP_COMMIT", 5, .nfs4OpCommit⟩, ⟨"OP_CREATE", 6, .nfs4OpCreate⟩,
    ⟨"OP_DELEGPURGE", 7, .nfs4OpDelegpurge⟩, ⟨"OP_DELEGRETURN", 8, .nfs4OpDelegreturn⟩,
    ⟨"OP_GETATTR", 9, .nfs4OpGetattr⟩, ⟨"OP_GETFH", 10, .nfs4OpGetfh⟩,
    ⟨"OP_LINK", 11, .nfs4OpLink⟩, ⟨"OP_LOCK", 12, .nfs41OpLock⟩, ⟨"OP_LOCKT", 13, .nfs41OpLockt⟩,
    ⟨"OP_LOCKU", 14, .nfs41OpLocku⟩, ⟨"OP_LOOKUP", 15, .nfs4OpLookup⟩,
    ⟨"OP_LOOKUPP", 16, .nfs4OpLookupp⟩, ⟨"OP_NVERIFY", 17, .nfs4OpNverify⟩,
    ⟨"OP_OPEN", 18, .nfs41OpOpen⟩, ⟨"OP_OPENATTR", 19, .nfs4OpOpenattr⟩,
    ⟨"OP_OPEN_CONFIRM", 20, .nfs4OpIllegal⟩, ⟨"OP_OPEN_DOWNGRADE", 21, .nfs4OpOpenDowngrade⟩,
    ⟨"OP_PUTFH", 22, .nfs4OpPutfh⟩, ⟨"OP_PUTPUBFH", 23, .nfs4OpPutpubfh⟩,
    ⟨"OP_PUTROOTFH", 24, .nfs4OpPutrootfh⟩, ⟨"OP_READ", 25, .nfs41OpRead⟩,
    ⟨"OP_READDIR", 26, .nfs4OpReaddir⟩, ⟨"OP_READLINK", 27, .nfs4OpReadlink⟩,
    ⟨"OP_REMOVE", 28, .nfs4OpRemove⟩, ⟨"OP_RENAME", 29, .nfs4OpRename⟩,
    ⟨"OP_RENEW", 30, .nfs4OpRenew⟩, ⟨"OP_RESTOREFH", 31, .nfs4OpRestorefh⟩,
    ⟨"OP_SAVEFH", 32, .nfs4OpSavefh⟩, ⟨"OP_SECINFO", 33, .nfs4OpSecinfo⟩,
    ⟨"OP_SETATTR", 34, .nfs4OpSetattr⟩, ⟨"OP_SETCLIENTID", 35, .nfs4OpSetclientid⟩,
    ⟨"OP_SETCLIENTID_CONFIRM", 36, .nfs4OpSetclientidConfirm⟩, ⟨"OP_VERIFY", 37, .nfs4OpVerify⟩,
    ⟨"OP_WRITE", 38, .nfs41OpWrite⟩, ⟨"OP_RELEASE_LOCKOWNER", 39, .nfs4OpReleaseLockowner⟩,
    ⟨"OP_BACKCHANNEL_CTL", 40, .nfs4OpIllegal⟩, ⟨"OP_BIND_CONN_TO_SESSION", 41, .nfs4OpIllegal⟩,
    ⟨"OP_EXCHANGE_ID", 42, .nfs41OpExchangeId⟩, ⟨"OP_CREATE_SESSION", 43, .nfs41OpCreateSession⟩,
    ⟨"OP_DESTROY_SESSION", 44, .nfs41OpDestroySession⟩, ⟨"OP_FREE_STATEID", 45, .nfs4OpIllegal⟩,
    ⟨"OP_GET_DIR_DELEGATION", 46, .nfs4OpIllegal⟩, ⟨"OP_GETDEVICEINFO", 47, .nfs41OpGetdeviceinfo⟩,
    ⟨"OP_GETDEVICELIST", 48, .nfs41OpGetdevicelist⟩, ⟨"OP_LAYOUTCOMMIT", 49, .nfs41OpLayoutcommit⟩,
    ⟨"OP_LAYOUTGET", 50, .nfs41OpLayoutget⟩, ⟨"OP_LAYOUTRETURN", 51, .nfs41OpLayoutreturn⟩,
    ⟨"OP_SECINFO_NO_NAME", 52, .nfs4OpIllegal⟩, ⟨"OP_SEQUENCE", 53, .nfs41OpSequence⟩,
    ⟨"OP_SET_SSV", 54, .nfs41OpSetSsv⟩, ⟨"OP_TEST_STATEID", 55, .nfs4OpIllegal⟩,
    ⟨"OP_WANT_DELEGATION", 56, .nfs4OpIllegal⟩, ⟨"OP_DESTROY_CLIENTID", 57, .nfs4OpIllegal⟩,
    ⟨"OP_RECLAIM_COMPLETE", 58, .nfs41OpReclaimComplete⟩, ⟨"OP_ILLEGAL", 10044, .nfs4OpIllegal⟩]

/-- `optabvers`, of a minor version that is accepted. -/
def optabvers : ℕ → List OpDesc
  | 0 => optab4v0
  | _ => optab4v1

def nfs4OpReleaseLockowner : ℕ := 39
def nfs4OpExchangeId : ℕ := 42
def nfs4OpCreateSession : ℕ := 43
def nfs4OpSequence : ℕ := 53
def nfs4OpReclaimComplete : ℕ := 58

/-- The minor versions that a build accepts. -/
def Accepts : Build → ℕ → Prop
  | .nfs40, minor => minor = 0
  | .nfs41, minor => minor ≤ 1

instance : (build : Build) → (minor : ℕ) → Decidable (Accepts build minor)
  | .nfs40, minor => inferInstanceAs (Decidable (minor = 0))
  | .nfs41, minor => inferInstanceAs (Decidable (minor ≤ 1))

/-- The entry of an operation code: two tables are indexed, one after the other. -/
def descOf (build : Build) (minor argop : ℕ) : Option OpDesc := do
  let pos ← (optab4index build)[argop]?
  (optabvers minor)[pos]?

/-! ## Requests and replies -/

abbrev nfs4Ok : ℕ := 0
def nfs4errMinorVersMismatch : ℕ := 10021
def nfs4errResource : ℕ := 10018
def nfs4errNotOnlyOp : ℕ := 10081
def nfs4errTooManyOps : ℕ := 10070
def nfs4errOpIllegal : ℕ := 10044

/-- `nfs_argop4`. -/
structure ArgOp (α : Type) where
  argop : ℕ
  args : α

/-- `nfs_resop4`: its status, and the rest of it. -/
structure ResOp (ρ : Type) where
  status : ℕ
  body : ρ
  deriving DecidableEq

/-- `COMPOUND4res`: the status, the length of the array, and the entries that were written. -/
structure Reply (ρ : Type) where
  status : ℕ
  len : ℕ
  entries : List (ResOp ρ)
  deriving DecidableEq

/-- What is read here of `compound_data_t`: the position, `ca_maxoperations` of the session if there
is one, whether the reply is taken from the cache, and the cached reply; `rest` is the part of the
operations. -/
structure CompoundData (σ ρ : Type) where
  oppos : ℕ
  maxOperations : Option ℕ
  useDrc : Bool
  cachedRes : Option (Reply ρ)
  rest : σ

/-- The functions of the tables: from the data, the new data and the reply with the status that is
returned. What they write to the reply before is 0. -/
structure Operations (σ α ρ : Type) where
  run : Funct → ArgOp α → CompoundData σ ρ → CompoundData σ ρ × ResOp ρ
  empty : ρ
  illegal : ∀ op data, (run .nfs4OpIllegal op data).1 = data ∧
    (run .nfs4OpIllegal op data).2.status = nfs4errOpIllegal

/-- The level of the log. -/
inductive LogLevel
  | event
  | debug
  | fullDebug
  deriving DecidableEq

/-- A request, and what the server has for it: whether there are credentials and memory, the length
that the reply had before, and the data that the operations begin with. -/
structure Request (σ α ρ : Type) where
  minorversion : ℕ
  argarray : List (ArgOp α)
  log : LogLevel
  credOk : Bool
  allocOk : Bool
  oldLen : ℕ
  start : σ

/-- What a compound does: the functions that are called, the data behind them, and the reply;
`cached` is what is copied to the cache of the session. -/
structure Outcome (σ α ρ : Type) where
  calls : List (Funct × ArgOp α)
  data : CompoundData σ ρ
  reply : Reply ρ
  cached : Option (Reply ρ)

/-- `NFS_REQ_DROP`, or `NFS_REQ_OK` with what was done. -/
inductive Result (σ α ρ : Type)
  | drop
  | ok (outcome : Outcome σ α ρ)

variable {σ α ρ : Type} (ops : Operations σ α ρ) (build : Build)

/-- The data before the first operation. -/
def initialData (start : σ) : CompoundData σ ρ where
  oppos := 0
  maxOperations := none
  useDrc := false
  cachedRes := none
  rest := start

/-- The position is told to the operations in the build for NFSv4.1. -/
def setOppos (i : ℕ) (data : CompoundData σ ρ) : CompoundData σ ρ :=
  match build with
  | .nfs40 => data
  | .nfs41 => { data with oppos := i }

/-- The session allows no more operations. -/
def tooManyOps (minor i : ℕ) (data : CompoundData σ ρ) : Prop :=
  build = .nfs41 ∧ minor = 1 ∧ data.maxOperations = some i

instance (minor i : ℕ) (data : CompoundData σ ρ) : Decidable (tooManyOps build minor i data) :=
  inferInstanceAs (Decidable (_ ∧ _))

/-- The operation code is one of the minor version. -/
def inTable (minor argop : ℕ) : Prop :=
  argop ≤ nfs4OpReleaseLockowner ∧ minor = 0 ∨
    build = .nfs41 ∧ argop ≤ nfs4OpReclaimComplete ∧ minor = 1

instance (minor argop : ℕ) : Decidable (inTable build minor argop) :=
  inferInstanceAs (Decidable (_ ∨ _))

/-- The entry that an operation is dispatched to. -/
def dispatch (minor argop : ℕ) : Option OpDesc :=
  if inTable build minor argop then descOf build minor argop
  else descOf build minor (posIllegal build)

/-- Behind the first operation of a compound of NFSv4.1: whether the reply is replayed; the table is
indexed with the first operation code. -/
def replays (minor i argop : ℕ) (data : CompoundData σ ρ) : Option Bool :=
  if build = .nfs41 ∧ minor = 1 ∧ i = 0 then do
    let desc ← descOf build 1 argop
    some ((desc.val = nfs4OpSequence ∨ desc.val = nfs4OpCreateSession) ∧ data.useDrc)
  else some false

/-- The state of the loop. -/
structure Loop (σ α ρ : Type) where
  calls : List (Funct × ArgOp α)
  data : CompoundData σ ρ
  len : ℕ
  entries : List (ResOp ρ)
  status : ℕ
  i : ℕ
  replay : Option (Reply ρ)

/-- The loop over the operations; it is left by `break` with the `i` of the operation. -/
def operationsLoop (minor : ℕ) : List (ArgOp α) → Loop σ α ρ → Option (Loop σ α ρ)
  | [], s => some s
  | op :: rest, s => do
    let data := setOppos build s.i s.data
    if tooManyOps build minor s.i data then
      -- the length stays the one of the request
      some { s with
        data := data
        status := nfs4errTooManyOps
        entries := s.entries ++ [⟨nfs4errTooManyOps, ops.empty⟩] }
    else
      let desc ← dispatch build minor op.argop
      let r := ops.run desc.funct op data
      let s' := { s with
        calls := s.calls ++ [(desc.funct, op)]
        data := r.1
        entries := s.entries ++ [r.2]
        status := r.2.status }
      if r.2.status ≠ nfs4Ok then some { s' with len := s.i + 1 }
      else if ← replays build minor s.i op.argop r.1 then
        let cached ← r.1.cachedRes
        some { s' with status := cached.status, replay := some cached }
      else operationsLoop minor rest { s' with i := s.i + 1 }

/-- The loop that writes the names to the log. -/
def debugLoop (minor : ℕ) (argarray : List (ArgOp α)) : Prop :=
  ∀ op ∈ argarray, (descOf build minor op.argop).isSome

instance (minor : ℕ) (argarray : List (ArgOp α)) : Decidable (debugLoop build minor argarray) :=
  inferInstanceAs (Decidable (∀ op ∈ argarray, _))

/-- The check for an EXCHANGE_ID that is not alone; the table is indexed with the first operation
code. -/
def notOnlyOp : List (ArgOp α) → Option Bool
  | op :: _ :: _ =>
    match build with
    | .nfs40 => some false
    | .nfs41 => (descOf build 1 op.argop).map fun desc => desc.val = nfs4OpExchangeId
  | _ => some false

/-- An outcome without operations. -/
def Outcome.early (start : σ) (reply : Reply ρ) : Outcome σ α ρ where
  calls := []
  data := initialData start
  reply := reply
  cached := none

def nfs4Compound (req : Request σ α ρ) : Option (Result σ α ρ) :=
  if ¬ Accepts build req.minorversion then
    some (.ok (.early req.start ⟨nfs4errMinorVersMismatch, 0, []⟩))
  else if req.argarray.length = 0 then some (.ok (.early req.start ⟨nfs4Ok, 0, []⟩))
  else if 30 < req.argarray.length then some (.ok (.early req.start ⟨nfs4errResource, 0, []⟩))
  else if ¬ req.credOk then some .drop
  else if ¬ req.allocOk then some .drop
  else if req.log = .fullDebug ∧ ¬ debugLoop build req.minorversion req.argarray then none
  else do
    if ← notOnlyOp build req.argarray then
      -- the length of the reply is not set
      some (.ok (.early req.start ⟨nfs4errNotOnlyOp, req.oldLen, [⟨nfs4errNotOnlyOp, ops.empty⟩]⟩))
    else
      let s ← operationsLoop ops build req.minorversion req.argarray
        { calls := [], data := initialData req.start, len := req.argarray.length, entries := [],
          status := nfs4Ok, i := 0, replay := none }
      let reply := (s.replay.map fun r => { r with status := s.status }).getD
        ⟨s.status, s.len, s.entries⟩
      -- the last message of the log reads the entry before the one where the loop ended
      if req.log ≠ .event ∧ s.i = 0 then none
      else
        some (.ok
          { calls := s.calls
            data := s.data
            reply := reply
            cached := if req.minorversion = 1 ∧ s.data.cachedRes.isSome then some reply else none })

end Ganesha.Compound
