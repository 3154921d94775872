import Mathlib.Logic.Function.Basic
import Ganesha.HashTable.Common

/-!
# NFSv4 states

`Cache_inode/cache_inode_state.c`, with the two tables of `support/nfs_state_id.c` and
`support/nfs_open_owner.c`. States, owners and cache entries are in memories indexed by addresses;
the tables are maps, as the runs of the hash table are those of a map. What the functions ask of the
rest of the server (the file system, the allocator of the hash table) is given to them.

A call gives `none` when it reads through `NULL` or its loop runs out of fuel.
-/

namespace Ganesha.Nfs4
open Ganesha.Hash (getPrealloc releasePrealloc)

/-- The codes of `cache_inode_status_t` that the functions below tell apart. -/
inductive CacheStatus
  | success
  | notFound
  | invalidArgument
  | mallocError
  | stateError
  | stateConflict
  | entryExists
  | other (code : ℕ)
  deriving DecidableEq

/-- `nfsstat4`. `errno` is what `nfs4_Errno` gives for a status of the cache. -/
inductive NfsStat
  | ok
  | access
  | exist
  | notdir
  | isdir
  | inval
  | nametoolong
  | notsupp
  | symlink
  | serverfault
  | attrnotsupp
  | badxdr
  | shareDenied
  | staleClientid
  | staleStateid
  | badStateid
  | oldStateid
  | badSeqid
  | openmode
  | denied
  | locksHeld
  | lockRange
  | errno (status : CacheStatus)
  | other (code : ℕ)
  deriving DecidableEq

/-- `internal_md.type`. -/
inductive FileType
  | regular
  | directory
  | symlink
  | other
  deriving DecidableEq

/-- The 12 bytes of `stateid.other`, in the three parts that `nfs4_BuildStateId_Other` fills. -/
structure Other where
  srvboot : UInt16
  fileid : UInt64
  openOwner : UInt16
  deriving DecidableEq

/-- `cache_inode_state_type_t`. -/
inductive StateType
  | none
  | share
  | lock
  | layout
  | deleg
  deriving DecidableEq

/-- `nfs_lock_type4`. -/
inductive LockType
  | read
  | write
  | readw
  | writew
  deriving DecidableEq

/-- The value of the enumeration. -/
def LockType.toNat : LockType → ℕ
  | read => 1
  | write => 2
  | readw => 3
  | writew => 4

/-- The union `cache_inode_state_data_t`: `cache_inode_share_t` or `cache_inode_lock_t`. -/
inductive StateData
  | share (oexclVerifier : List UInt8) (shareAccess shareDeny : ℕ) (lockheld : UInt32)
  | lock (lockType : LockType) (offset length : UInt64) (popenstate : ℕ)
  deriving DecidableEq

namespace StateData

/-- `share.share_access`; it is read of share states only. -/
def shareAccess : StateData → ℕ
  | share _ access _ _ => access
  | lock .. => 0

/-- `share.share_deny`; it is read of share states only. -/
def shareDeny : StateData → ℕ
  | share _ _ deny _ => deny
  | lock .. => 0

/-- `share.oexcl_verifier`; it is read of share states only. -/
def oexclVerifier : StateData → List UInt8
  | share verifier _ _ _ => verifier
  | lock .. => []

/-- `share.lockheld`, which lies where `lock.lock_type` does. -/
def lockheld : StateData → ℕ
  | share _ _ _ held => held.toNat
  | lock type .. => type.toNat

/-- Assign `share.lockheld`; on a lock this would overwrite its type. -/
def setLockheld (f : UInt32 → UInt32) : StateData → Option StateData
  | share verifier access deny held => some (share verifier access deny (f held))
  | lock .. => none

end StateData

/-- `cache_inode_open_owner_name_t`. -/
structure OwnerName where
  clientid : UInt64
  ownerVal : List UInt8
  deriving DecidableEq

/-- `cache_inode_open_owner_t`. -/
structure Owner where
  name : OwnerName
  confirmed : Bool
  seqid : UInt32
  counter : UInt32
  relatedOwner : Option ℕ

/-- `cache_inode_state_t`. -/
structure State where
  type : StateType
  data : StateData
  seqid : UInt32
  stateidOther : Other
  powner : ℕ
  next : Option ℕ
  prev : Option ℕ
  pentry : Option ℕ

/-- What the functions read of `cache_entry_t`; `digest` is what `FSAL_DigestHandle` gives for the
handle of the entry, if it does not fail. -/
structure Entry where
  type : FileType
  digest : Option UInt64
  pstateHead : Option ℕ
  pstateTail : Option ℕ

/-- The server. The two name lengths depend on the file system it is built for. An address of
`entries` without entry is not in the cache. `allocs` counts the states taken from the pool; it is
not in the source and only bounds the loops. -/
structure Server where
  serverBootTime : UInt16
  fsalMaxNameLen : ℕ
  maxnamlen : ℕ
  returnBadStateid : Bool
  nbPreStateV4 : UInt32
  entries : ℕ → Option Entry
  states : ℕ → State
  owners : ℕ → Owner
  poolStateV4 : List ℕ
  stateArrays : ℕ → List ℕ
  poolOpenOwner : List ℕ
  ownerArrays : ℕ → List ℕ
  htStateId : Other → Option ℕ
  htOpenOwner : OwnerName → Option ℕ
  openOwnerCounter : UInt32
  allocs : ℕ

namespace Server

/-- Assign fields of one state. -/
def setState (s : Server) (p : ℕ) (f : State → State) : Server :=
  { s with states := Function.update s.states p (f (s.states p)) }

/-- Assign fields of a state through a pointer, unless it is `NULL`. -/
def setStateAt (s : Server) (p : Option ℕ) (f : State → State) : Server :=
  match p with
  | some p => s.setState p f
  | none => s

/-- Assign fields of one owner. -/
def setOwner (s : Server) (o : ℕ) (f : Owner → Owner) : Server :=
  { s with owners := Function.update s.owners o (f (s.owners o)) }

/-- Assign fields of one entry. -/
def setEntry (s : Server) (e : ℕ) (f : Entry → Entry) : Server :=
  { s with entries := Function.update s.entries e ((s.entries e).map f) }

/-- `P(powner->lock); powner->seqid += 1; V(powner->lock);` -/
def incrSeqid (s : Server) (o : ℕ) : Server :=
  s.setOwner o fun owner => { owner with seqid := owner.seqid + 1 }

end Server

/-! ## Conflicts -/

/-- The test of `cache_inode_state_conflict` on two share states. -/
def StateData.conflicts (data data' : StateData) : Bool :=
  data.shareAccess &&& data'.shareDeny ≠ 0 ∨ data.shareDeny &&& data'.shareAccess ≠ 0

def cacheInodeStateConflict (pstate : State) (type : StateType) (data : StateData) : Bool :=
  -- the case of LOCK sets `rc` again, whatever it is
  let lockCase (_ : Bool) := false
  match type with
  | .none => false
  | .share =>
    -- there is no `break` at the end of this case
    lockCase (pstate.type = .share ∧ pstate.data.conflicts data)
  | .lock => lockCase false
  | .layout => false
  | .deleg => true

/-! ## The table of states -/

def nfs4BuildStateIdOther (s : Server) (entry : Entry) (powner : ℕ) : Option Other :=
  if entry.type ≠ .regular then none
  else entry.digest.map fun fileid =>
    { srvboot := s.serverBootTime
      fileid := fileid
      openOwner := (s.owners powner).counter.toUInt16 }

/-- `nfs4_State_Set`; `ok` says that the hash table finds the memory it needs. -/
def nfs4StateSet (s : Server) (other : Other) (p : ℕ) (ok : Bool) : Option Server :=
  if ok then some { s with htStateId := Function.update s.htStateId other (some p) } else none

def nfs4StateDel (s : Server) (other : Other) : Option Server :=
  (s.htStateId other).map fun _ => { s with htStateId := Function.update s.htStateId other none }

/-- `nfs4_Check_Stateid` without a client id; `clientKnown` is what `nfs_client_id_get` says of the
client of the owner. -/
def nfs4CheckStateid (s : Server) (other : Other) (type : FileType) (clientKnown : Bool) : NfsStat :=
  if type ≠ .regular then .serverfault
  else match s.htStateId other with
    | none => if s.returnBadStateid then .badStateid else .ok
    | some _ =>
      if ¬ clientKnown then if s.returnBadStateid then .badStateid else .ok
      else if s.serverBootTime ≠ other.srvboot then .staleStateid
      else .ok

/-! ## States of a file -/

/-- The loop of `cache_inode_add_state`: whether a conflict was found, and `piter_saved`. -/
def addStateLoop (s : Server) (type : StateType) (data : StateData) :
    ℕ → Option ℕ → Option ℕ → Option (Bool × Option ℕ)
  | _, none, saved => some (false, saved)
  | 0, some _, _ => none
  | fuel + 1, some iter, saved =>
    if cacheInodeStateConflict (s.states iter) type data then some (true, saved)
    else addStateLoop s type data fuel (s.states iter).next (some iter)

/-- The type and the data of a new state, and its entry in the hash table. -/
def addStateEnd (s : Server) (pentry p : ℕ) (other : Other) (type : StateType) (data : StateData)
    (powner : ℕ) (setOk : Bool) : CacheStatus × Option ℕ × Server :=
  let s := s.setState p fun st =>
    { st with
      stateidOther := other
      type := type
      data := data
      seqid := 0
      pentry := some pentry
      powner := powner }
  match nfs4StateSet s other p setOk with
  | none => (.stateError, none, s)
  | some s => (.success, some p, s)

/-- `cache_inode_add_state`. The entry of the state in the list of a file that has states is made
before its `stateid_other`, that of the first one after it. -/
def cacheInodeAddState (s : Server) (pentry : Option ℕ) (type : StateType) (data : StateData)
    (powner : ℕ) (setOk : Bool) : Option (CacheStatus × Option ℕ × Server) :=
  match pentry with
  | none => some (.invalidArgument, none, s)
  | some e => (s.entries e).bind fun entry =>
    -- only regular files have states
    if entry.type ≠ .regular then some (.invalidArgument, none, s)
    else match getPrealloc s.nbPreStateV4 s.poolStateV4 s.stateArrays with
      | (none, pool, arrays) =>
        some (.mallocError, none, { s with poolStateV4 := pool, stateArrays := arrays })
      | (some p, pool, arrays) =>
        let s := { s with poolStateV4 := pool, stateArrays := arrays, allocs := s.allocs + 1 }
        match entry.pstateHead with
        | none =>
          -- the first state of the file
          let s := s.setState p fun st => { st with next := none, prev := none }
          match nfs4BuildStateIdOther s entry powner with
          | none => some (.stateError, none, s)
          | some other =>
            let s := s.setEntry e fun entry => { entry with pstateHead := some p }
            some (addStateEnd s e p other type data powner setOk)
        | some head =>
          -- the loop ends at the last state of the list
          (addStateLoop s type data s.allocs (some head) none).bind fun (conflict, saved) =>
            -- a conflict does not give the state back
            if conflict then some (.stateConflict, none, s)
            else saved.bind fun last =>
              -- the state is linked behind the last one
              let s := s.setState p fun st => { st with next := none, prev := some last }
              let s := s.setState last fun st => { st with next := some p }
              match nfs4BuildStateIdOther s entry powner with
              | none => some (.stateError, none, s)
              | some other =>
                let s := s.setEntry e fun entry => { entry with pstateTail := some p }
                some (addStateEnd s e p other type data powner setOk)

def cacheInodeGetState (s : Server) (other : Other) : Option ℕ := s.htStateId other

/-- The state leaves the list of its file. -/
def unlinkState (s : Server) (e p : ℕ) (entry : Entry) : Server :=
  let next := (s.states p).next
  let prev := (s.states p).prev
  let s := if entry.pstateHead = some p then
      s.setEntry e fun entry => { entry with pstateHead := next }
    else s
  let s := s.setStateAt next fun st => { st with prev := prev }
  s.setStateAt prev fun st => { st with next := next }

/-- The fields of a deleted state are reset and it goes back to the pool. -/
def releaseState (s : Server) (p : ℕ) : Server :=
  let s := s.setState p fun st =>
    { st with
      stateidOther := ⟨0, 0, 0⟩
      type := .none
      next := none
      prev := none
      pentry := none }
  { s with poolStateV4 := releasePrealloc p s.poolStateV4 }

def cacheInodeDelStateByKey (s : Server) (other : Other) : Option (CacheStatus × Server) :=
  match s.htStateId other with
  | none => some (.notFound, s)
  | some p => (s.states p).pentry.bind fun e => (s.entries e).bind fun entry =>
    let s := unlinkState s e p entry
    if (s.states p).stateidOther = other then
      match nfs4StateDel s (s.states p).stateidOther with
      | none => some (.stateError, s)
      | some s => some (.success, releaseState s p)
    else some (.success, s)

def cacheInodeDelState (s : Server) (p : ℕ) : Option (CacheStatus × Server) :=
  match s.htStateId (s.states p).stateidOther with
  | none => some (.notFound, s)
  | some _ => (s.states p).pentry.bind fun e => (s.entries e).bind fun entry =>
    let s := unlinkState s e p entry
    match nfs4StateDel s (s.states p).stateidOther with
    | none => some (.stateError, s)
    | some s => some (.success, releaseState s p)

/-- `cache_inode_state_iterate`: the next state, or an error. A call that does not fail leaves the
status as it was. -/
def cacheInodeStateIterate (s : Server) (e : ℕ) (entry : Entry) (previous : Option ℕ) :
    Except CacheStatus (Option ℕ) :=
  if entry.digest = none then .error .stateError
  else match previous with
    | none => .ok entry.pstateHead
    | some p =>
      if (s.states p).pentry ≠ some e then .error .stateError else .ok (s.states p).next

/-- The states that are met from a pointer on. -/
def walk (s : Server) : ℕ → Option ℕ → List ℕ
  | _, none => []
  | 0, some _ => []
  | fuel + 1, some p => p :: walk s fuel (s.states p).next

/-- The states of a file. -/
def statesOf (s : Server) (e : ℕ) : List ℕ :=
  walk s s.allocs ((s.entries e).bind Entry.pstateHead)

/-! ## Owners -/

/-- `nfs_open_owner_Set`; `ok` says that the hash table finds the memory it needs. -/
def nfsOpenOwnerSet (s : Server) (name : OwnerName) (o : ℕ) (ok : Bool) : Bool × Server :=
  let s := { s with openOwnerCounter := s.openOwnerCounter + 1 }
  let s := s.setOwner o fun owner => { owner with counter := s.openOwnerCounter }
  if ok ∧ s.htOpenOwner name = none then
    (true, { s with htOpenOwner := Function.update s.htOpenOwner name (some o) })
  else (false, s)

end Ganesha.Nfs4
