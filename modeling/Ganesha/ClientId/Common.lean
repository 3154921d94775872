import Ganesha.HashTable.Common
import Ganesha.Library.Transition

/-!
# Client records

`support/nfs_client_id.c`: the records of the NFSv4 clients, filed in one table by clientid and in
another one by name. The tables are maps. (The tree of the second one is ordered by
`nfs_client_id_compute`, which reads one byte behind its array; the map stands for runs in which that
byte does not change.) A name is the C string in `client_name`, its bytes before the first `NUL`.

The pool of records is a parameter that the functions change for themselves only: they return its
last value here, and the callers go on with the pool they passed.
-/

namespace Ganesha.ClientId
open Ganesha.Hash (getPrealloc releasePrealloc)

/-- The codes `CLIENT_ID_*`. -/
inductive Status
  | success
  | insertMallocError
  | notFound
  deriving DecidableEq

/-- `nfs_clientid_confirm_state_t`. -/
inductive ConfirmState
  | confirmed
  | unconfirmed
  | rebooted
  | cbReconfigured
  deriving DecidableEq

/-- `nfs_client_id_t` without the fields of NFSv4.1; the credential is only copied. -/
structure ClientRecord where
  clientName : List UInt8
  clientid : UInt64
  cbProgram : UInt32
  clientRAddr : List UInt8
  clientRNetid : List UInt8
  verifier : List UInt8
  incomingVerifier : List UInt8
  lastRenew : ℤ
  confirmed : ConfirmState
  credential : ℕ
  deriving DecidableEq

/-- The tables with the memory of the records, the pools of the workers and the arrays of records
that the allocator is going to give. `used` lists the records that calls have taken; it is not in the
source. -/
structure Clients where
  nbClientIdPrealloc : UInt32
  htClientId : UInt64 → Option ℕ
  htClientIdReverse : List UInt8 → Option ℕ
  record : ℕ → ClientRecord
  clientidPool : ℕ → List ℕ
  arrays : ℕ → List ℕ
  used : List ℕ

/-- What the allocator answers to the two `Mem_Alloc` of the keys, and whether there is a node for a
new key of each table. -/
structure Allocs where
  clientidOk : Bool
  nameOk : Bool
  setOk : Bool
  reverseOk : Bool

/-- `HashTable_Test_And_Set` with `HASHTABLE_SET_HOW_SET_OVERWRITE`: only a new key needs a node. -/
def hashTableSet {κ : Type} [DecidableEq κ] (ht : κ → Option ℕ) (key : κ) (p : ℕ) (ok : Bool) :
    Option (κ → Option ℕ) :=
  if ht key ≠ none ∨ ok then some (Function.update ht key (some p)) else none

/-- `nfs_client_id_add` and `nfs_client_id_set` from the record `p` on. -/
def clientIdInsert (s : Clients) (clientid : UInt64) (record : ClientRecord) (p : ℕ)
    (allocs : Allocs) : Status × Clients :=
  if ¬ allocs.clientidOk ∨ ¬ allocs.nameOk then (.insertMallocError, s)
  else
    let s := { s with record := Function.update s.record p record }
    match hashTableSet s.htClientId clientid p allocs.setOk with
    | none => (.insertMallocError, s)
    | some ht =>
      let s := { s with htClientId := ht }
      match hashTableSet s.htClientIdReverse record.clientName p allocs.reverseOk with
      | none => (.insertMallocError, s)
      | some ht => (.success, { s with htClientIdReverse := ht })

/-- The common body of `nfs_client_id_add` and `nfs_client_id_set`. Gives the status, the tables and
the last value of the parameter `nfs_client_id_pool`. -/
def clientIdStore (s : Clients) (clientid : UInt64) (record : ClientRecord) (pool : List ℕ)
    (allocs : Allocs) : Status × Clients × List ℕ :=
  match getPrealloc s.nbClientIdPrealloc pool s.arrays with
  | (none, pool, arrays) => (.insertMallocError, { s with arrays }, pool)
  | (some p, pool, arrays) =>
    let (status, s) :=
      clientIdInsert { s with arrays, used := p :: s.used } clientid record p allocs
    (status, s, pool)

def nfsClientIdAdd (s : Clients) (clientid : UInt64) (record : ClientRecord) (pool : List ℕ)
    (allocs : Allocs) : Status × Clients × List ℕ :=
  clientIdStore s clientid record pool allocs

def nfsClientIdSet (s : Clients) (clientid : UInt64) (record : ClientRecord) (pool : List ℕ)
    (allocs : Allocs) : Status × Clients × List ℕ :=
  clientIdStore s clientid record pool allocs

/-- `nfs_client_id_get`, with the answer to its `Mem_Alloc`. -/
def nfsClientIdGet (s : Clients) (clientid : UInt64) (allocOk : Bool) :
    Status × Option ClientRecord :=
  if ¬ allocOk then (.insertMallocError, none)
  else match s.htClientId clientid with
    | some p => (.success, some (s.record p))
    | none => (.notFound, none)

def nfsClientIdGetReverse (s : Clients) (key : List UInt8) : Status × Option ClientRecord :=
  match s.htClientIdReverse key with
  | some p => (.success, some (s.record p))
  | none => (.notFound, none)

/-- `nfs_client_id_remove`, with the answer to its `Mem_Alloc`. -/
def nfsClientIdRemove (s : Clients) (clientid : UInt64) (pool : List ℕ) (allocOk : Bool) :
    Status × Clients × List ℕ :=
  if ¬ allocOk then (.insertMallocError, s, pool)
  else match s.htClientId clientid with
    | none => (.notFound, s, pool)
    | some p =>
      let s := { s with htClientId := Function.update s.htClientId clientid none }
      match s.htClientIdReverse (s.record p).clientName with
      | none => (.notFound, s, releasePrealloc p pool)
      | some _ =>
        (.success,
          { s with
            htClientIdReverse :=
              Function.update s.htClientIdReverse (s.record p).clientName none },
          releasePrealloc p pool)

/-- A call with the pool of the worker `w`. -/
inductive Event
  | add (w : ℕ) (clientid : UInt64) (record : ClientRecord) (allocs : Allocs)
  | set (w : ℕ) (clientid : UInt64) (record : ClientRecord) (allocs : Allocs)
  | remove (w : ℕ) (clientid : UInt64) (allocOk : Bool)

/-- The tables after a call. The worker keeps the pool that it has passed. -/
def step (s : Clients) : Event → Option Clients
  | .add w clientid record allocs =>
    some (nfsClientIdAdd s clientid record (s.clientidPool w) allocs).2.1
  | .set w clientid record allocs =>
    some (nfsClientIdSet s clientid record (s.clientidPool w) allocs).2.1
  | .remove w clientid allocOk =>
    some (nfsClientIdRemove s clientid (s.clientidPool w) allocOk).2.1

end Ganesha.ClientId
