import Ganesha.LRU.Common
import Ganesha.Library.Transition

/-!
# The duplicate request cache

`MainNFSD/nfs_dupreq.c`. All workers share one hash table from xids to records, which is a map here;
each worker has its own LRU list and its own pool of records. The garbage collection is the one of
`worker_thread` in `MainNFSD/nfs_worker_thread.c`: `LRU_invalidate_by_function` followed by
`LRU_gc_invalid`.
-/

namespace Ganesha.DupReq
open Ganesha.Hash (getPrealloc releasePrealloc)
open Ganesha.Lru

/-- The codes `DUPREQ_*`. -/
inductive Status
  | success
  | insertMallocError
  | notFound
  deriving DecidableEq

/-- What is read of `struct svc_req`. -/
structure SvcReq where
  rqProg : UInt64
  rqVers : UInt64
  rqProc : UInt64

/-- `dupreq_entry_t`; a result is of a type `R`. -/
structure DupreqEntry (R : Type) where
  xid : Int64
  resNfs : R
  rqProg : UInt64
  rqVers : UInt64
  rqProc : UInt64
  timestamp : ℤ

/-- The tables of function descriptors. -/
inductive FuncTable
  | nfs2
  | nfs3
  | nfs4
  | mnt1
  | mnt3
  | nlm4
  | rquota1
  | rquota2

/-- What is read of `nfs_param`, and the free functions of the descriptors. The programs of NLM and
of the quotas are there when they are compiled in. -/
structure Param (R : Type) where
  nfsProgram : UInt64
  mntProgram : UInt64
  nlmProgram : Option UInt64
  rquotaProgram : Option UInt64
  nbDupreqPrealloc : UInt32
  expirationDupreq : ℤ
  freeFunction : FuncTable → UInt64 → R → R

/-- What a worker has of its own; `dupreqArrays` are the arrays of records that the allocator is
going to give it. -/
structure Worker where
  duplicateRequest : LruList
  dupreqPool : List ℕ
  dupreqArrays : ℕ → List ℕ

/-- The cache with the memory of the records. -/
structure Server (R : Type) where
  param : Param R
  htDupreq : Int64 → Option ℕ
  dupreq : ℕ → DupreqEntry R
  worker : ℕ → Worker

variable {R : Type}

namespace Server

def setDupreq (s : Server R) (p : ℕ) (f : DupreqEntry R → DupreqEntry R) : Server R :=
  { s with dupreq := Function.update s.dupreq p (f (s.dupreq p)) }

def setWorker (s : Server R) (w : ℕ) (f : Worker → Worker) : Server R :=
  { s with worker := Function.update s.worker w (f (s.worker w)) }

end Server

/-- The descriptor that `clean_entry_dupreq` locates; `none` when it is used without having been
assigned. -/
def funcdesc (param : Param R) (d : DupreqEntry R) : Option (FuncTable × UInt64) :=
  if d.rqProg = param.nfsProgram then
    if d.rqVers = 2 then some (.nfs2, d.rqProc)
    else if d.rqVers = 3 then some (.nfs3, d.rqProc)
    else if d.rqVers = 4 then some (.nfs4, d.rqProc)
    else some (.nfs2, 0)
  else if d.rqProg = param.mntProgram then
    if d.rqVers = 1 then some (.mnt1, d.rqProc)
    else if d.rqVers = 3 then some (.mnt3, d.rqProc)
    else none
  else if some d.rqProg = param.nlmProgram then
    if d.rqVers = 4 then some (.nlm4, d.rqProc) else none
  else if some d.rqProg = param.rquotaProgram then
    if d.rqVers = 1 then some (.rquota1, d.rqProc)
    else if d.rqVers = 2 then some (.rquota2, d.rqProc)
    else none
  else none

/-- `clean_entry_dupreq` on the record `p`, for the worker `w`. `HashTable_Del` gives no other error
than a missing key. -/
def cleanEntryDupreq (w p : ℕ) (s : Server R) : Option (Bool × Server R) :=
  let pdupreq := s.dupreq p
  match s.htDupreq pdupreq.xid with
  | none => some (true, s)
  | some _ =>
    match funcdesc s.param pdupreq with
    | none => none
    | some (table, proc) =>
      let s := { s with htDupreq := Function.update s.htDupreq pdupreq.xid none }
      let s := s.setDupreq p fun d => { d with resNfs := s.param.freeFunction table proc d.resNfs }
      some (true, s.setWorker w fun d => { d with dupreqPool := releasePrealloc p d.dupreqPool })

/-- `HashTable_Set`: the value of a key that is there is replaced, a new key needs a node, which
`setOk` says there is. -/
def hashTableSet (s : Server R) (xid : Int64) (p : ℕ) (setOk : Bool) : Option (Server R) :=
  if s.htDupreq xid ≠ none ∨ setOk then
    some { s with htDupreq := Function.update s.htDupreq xid (some p) }
  else none

/-- `nfs_dupreq_add` from the record on. -/
def dupreqInsert (s : Server R) (w : ℕ) (xid : Int64) (p : ℕ) (setOk : Bool) :
    Status × Server R :=
  match hashTableSet s xid p setOk with
  | none => (.insertMallocError, s)
  | some s =>
    match lruNewEntry (s.worker w).duplicateRequest with
    | (none, l) =>
      (.insertMallocError, s.setWorker w fun d => { d with duplicateRequest := l })
    | (some pentry, l) =>
      (.success, s.setWorker w fun d =>
        { d with duplicateRequest := l.setEntry pentry fun e => { e with pdata := p } })

def nfsDupreqAdd (s : Server R) (w : ℕ) (xid : Int64) (req : SvcReq) (resNfs : R) (now : ℤ)
    (setOk : Bool) : Status × Server R :=
  let d := s.worker w
  match getPrealloc s.param.nbDupreqPrealloc d.dupreqPool d.dupreqArrays with
  | (none, dupreqPool, dupreqArrays) =>
    (.insertMallocError, s.setWorker w fun d => { d with dupreqPool, dupreqArrays })
  | (some p, dupreqPool, dupreqArrays) =>
    let s := s.setWorker w fun d => { d with dupreqPool, dupreqArrays }
    let s := s.setDupreq p fun _ => ⟨xid, resNfs, req.rqProg, req.rqVers, req.rqProc, now⟩
    dupreqInsert s w xid p setOk

def nfsDupreqGet (s : Server R) (xid : Int64) (now : ℤ) : Status × Option R × Server R :=
  match s.htDupreq xid with
  | some p =>
    let s := s.setDupreq p fun d => { d with timestamp := now }
    (.success, some (s.dupreq p).resNfs, s)
  | none => (.notFound, none, s)

/-- `nfs_dupreq_gc_function` on an entry of the LRU list of the worker `w`. -/
def nfsDupreqGcFunction (now : ℤ) (s : Server R) (w pentry : ℕ) : Bool :=
  now - (s.dupreq ((s.worker w).duplicateRequest.entry pentry).pdata).timestamp >
    s.param.expirationDupreq

/-- The garbage collection of a worker. -/
def dupreqGc (s : Server R) (w : ℕ) (testfunc : ℕ → Bool) : Option (Server R) :=
  match lruInvalidateByFunction (s.worker w).duplicateRequest testfunc with
  | none => none
  | some (_, l) =>
    match lruGcInvalid (cleanEntryDupreq w) l s with
    | none => none
    | some (_, l, s) => some (s.setWorker w fun d => { d with duplicateRequest := l })

/-- A call. The garbage collection may decide by any function, `nfs_dupreq_gc_function` at any time
among them. -/
inductive Event (R : Type)
  | add (w : ℕ) (xid : Int64) (req : SvcReq) (resNfs : R) (now : ℤ) (setOk : Bool)
  | get (xid : Int64) (now : ℤ)
  | gc (w : ℕ) (testfunc : Server R → ℕ → ℕ → Bool)

/-- The cache after a call. -/
def step (s : Server R) : Event R → Option (Server R)
  | .add w xid req resNfs now setOk => some (nfsDupreqAdd s w xid req resNfs now setOk).2
  | .get xid now => some (nfsDupreqGet s xid now).2.2
  | .gc w testfunc => dupreqGc s w (testfunc s w)

end Ganesha.DupReq
