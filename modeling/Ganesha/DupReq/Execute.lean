import Mathlib.Logic.Function.Basic
import Ganesha.Library.Transition

/-!
# Executing an RPC call

`nfs_rpc_execute` of `MainNFSD/nfs_worker_thread.c`, as the workers run it side by side. The accesses
to what they share, `current_xid` and `hostaddr` of each worker and the table of the duplicate request
cache, are steps of their own. The table is a map from xids (`DupReq`). What the RPC layer, the exports
and the service functions answer is part of the events, as is the value of the local variable
`hostaddr`, which nothing sets before it is compared.
-/

namespace Ganesha.DupReq.Execute

/-- `struct sockaddr_in`. -/
structure Sockaddr where
  sinAddr : ℕ
  sinPort : ℕ
  deriving DecidableEq

/-- `cmp_sockaddr` on two addresses of the family `AF_INET`. -/
def cmpSockaddr (a b : Sockaddr) : Bool := a.sinAddr == b.sinAddr && a.sinPort == b.sinPort

/-- A call: who sends it, its xid, and `struct svc_req`. -/
structure Call where
  client : Sockaddr
  xid : ℕ
  rqProg : ℕ
  rqVers : ℕ
  rqProc : ℕ
  deriving DecidableEq

/-- The bits of `dispatch_behaviour` that are read. -/
structure Behaviour where
  makesWrite : Bool
  needsCred : Bool
  canBeDup : Bool

/-- What is read of `nfs_param` and of the tables of descriptors. -/
structure Config where
  nfsProgram : ℕ
  nbWorker : ℕ
  behaviour : ℕ → ℕ → ℕ → Behaviour

/-- The behaviour of the function that a call asks for. -/
def Config.of (cfg : Config) (c : Call) : Behaviour := cfg.behaviour c.rqProg c.rqVers c.rqProc

/-- Where a worker stands: outside, with its arguments decoded, with the other workers checked, with
`current_xid` set, with no entry found in the cache, with the export found, allowed to go on, with a
result (none for `NFS_REQ_DROP`), with `current_xid` set to 0, with the reply sent. -/
inductive Pc (R : Type)
  | idle
  | started (c : Call)
  | checked (c : Call)
  | tagged (c : Call)
  | missed (c : Call)
  | located (c : Call)
  | admitted (c : Call)
  | computed (c : Call) (res : Option R)
  | cleared (c : Call) (res : Option R)
  | replied (c : Call) (res : R)

/-- What is used of `nfs_worker_data_t`. -/
structure Worker (R : Type) where
  currentXid : ℕ
  hostaddr : Sockaddr
  pc : Pc R

/-- The workers, the table with the results and the calls that they are of, the calls that were
executed since their entry expired, and the replies sent from the cache: the call, and the call that
the reply was computed for. -/
structure State (R : Type) where
  worker : ℕ → Worker R
  htDupreq : ℕ → Option (Call × R)
  executed : List Call
  fromCache : List (Call × Call)

variable {R : Type}

/-- No worker has anything to do and the cache is empty. -/
def initialState : State R := ⟨fun _ => ⟨0, ⟨0, 0⟩, .idle⟩, fun _ => none, [], []⟩

/-- What can happen next: the steps of a worker with what it is told, and an expiration. -/
inductive Event (R : Type)
  | start (w : ℕ) (c : Call)
  | check (w : ℕ) (hostaddr : Sockaddr)
  | tag (w : ℕ)
  | lookup (w : ℕ)
  | locate (w : ℕ) (exportFound : Bool)
  | admitCall (w : ℕ) (readOnly : Option R) (allowed : Bool)
  | execute (w : ℕ) (res : Option R)
  | clear (w : ℕ)
  | reply (w : ℕ) (sendOk : Bool)
  | add (w : ℕ) (addOk : Bool)
  | expire (xid : ℕ)

/-- Assign fields of a worker. -/
def State.setWorker (s : State R) (w : ℕ) (d : Worker R) : State R :=
  { s with worker := Function.update s.worker w d }

/-- Move a worker. -/
def State.move (s : State R) (w : ℕ) (pc : Pc R) : State R := s.setWorker w { s.worker w with pc := pc }

/-- The test of the loop over the workers: another thread manages this request. -/
def managed (cfg : Config) (s : State R) (hostaddr : Sockaddr) (xid : ℕ) : Bool :=
  (List.range cfg.nbWorker).any fun i =>
    (s.worker i).currentXid == xid && (s.worker i).currentXid != 0 &&
      cmpSockaddr hostaddr (s.worker i).hostaddr

/-- The version 3 calls that need an export, and those of version 2, where the code goes on with a
`NULL` pointer when it finds none. -/
def needsExport (cfg : Config) (vers : ℕ) (c : Call) : Bool :=
  c.rqProg == cfg.nfsProgram && c.rqVers == vers && c.rqProc != 0

/-- The checks of the permissions: on a read-only export a call that writes gets a result at once
(`readOnly`, which is dropped for another program), and else a client that is not allowed is refused. -/
def admitCall (cfg : Config) (s : State R) (w : ℕ) (c : Call) (readOnly : Option R) (allowed : Bool) :
    State R :=
  match if (cfg.of c).makesWrite then readOnly else none with
  | some rofs => s.move w (.computed c (if c.rqProg = cfg.nfsProgram then some rofs else none))
  | none =>
    if allowed then s.setWorker w { s.worker w with hostaddr := c.client, pc := .admitted c }
    else s.setWorker w ⟨0, c.client, .idle⟩

/-- The lookup in the cache of a call that can be duplicated. A reply found there is sent, and the
function returns. -/
def lookup (cfg : Config) (s : State R) (w : ℕ) (c : Call) : State R :=
  if (cfg.of c).canBeDup then
    match s.htDupreq c.xid with
    | some (computed, _) => { s.move w .idle with fromCache := s.fromCache ++ [(c, computed)] }
    | none => s.move w (.missed c)
  else s.move w (.missed c)

/-- The reply, when the request is not dropped. -/
def reply (cfg : Config) (s : State R) (w : ℕ) (c : Call) (res : Option R) (sendOk : Bool) : State R :=
  match res with
  | none => s.move w .idle
  | some r => if sendOk ∧ (cfg.of c).canBeDup then s.move w (.replied c r) else s.move w .idle

/-- One step. -/
def step (cfg : Config) (s : State R) : Event R → Option (State R)
  | .start w c =>
    match (s.worker w).pc with
    | .idle => some (s.move w (.started c))
    | _ => none
  | .check w hostaddr =>
    match (s.worker w).pc with
    | .started c =>
      some (if managed cfg s hostaddr c.xid then s.move w .idle else s.move w (.checked c))
    | _ => none
  | .tag w =>
    match (s.worker w).pc with
    | .checked c => some (s.setWorker w { s.worker w with currentXid := c.xid, pc := .tagged c })
    | _ => none
  | .lookup w =>
    match (s.worker w).pc with
    | .tagged c => some (lookup cfg s w c)
    | _ => none
  | .locate w exportFound =>
    match (s.worker w).pc with
    | .missed c =>
      if exportFound then some (s.move w (.located c))
      else if needsExport cfg 3 c then some (s.move w .idle)
      else if needsExport cfg 2 c then none
      else some (s.move w (.located c))
    | _ => none
  | .admitCall w readOnly allowed =>
    match (s.worker w).pc with
    | .located c => some (admitCall cfg s w c readOnly allowed)
    | _ => none
  | .execute w res =>
    match (s.worker w).pc with
    | .admitted c => some { s.move w (.computed c res) with executed := s.executed ++ [c] }
    | _ => none
  | .clear w =>
    match (s.worker w).pc with
    | .computed c res =>
      some (s.setWorker w { s.worker w with currentXid := 0, pc := .cleared c res })
    | _ => none
  | .reply w sendOk =>
    match (s.worker w).pc with
    | .cleared c res => some (reply cfg s w c res sendOk)
    | _ => none
  | .add w addOk =>
    match (s.worker w).pc with
    | .replied c r =>
      some (if addOk then
        { s.move w .idle with htDupreq := Function.update s.htDupreq c.xid (some (c, r)) }
      else s.move w .idle)
    | _ => none
  | .expire xid =>
    some { s with
      htDupreq := Function.update s.htDupreq xid none
      executed := s.executed.filter fun c => c.xid ≠ xid }

end Ganesha.DupReq.Execute
