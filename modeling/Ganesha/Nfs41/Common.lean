import Mathlib
import Ganesha.Library.Transition

/-!
# Sessions of NFSv4.1

`nfs41_op_sequence` (`NFS_Protocols/nfs41_op_sequence.c`), the part of `nfs4_Compound` that goes with
it (`NFS_Protocols/nfs4_Compound.c`) and the table of the sessions (`support/nfs_session_id.c`), as the
workers run them side by side on compounds of the minor version 1 that begin with `SEQUENCE`. A
compound that is empty, too long or malformed touches nothing of this and is left out.
-/

namespace Ganesha.Nfs41

/-- The values of `nfsstat4` that are returned here, and those of the other operations. -/
inductive Nfsstat4
  | ok
  | badsession
  | badslot
  | seqMisordered
  | retryUncachedRep
  | sequencePos
  | tooManyOps
  | serverfault
  | other (code : ℕ)
  deriving DecidableEq

/-- `sessionid4` as `nfs41_Build_sessionid` fills it: the client id, the sequence and what is left. -/
structure SessionId where
  clientid : ℕ
  seq : ℕ
  rest : ℕ
  deriving DecidableEq

/-- `SEQUENCE4args`. -/
structure SequenceArgs where
  sessionid : SessionId
  sequenceid : ℕ
  slotid : ℕ
  cachethis : Bool
  deriving DecidableEq

/-- An operation after the first one. -/
inductive Argop
  | sequence
  | createSession (clientid maxoperations : ℕ)
  | destroySession (id : SessionId)
  | other

/-- The body of a result, which `SEQUENCE` and the other operations fill in. -/
inductive Body (R : Type)
  | zero
  | sequence (sessionid : SessionId) (sequenceid slotid highestSlotid targetHighestSlotid : ℕ)
  | other (r : R)
  deriving DecidableEq

/-- `nfs_resop4`. -/
structure Resop (R : Type) where
  status : Nfsstat4
  body : Body R
  deriving DecidableEq

/-- `COMPOUND4res`. The results are behind a pointer. -/
structure Compound4res where
  status : Nfsstat4
  resarrayLen : ℕ
  resarrayVal : Option ℕ
  deriving DecidableEq

/-- `nfs41_session_slot_t`. Of the bytes of `cached_result` the first ones are a `COMPOUND4res`. -/
structure Slot where
  sequence : ℕ
  lock : Option ℕ
  cachedResult : Compound4res
  cacheUsed : Bool

/-- A slot after the `memset`. -/
def Slot.zero : Slot := ⟨0, none, ⟨.ok, 0, none⟩, false⟩

/-- What is used of `nfs41_session_t`. -/
structure Session where
  maxoperations : ℕ
  slots : ℕ → Slot

/-- `NFS41_NB_SLOTS`, which is also `ca_maxrequests` of every session. -/
def nbSlots : ℕ := 3

/-- Where `data->pcached_res` points: to a slot, or to `create_session_slot` of a client. -/
inductive Place
  | slot (session slotid : ℕ)
  | createSessionSlot (clientid : ℕ)
  deriving DecidableEq

/-- What is used of the arguments, of `compound_data_t` and of the result. `serial` counts the
compounds that the slot has let pass, up to this one. -/
structure Data where
  args : SequenceArgs
  ops : List Argop
  psession : Option ℕ
  pcachedRes : Option Place
  status : Nfsstat4
  pres : Compound4res
  serial : ℕ

/-- Where a worker stands: outside, with the array of results allocated, with the session found, with
the slot locked, before the operation `oppos` with the operations that are left, before the replay of
the cached reply, after the loop, at the end of the function, with the reply sent. -/
inductive Pc
  | idle
  | received (d : Data)
  | found (d : Data) (psession : ℕ)
  | locked (d : Data) (psession : ℕ)
  | loop (d : Data) (oppos : ℕ) (left : List Argop)
  | replaying (d : Data)
  | ending (d : Data)
  | stored (d : Data)
  | sent (d : Data)

/-- An operation after `SEQUENCE` that was called. -/
structure Run where
  session : ℕ
  slot : ℕ
  serial : ℕ
  sequenceid : ℕ
  oppos : ℕ
  deriving DecidableEq

/-- What a compound that passed a slot ended with, or what was taken from the cache for it. -/
structure Reply where
  session : ℕ
  slot : ℕ
  serial : ℕ
  pres : Compound4res
  deriving DecidableEq

/-- The table of the sessions, `global_sequence`, the sessions that were allocated, the arrays of
results, the workers, and what has happened: how many compounds each slot has let pass, the operations
called after `SEQUENCE`, the replies of the compounds that passed, the replies taken from the cache,
and what was sent. -/
structure State (R : Type) where
  htSessionId : SessionId → Option ℕ
  globalSequence : ℕ
  allocated : ℕ
  session : ℕ → Session
  heap : ℕ → Option (List (Resop R))
  worker : ℕ → Pc
  passed : ℕ → ℕ → ℕ
  ran : List Run
  finished : List Reply
  replayed : List Reply
  replies : List (SequenceArgs × Nfsstat4 × Option (List (Resop R)))

variable {R : Type}

/-- No session and no compound. -/
def initialState : State R :=
  ⟨fun _ => none, 0, 0, fun _ => ⟨0, fun _ => .zero⟩, fun _ => none, fun _ => .idle, fun _ _ => 0, [], [],
    [], []⟩

/-- What can happen next. The choices of the clients, of the allocator and of the operations that are
not modelled are given. -/
inductive Event (R : Type)
  | createSession (clientid maxoperations : ℕ)
  | destroySession (id : SessionId)
  | receive (t : ℕ) (args : SequenceArgs) (ops : List Argop) (array : ℕ)
  | find (t : ℕ)
  | lock (t : ℕ)
  | sequence (t : ℕ)
  | op (t : ℕ) (status : Nfsstat4) (body : R)
  | replay (t : ℕ)
  | store (t : ℕ)
  | send (t : ℕ)
  | free (t : ℕ)

/-- Move a worker. -/
def State.move (s : State R) (t : ℕ) (pc : Pc) : State R :=
  { s with worker := Function.update s.worker t pc }

/-- A slot of a session. -/
def State.slot (s : State R) (p k : ℕ) : Slot := (s.session p).slots k

/-- Assign a slot of a session. -/
def State.setSlot (s : State R) (p k : ℕ) (slot : Slot) : State R :=
  { s with
    session := Function.update s.session p
      { s.session p with slots := Function.update (s.session p).slots k slot } }

/-- Write a result into the array of a compound. -/
def State.record (s : State R) (d : Data) (i : ℕ) (res : Resop R) : State R :=
  { s with
    heap := match d.pres.resarrayVal with
      | none => s.heap
      | some array => Function.update s.heap array ((s.heap array).map fun l => l.set i res) }

/-- `nfs41_Build_sessionid`. -/
def buildSessionid (s : State R) (clientid : ℕ) : SessionId := ⟨clientid, (s.globalSequence + 1) % 2 ^ 32, 0⟩

/-- `nfs41_Session_Set`. -/
def sessionSet (s : State R) (id : SessionId) (psession : ℕ) : State R × Bool :=
  match s.htSessionId id with
  | some _ => (s, false)
  | none => ({ s with htSessionId := Function.update s.htSessionId id (some psession) }, true)

/-- `CREATE_SESSION` from the allocation of the session on, with what `nfs41_Session_Set` returns. -/
def createSession (s : State R) (clientid maxoperations : ℕ) : State R × Bool :=
  sessionSet { s with
    globalSequence := (s.globalSequence + 1) % 2 ^ 32
    allocated := s.allocated + 1
    session := Function.update s.session s.allocated ⟨maxoperations, fun _ => .zero⟩ }
    (buildSessionid s clientid) s.allocated

/-- `nfs41_Session_Del`. The session itself is not freed. -/
def sessionDel (s : State R) (id : SessionId) : State R × Bool :=
  match s.htSessionId id with
  | some _ => ({ s with htSessionId := Function.update s.htSessionId id none }, true)
  | none => (s, false)

/-- A compound comes: the array of its results is allocated. -/
def receive (s : State R) (t : ℕ) (args : SequenceArgs) (ops : List Argop) (array : ℕ) : State R :=
  let results : List (Resop R) := List.replicate (ops.length + 1) ⟨.ok, .zero⟩
  { s with heap := Function.update s.heap array (some results) }.move t
    (.received ⟨args, ops, none, none, .ok, ⟨.ok, ops.length + 1, some array⟩, 0⟩)

/-- `nfs4_Compound_Free`: the array of the results is freed. -/
def compoundFree (s : State R) (pres : Compound4res) : State R :=
  { s with
    heap := match pres.resarrayVal with
      | some array => Function.update s.heap array none
      | none => s.heap }

/-- An operation fails and the loop stops. -/
def fail (s : State R) (t : ℕ) (d : Data) (i : ℕ) (status : Nfsstat4) (body : Body R) : State R :=
  (s.record d i ⟨status, body⟩).move t
    (.ending { d with status := status, pres := { d.pres with resarrayLen := i + 1 } })

/-- The search of the session and the check of the slot. -/
def findSession (s : State R) (t : ℕ) (d : Data) : State R :=
  match s.htSessionId d.args.sessionid with
  | none => fail s t d 0 .badsession .zero
  | some p => if d.args.slotid ≥ nbSlots then fail s t d 0 .badslot .zero else s.move t (.found d p)

/-- The slot lets a compound pass: the sequence id of the slot, `cache_used` and the release of the
lock. -/
def State.pass (s : State R) (p k : ℕ) (cachethis : Bool) : State R :=
  { s.setSlot p k ⟨((s.slot p k).sequence + 1) % 2 ^ 32, none, (s.slot p k).cachedResult, cachethis⟩ with
    passed := fun p' k' => if p' = p ∧ k' = k then s.passed p k + 1 else s.passed p' k' }

/-- What `nfs41_op_sequence` keeps in the data of a compound that passes. -/
def Data.pass (d : Data) (p serial : ℕ) : Data :=
  { d with
    psession := some p
    pcachedRes := if d.args.cachethis then some (.slot p d.args.slotid) else none
    status := .ok
    serial := serial }

/-- The rest of `nfs41_op_sequence`. The two exits for the last sequence id keep the lock. -/
def opSequence (s : State R) (t : ℕ) (d : Data) (p : ℕ) : State R :=
  let k := d.args.slotid
  let slot := s.slot p k
  if (slot.sequence + 1) % 2 ^ 32 ≠ d.args.sequenceid then
    if slot.sequence = d.args.sequenceid then
      if slot.cacheUsed then
        (s.record d 0 ⟨.ok, .zero⟩).move t
          (.replaying { d with pcachedRes := some (.slot p k), status := .ok })
      else fail s t d 0 .retryUncachedRep .zero
    else fail (s.setSlot p k { slot with lock := none }) t d 0 .seqMisordered .zero
  else
    let s' := s.pass p k d.args.cachethis
    let body := Body.sequence d.args.sessionid (s'.slot p k).sequence k (nbSlots - 1) k
    (s'.record d 0 ⟨.ok, body⟩).move t (.loop (d.pass p (s'.passed p k)) 1 d.ops)

/-- Note that an operation was called. -/
def State.note (s : State R) (d : Data) (i : ℕ) : State R :=
  { s with
    ran := match d.psession with
      | some p => s.ran ++ [⟨p, d.args.slotid, d.serial, d.args.sequenceid, i⟩]
      | none => s.ran }

/-- One operation of the loop after `SEQUENCE`. `status` and `body` are what a function that is not
modelled returns, for `CREATE_SESSION` what it returns before it builds the session. -/
def callOp (s : State R) (t : ℕ) (d : Data) (i : ℕ) (op : Argop) (left : List Argop)
    (status : Nfsstat4) (body : R) : State R :=
  match op with
  -- SEQUENCE is only allowed as the first operation
  | .sequence => fail s t d i .sequencePos .zero
  | .createSession clientid maxoperations =>
    if status ≠ .ok then fail s t d i status (.other body)
    else
      -- the result goes into the create session slot
      let d' := { d with pcachedRes := some (.createSessionSlot clientid), status := .ok }
      let s' := (createSession s clientid maxoperations).1
      if (createSession s clientid maxoperations).2 then
        (s'.record d' i ⟨.ok, .other body⟩).move t (.loop d' (i + 1) left)
      else fail s' t d' i .serverfault (.other body)
  | .destroySession id =>
    let s' := (sessionDel s id).1
    if (sessionDel s id).2 then fail s' t d i .badsession .zero
    else (s'.record d i ⟨.ok, .zero⟩).move t (.loop { d with status := .ok } (i + 1) left)
  | .other =>
    if status ≠ .ok then fail s t d i status (.other body)
    else (s.record d i ⟨.ok, .other body⟩).move t (.loop { d with status := .ok } (i + 1) left)

/-- The session of the compound allows no operation at this position. -/
def tooManyOps (s : State R) (d : Data) (i : ℕ) : Bool :=
  match d.psession with
  | some p => (s.session p).maxoperations == i
  | none => false

/-- The next operation, if one is left. -/
def nextOp (s : State R) (t : ℕ) (d : Data) (i : ℕ) (left : List Argop) (status : Nfsstat4) (body : R) :
    State R :=
  match left with
  | [] => s.move t (.ending d)
  | op :: left =>
    if tooManyOps s d i then
      (s.record d i ⟨.tooManyOps, .zero⟩).move t (.ending { d with status := .tooManyOps })
    else (callOp s t d i op left status body).note d i

/-- Note what is taken from the cache of a slot. -/
def State.noteReplay (s : State R) (p k : ℕ) : State R :=
  { s with replayed := s.replayed ++ [⟨p, k, s.passed p k, (s.slot p k).cachedResult⟩] }

/-- The copy of the cached reply over the result. -/
def replay (s : State R) (t : ℕ) (d : Data) : State R :=
  match d.pcachedRes with
  | some (.slot p k) =>
    let cached := (s.slot p k).cachedResult
    (s.noteReplay p k).move t (.ending { d with pres := cached, status := cached.status })
  | _ => s.move t (.ending d)

/-- Copy the result to where `pcached_res` points. -/
def State.cache (s : State R) (pcachedRes : Option Place) (pres : Compound4res) : State R :=
  match pcachedRes with
  | some (.slot p k) => s.setSlot p k { s.slot p k with cachedResult := pres }
  | _ => s

/-- Note what a compound that passed its slot ends with. -/
def State.finish (s : State R) (d : Data) (pres : Compound4res) : State R :=
  { s with
    finished := match d.psession with
      | some p => s.finished ++ [⟨p, d.args.slotid, d.serial, pres⟩]
      | none => s.finished }

/-- The end of the function: the result is complete and goes to the cache, without the lock of the
slot. -/
def store (s : State R) (t : ℕ) (d : Data) : State R :=
  let pres : Compound4res := { d.pres with status := d.status }
  ((s.cache d.pcachedRes pres).finish d pres).move t (.stored { d with pres := pres })

/-- One step. -/
def step (s : State R) : Event R → Option (State R)
  | .createSession clientid maxoperations => some (createSession s clientid maxoperations).1
  | .destroySession id => some (sessionDel s id).1
  | .receive t args ops array =>
    match s.worker t with
    | .idle =>
      if ops.length < 30 ∧ s.heap array = none then some (receive s t args ops array) else none
    | _ => none
  | .find t =>
    match s.worker t with
    | .received d => some (findSession s t d)
    | _ => none
  | .lock t =>
    match s.worker t with
    | .found d p =>
      if (s.slot p d.args.slotid).lock = none then
        some ((s.setSlot p d.args.slotid { s.slot p d.args.slotid with lock := some t }).move t
          (.locked d p))
      else none
    | _ => none
  | .sequence t =>
    match s.worker t with
    | .locked d p => some (opSequence s t d p)
    | _ => none
  | .op t status body =>
    match s.worker t with
    | .loop d i left => some (nextOp s t d i left status body)
    | _ => none
  | .replay t =>
    match s.worker t with
    | .replaying d => some (replay s t d)
    | _ => none
  | .store t =>
    match s.worker t with
    | .ending d => some (store s t d)
    | _ => none
  | .send t =>
    match s.worker t with
    | .stored d =>
      some { s.move t (.sent d) with
        replies := s.replies ++ [(d.args, d.pres.status, d.pres.resarrayVal.bind s.heap)] }
    | _ => none
  | .free t =>
    match s.worker t with
    | .sent d =>
      some ((compoundFree s d.pres).move t .idle)
    | _ => none

end Ganesha.Nfs41
