import Mathlib
import Ganesha.ClientId.Setclientid
import Ganesha.Nfs41.Common

/-!
# CREATE_SESSION

`nfs41_op_create_session` of `NFS_Protocols/nfs41_op_create_session.c`, and `nfs4_Compound` for a compound of
the minor version 1 in which it is called. The slots of the session of a `SEQUENCE` before it are left out.
-/

namespace Ganesha.Nfs41
open Ganesha.ClientId (Clients ConfirmState)
open Ganesha.Hash (getPrealloc)

/-- `create_session_slot`. Of the bytes of `cached_result` the first ones are a `COMPOUND4res`. -/
structure CreateSessionSlot where
  cachedResult : Compound4res
  cacheUsed : Bool

/-- The fields of `nfs_client_id_t` that only NFSv4.1 has. -/
structure ClientFields where
  serverOwner : List UInt8
  serverScope : List UInt8
  nbSession : UInt32
  createSessionSlot : CreateSessionSlot
  createSessionSequence : UInt32

structure ChannelAttrs4 where
  caHeaderpadsize : UInt32
  caMaxrequestsize : UInt32
  caMaxresponsesize : UInt32
  caMaxresponsesizeCached : UInt32
  caMaxoperations : UInt32
  caMaxrequests : UInt32
  caRdmaIrd : List UInt32

/-- `CREATE_SESSION4args`, without what is not read. -/
structure CreateSessionArgs where
  csaClientid : UInt64
  csaSequence : UInt32
  csaFlags : UInt32
  csaForeChanAttrs : ChannelAttrs4
  csaBackChanAttrs : ChannelAttrs4
  csaCbProgram : UInt32

/-- `CREATE_SESSION4resok`. -/
structure CreateSessionResok where
  csrSessionid : SessionId
  csrSequence : UInt32
  csrFlags : UInt32
  csrForeChanAttrs : ChannelAttrs4
  csrBackChanAttrs : ChannelAttrs4

/-- `nfs41_session_t`. -/
structure NfsSession where
  clientid : UInt64
  sequence : UInt32
  sessionFlags : UInt32
  sessionId : SessionId
  foreChannelAttrs : ChannelAttrs4
  backChannelAttrs : ChannelAttrs4
  slots : ℕ → Slot

/-- The result of an operation. -/
abbrev Result := Resop CreateSessionResok

/-- The clients, the sessions, the pools of the workers, and the arrays of results. -/
structure Server where
  clients : Clients
  fields : ℕ → ClientFields
  htSessionId : SessionId → Option ℕ
  globalSequence : UInt32
  nbPreStateV4 : UInt32
  poolSession : ℕ → List ℕ
  sessionArrays : ℕ → List ℕ
  session : ℕ → NfsSession
  heap : ℕ → Option (List Result)

/-- What the allocator answers: for the key of the search, for the key of the session, and for the node
of the table. -/
structure SessionAllocs where
  getOk : Bool
  keyOk : Bool
  nodeOk : Bool

/-- `data->use_drc`, and the record to whose `create_session_slot` the call has set `data->pcached_res`. -/
structure Drc where
  useDrc : Bool
  pcachedRes : Option ℕ

/-- `NFS4ERR_STALE_CLIENTID`. -/
def Nfsstat4.staleClientid : Nfsstat4 := .other 10022

/-- `NFS4ERR_INVAL`. -/
def Nfsstat4.inval : Nfsstat4 := .other 22

/-- `CREATE_SESSION4_FLAG_CONN_BACK_CHAN`. -/
def flagConnBackChan : UInt32 := 2

/-- `CREATE_SESSION4_FLAG_CONN_RDMA`. -/
def flagConnRdma : UInt32 := 4

def nfsClientIdGetPointer (s : Server) (clientid : UInt64) (getOk : Bool) : Option ℕ :=
  if getOk then s.clients.htClientId clientid else none

def nfs41BuildSessionid (s : Server) (clientid : UInt64) : SessionId × Server :=
  let seq := s.globalSequence + 1
  (⟨clientid.toNat, seq.toNat, 0⟩, { s with globalSequence := seq })

/-- `nfs41_Session_Set`, with `HASHTABLE_SET_HOW_SET_NO_OVERWRITE`. -/
def nfs41SessionSet (s : Server) (id : SessionId) (q : ℕ) (allocs : SessionAllocs) : Bool × Server :=
  if allocs.keyOk ∧ s.htSessionId id = none ∧ allocs.nodeOk then
    (true, { s with htSessionId := Function.update s.htSessionId id (some q) })
  else (false, s)

/-- The record is confirmed, and its sequence advances. -/
def Server.confirm (s : Server) (p : ℕ) (cbProgram : UInt32) : Server :=
  { s with
    clients :=
      { s.clients with
        record := Function.update s.clients.record p
          { s.clients.record p with
            confirmed := .confirmed
            cbProgram := cbProgram } }
    fields := Function.update s.fields p
      { s.fields p with createSessionSequence := (s.fields p).createSessionSequence + 1 } }

/-- Set `create_session_slot`. -/
def Server.setCreateSessionSlot (s : Server) (p : ℕ) (f : CreateSessionSlot → CreateSessionSlot) : Server :=
  { s with
    fields := Function.update s.fields p
      { s.fields p with createSessionSlot := f (s.fields p).createSessionSlot } }

/-- Fill in a session. -/
def Server.setSession (s : Server) (q : ℕ) (session : NfsSession) : Server :=
  { s with session := Function.update s.session q session }

/-- The session that is filled in, for a request. -/
def CreateSessionArgs.session (args : CreateSessionArgs) (id : SessionId) : NfsSession where
  clientid := args.csaClientid
  sequence := 1
  sessionFlags := flagConnBackChan
  sessionId := id
  foreChannelAttrs := { args.csaForeChanAttrs with caMaxrequests := UInt32.ofNat nbSlots }
  backChannelAttrs := args.csaBackChanAttrs
  slots _ := .zero

/-- The answer, for a session. -/
def NfsSession.resok (session : NfsSession) : CreateSessionResok where
  csrSessionid := session.sessionId
  csrSequence := 1
  csrFlags := flagConnBackChan
  csrForeChanAttrs := session.foreChannelAttrs
  csrBackChanAttrs := session.backChannelAttrs

/-- The session `q` is filled in, and put into the table. -/
def fillSession (s : Server) (p q : ℕ) (args : CreateSessionArgs) (allocs : SessionAllocs) :
    Result × Drc × Server :=
  let (id, s) := nfs41BuildSessionid s args.csaClientid
  let session := args.session id
  let s := (s.setSession q session).setCreateSessionSlot p fun slot => { slot with cacheUsed := true }
  let (set, s) := nfs41SessionSet s id q allocs
  (⟨if set then .ok else .serverfault, .other session.resok⟩, ⟨false, some p⟩, s)

/-- `nfs41_op_create_session` from `GET_PREALLOC` on. -/
def createNewSession (s : Server) (p w : ℕ) (args : CreateSessionArgs) (allocs : SessionAllocs) :
    Result × Drc × Server :=
  let (q, pool, arrays) := getPrealloc s.nbPreStateV4 (s.poolSession w) s.sessionArrays
  let s := { s with poolSession := Function.update s.poolSession w pool, sessionArrays := arrays }
  match q with
  | none => (⟨.serverfault, .zero⟩, ⟨false, none⟩, s)
  | some q =>
    if flagConnRdma < args.csaFlags then (⟨.inval, .zero⟩, ⟨false, none⟩, s)
    else fillSession s p q args allocs

def nfs41OpCreateSession (s : Server) (w oppos : ℕ) (args : CreateSessionArgs) (allocs : SessionAllocs) :
    Result × Drc × Server :=
  match nfsClientIdGetPointer s args.csaClientid allocs.getOk with
  | none => (⟨.staleClientid, .zero⟩, ⟨false, none⟩, s)
  | some p =>
    if oppos = 0 ∧ args.csaSequence + 1 = (s.fields p).createSessionSequence ∧
        (s.fields p).createSessionSlot.cacheUsed then
      (⟨.ok, .zero⟩, ⟨true, some p⟩, s)
    else if oppos = 0 ∧ args.csaSequence ≠ (s.fields p).createSessionSequence then
      (⟨.seqMisordered, .zero⟩, ⟨false, none⟩, s)
    else createNewSession (s.confirm p args.csaCbProgram) p w args allocs

/-- A compound with `CREATE_SESSION`: the results of the operations before it, and of those that are
called behind it if there is no error, and the array that is allocated for them. -/
structure Compound where
  w : ℕ
  before : List Result
  args : CreateSessionArgs
  after : List Result
  allocs : SessionAllocs
  array : ℕ

/-- The end of `nfs4_Compound`: the results are in their array, and the reply goes to where
`data->pcached_res` points. -/
def finishCompound (s : Server) (array : ℕ) (results : List Result) (pcachedRes : Option ℕ)
    (pres : Compound4res) : Compound4res × Server :=
  let s := { s with heap := Function.update s.heap array (some results) }
  match pcachedRes with
  | none => (pres, s)
  | some p => (pres, s.setCreateSessionSlot p fun slot => { slot with cachedResult := pres })

def nfs4Compound (s : Server) (c : Compound) : Compound4res × Server :=
  let (res, drc, s) := nfs41OpCreateSession s c.w c.before.length c.args c.allocs
  if res.status ≠ .ok then
    finishCompound s c.array (c.before ++ [res]) drc.pcachedRes
      ⟨res.status, c.before.length + 1, some c.array⟩
  else match drc.useDrc, drc.pcachedRes with
    | true, some p =>
      finishCompound s c.array [res] (some p) (s.fields p).createSessionSlot.cachedResult
    | _, _ =>
      finishCompound s c.array (c.before ++ res :: c.after) drc.pcachedRes
        ⟨((c.after.map Resop.status).getLast?).getD .ok, c.before.length + 1 + c.after.length, some c.array⟩

/-! ## Errors and retransmissions -/

/-- The session id of a result. -/
def Resop.sessionid : Result → Option SessionId
  | ⟨.ok, .other resok⟩ => some resok.csrSessionid
  | _ => none

/-- The session id at the place `i` of a reply. -/
def sessionidAt (s : Server) (pres : Compound4res) (i : ℕ) : Option SessionId :=
  (pres.resarrayVal.bind s.heap).bind fun results => (results.take pres.resarrayLen)[i]?.bind Resop.sessionid

/-- The records of the clients, the table of the sessions and the sessions that are free are as before. -/
structure Unchanged (s s' : Server) : Prop where
  clients : s'.clients = s.clients
  fields : s'.fields = s.fields
  table : s'.htSessionId = s.htSessionId
  pools : s'.poolSession = s.poolSession

/-- After the compound `c` of the state `s`, `c₂` is its retransmission in the state `s₂`: the record of the
client is still the one that `c` has left. -/
structure Retransmits (s : Server) (c : Compound) (s₂ : Server) (c₂ : Compound) : Prop where
  clientid : c₂.args.csaClientid = c.args.csaClientid
  sequence : c₂.args.csaSequence = c.args.csaSequence
  table : s₂.clients.htClientId c.args.csaClientid = s.clients.htClientId c.args.csaClientid
  fields : ∀ p ∈ s.clients.htClientId c.args.csaClientid, s₂.fields p = (nfs4Compound s c).2.fields p
  array : s₂.heap c₂.array = none

/-- An error changes nothing; a retransmission gets the same session id, and there is no second session. -/
structure CreateSessionLaw (s : Server) (c : Compound) (s₂ : Server) (c₂ : Compound) : Prop where
  error : (nfs41OpCreateSession s c.w c.before.length c.args c.allocs).1.status ≠ .ok →
    Unchanged s (nfs4Compound s c).2
  retransmission : ∀ id,
    (nfs41OpCreateSession s c.w c.before.length c.args c.allocs).1.sessionid = some id →
      Retransmits s c s₂ c₂ →
      sessionidAt (nfs4Compound s₂ c₂).2 (nfs4Compound s₂ c₂).1 c₂.before.length = some id ∧
        (nfs4Compound s₂ c₂).2.htSessionId = s₂.htSessionId

/-- The request passes the check of its sequence. -/
def Passes (s : Server) (p : ℕ) (c : Compound) : Prop :=
  c.before = [] → c.args.csaSequence = (s.fields p).createSessionSequence

/-- The session that is built next. -/
def nextId (s : Server) (clientid : UInt64) : SessionId := (nfs41BuildSessionid s clientid).1

/-- No session can be created. -/
def Fails (s : Server) (c : Compound) : Prop :=
  (getPrealloc s.nbPreStateV4 (s.poolSession c.w) s.sessionArrays).1 = none ∨ flagConnRdma < c.args.csaFlags ∨
    c.allocs.keyOk = false ∨ c.allocs.nodeOk = false ∨ s.htSessionId (nextId s c.args.csaClientid) ≠ none

/-- The first result in the array of the compound is still that of `CREATE_SESSION`. -/
def Kept (s : Server) (c : Compound) (s₂ : Server) : Prop :=
  ∃ result results, s₂.heap c.array = some (result :: results) ∧
    result.sessionid = some (nextId s c.args.csaClientid)

/-- A request that passes the check creates a session, and its retransmission is not behind another
operation and finds the first reply. -/
def Sure (s : Server) (c : Compound) (s₂ : Server) (c₂ : Compound) : Prop :=
  ∀ p, nfsClientIdGetPointer s c.args.csaClientid c.allocs.getOk = some p → Passes s p c →
    ¬ Fails s c ∧ (Retransmits s c s₂ c₂ → c₂.before = [] ∧ c₂.allocs.getOk = true ∧
      c.args.csaSequence = (s.fields p).createSessionSequence ∧ Kept s c s₂)

variable {s s₂ : Server} {c c₂ : Compound} {p : ℕ}

lemma succ_ne_self (n : UInt32) : n + 1 ≠ n := by
  intro h
  have hone : (1 : UInt32) = 0 := by
    rw [← add_eq_left (a := n)]
    exact h
  cases hone

/-- A call that passes the checks confirms the client and makes a session. -/
lemma nfs41OpCreateSession_passes (hp : nfsClientIdGetPointer s c.args.csaClientid c.allocs.getOk = some p)
    (hpass : Passes s p c) :
    nfs41OpCreateSession s c.w c.before.length c.args c.allocs =
      createNewSession (s.confirm p c.args.csaCbProgram) p c.w c.args c.allocs := by
  have hfirst : c.before.length = 0 → c.args.csaSequence = (s.fields p).createSessionSequence :=
    fun h => hpass (List.length_eq_zero_iff.mp h)
  unfold nfs41OpCreateSession
  rw [hp]
  dsimp only
  rw [if_neg, if_neg]
  · rintro ⟨hzero, hne⟩
    exact hne (hfirst hzero)
  · rintro ⟨hzero, hsucc, -⟩
    rw [hfirst hzero] at hsucc
    exact succ_ne_self _ hsucc

/-- What a call leaves that creates a session. -/
structure Created (s : Server) (p : ℕ) (c : Compound) (r : Result × Drc × Server) : Prop where
  status : r.1.status = .ok
  sessionid : r.1.sessionid = some (nextId s c.args.csaClientid)
  drc : r.2.1 = ⟨false, some p⟩
  table : r.2.2.htSessionId (nextId s c.args.csaClientid) ≠ none
  cacheUsed : (r.2.2.fields p).createSessionSlot.cacheUsed = true

lemma serverfault_ne_ok : Nfsstat4.serverfault ≠ .ok := by decide

lemma inval_ne_ok : Nfsstat4.inval ≠ .ok := by decide

lemma setCreateSessionSlot_sequence (s : Server) (p : ℕ) (f : CreateSessionSlot → CreateSessionSlot) :
    ((s.setCreateSessionSlot p f).fields p).createSessionSequence = (s.fields p).createSessionSequence := by
  show (Function.update s.fields p _ p).createSessionSequence = _
  rw [Function.update_self]

lemma setCreateSessionSlot_slot (s : Server) (p : ℕ) (f : CreateSessionSlot → CreateSessionSlot) :
    ((s.setCreateSessionSlot p f).fields p).createSessionSlot = f (s.fields p).createSessionSlot := by
  show (Function.update s.fields p _ p).createSessionSlot = _
  rw [Function.update_self]

/-- The session is made, or the key or its node fails. -/
lemma fillSession_cases (s : Server) (p q : ℕ) (c : Compound) :
    ((fillSession s p q c.args c.allocs).2.2.fields p).createSessionSequence =
        (s.fields p).createSessionSequence ∧
      (if c.allocs.keyOk ∧ s.htSessionId (nextId s c.args.csaClientid) = none ∧ c.allocs.nodeOk then
        Created s p c (fillSession s p q c.args c.allocs)
      else (fillSession s p q c.args c.allocs).1.status ≠ .ok) := by
  -- the state in which the session is put into the table, which is that of `s`
  let s₁ : Server := ((nfs41BuildSessionid s c.args.csaClientid).2.setSession q
    (c.args.session (nextId s c.args.csaClientid))).setCreateSessionSlot p fun slot => { slot with cacheUsed := true }
  have hsequence : (s₁.fields p).createSessionSequence = (s.fields p).createSessionSequence :=
    setCreateSessionSlot_sequence _ p _
  have hslot := setCreateSessionSlot_slot ((nfs41BuildSessionid s c.args.csaClientid).2.setSession q
    (c.args.session (nextId s c.args.csaClientid))) p fun slot => { slot with cacheUsed := true }
  have hset : nfs41SessionSet s₁ (nextId s c.args.csaClientid) q c.allocs =
      if c.allocs.keyOk ∧ s.htSessionId (nextId s c.args.csaClientid) = none ∧ c.allocs.nodeOk then
        (true, { s₁ with
          htSessionId := Function.update s₁.htSessionId (nextId s c.args.csaClientid) (some q) })
      else (false, s₁) := rfl
  have hfill : fillSession s p q c.args c.allocs =
      (⟨if (nfs41SessionSet s₁ (nextId s c.args.csaClientid) q c.allocs).1 then .ok else .serverfault,
        .other (c.args.session (nextId s c.args.csaClientid)).resok⟩, ⟨false, some p⟩,
        (nfs41SessionSet s₁ (nextId s c.args.csaClientid) q c.allocs).2) := rfl
  rw [hfill, hset]
  by_cases hok : c.allocs.keyOk ∧ s.htSessionId (nextId s c.args.csaClientid) = none ∧ c.allocs.nodeOk
  · rw [if_pos hok, if_pos hok]
    refine ⟨hsequence, rfl, rfl, rfl, ?_, ?_⟩
    · show Function.update s₁.htSessionId _ (some q) _ ≠ none
      rw [Function.update_self]
      exact Option.some_ne_none q
    · show (s₁.fields p).createSessionSlot.cacheUsed = true
      rw [hslot]
  · rw [if_neg hok, if_neg hok]
    exact ⟨hsequence, serverfault_ne_ok⟩

/-- The sequence of the client advances, whether the session is made or not. -/
lemma createNewSession_cases (s : Server) (p : ℕ) (c : Compound) :
    ((createNewSession (s.confirm p c.args.csaCbProgram) p c.w c.args c.allocs).2.2.fields p).createSessionSequence =
        (s.fields p).createSessionSequence + 1 ∧
      (Fails s c ∧ (createNewSession (s.confirm p c.args.csaCbProgram) p c.w c.args c.allocs).1.status ≠ .ok ∨
        ¬ Fails s c ∧ Created s p c (createNewSession (s.confirm p c.args.csaCbProgram) p c.w c.args c.allocs)) := by
  -- the pools, the arrays and the table are those of `s`
  have hnb : (s.confirm p c.args.csaCbProgram).nbPreStateV4 = s.nbPreStateV4 := rfl
  have hpool : (s.confirm p c.args.csaCbProgram).poolSession = s.poolSession := rfl
  have harrays : (s.confirm p c.args.csaCbProgram).sessionArrays = s.sessionArrays := rfl
  have hsequence : ((s.confirm p c.args.csaCbProgram).fields p).createSessionSequence =
      (s.fields p).createSessionSequence + 1 := by
    show (Function.update s.fields p _ p).createSessionSequence = _
    rw [Function.update_self]
  unfold createNewSession Fails
  rw [hnb, hpool, harrays]
  cases hget : getPrealloc s.nbPreStateV4 (s.poolSession c.w) s.sessionArrays with
  | mk q rest =>
    cases q with
    | none => exact ⟨hsequence, .inl ⟨.inl rfl, serverfault_ne_ok⟩⟩
    | some q =>
      dsimp only
      by_cases hflags : flagConnRdma < c.args.csaFlags
      · rw [if_pos hflags]
        exact ⟨hsequence, .inl ⟨.inr (.inl hflags), inval_ne_ok⟩⟩
      rw [if_neg hflags]
      have hfill := fillSession_cases { s.confirm p c.args.csaCbProgram with
        nbPreStateV4 := s.nbPreStateV4
        poolSession := Function.update s.poolSession c.w rest.1
        sessionArrays := rest.2 } p q c
      refine ⟨hfill.1.trans hsequence, ?_⟩
      have hcreated := hfill.2
      split_ifs at hcreated with hok
      · refine .inr ⟨?_, hcreated.status, hcreated.sessionid, hcreated.drc, hcreated.table, hcreated.cacheUsed⟩
        rintro (hnone | hbad | hkey | hnode | hin)
        · cases hnone
        · exact hflags hbad
        · rw [hkey] at hok
          cases hok.1
        · rw [hnode] at hok
          cases hok.2.2
        · exact hin hok.2.1
      · refine .inl ⟨?_, hcreated⟩
        by_contra hfails
        apply hok
        refine ⟨?_, ?_, ?_⟩
        · rw [← Bool.not_eq_false]
          exact fun hkey => hfails (.inr (.inr (.inl hkey)))
        · by_contra hin
          exact hfails (.inr (.inr (.inr (.inr hin))))
        · rw [← Bool.not_eq_false]
          exact fun hnode => hfails (.inr (.inr (.inr (.inl hnode))))

/-! ## The compound -/

/-- A call that does not pass changes nothing. -/
lemma nfs41OpCreateSession_stays (h : ∀ p,
    nfsClientIdGetPointer s c.args.csaClientid c.allocs.getOk = some p → ¬ Passes s p c) :
    (nfs41OpCreateSession s c.w c.before.length c.args c.allocs).2.2 = s ∧
      (nfs41OpCreateSession s c.w c.before.length c.args c.allocs).1.sessionid = none ∧
      ((nfs41OpCreateSession s c.w c.before.length c.args c.allocs).1.status ≠ .ok →
        (nfs41OpCreateSession s c.w c.before.length c.args c.allocs).2.1.pcachedRes = none) := by
  unfold nfs41OpCreateSession
  cases hp : nfsClientIdGetPointer s c.args.csaClientid c.allocs.getOk with
  | none => exact ⟨rfl, rfl, fun _ => rfl⟩
  | some p =>
    have hnot := h p hp
    dsimp only
    split_ifs with hreplay hmis
    · exact ⟨rfl, rfl, fun hok => absurd rfl hok⟩
    · exact ⟨rfl, rfl, fun _ => rfl⟩
    · -- the check is passed
      refine absurd (fun hnil => ?_) hnot
      by_contra hne
      exact hmis ⟨List.length_eq_zero_iff.mpr hnil, hne⟩

/-- Finishing a compound touches the replies alone. -/
lemma finishCompound_frame (s : Server) (array : ℕ) (results : List Result) (place : Option ℕ)
    (pres : Compound4res) :
    (finishCompound s array results place pres).1 = pres ∧
      (finishCompound s array results place pres).2.clients = s.clients ∧
      (finishCompound s array results place pres).2.htSessionId = s.htSessionId ∧
      (finishCompound s array results place pres).2.poolSession = s.poolSession ∧
      (finishCompound s array results place pres).2.heap = Function.update s.heap array (some results) ∧
      ∀ p, ((finishCompound s array results place pres).2.fields p).createSessionSequence =
        (s.fields p).createSessionSequence := by
  cases place with
  | none => exact ⟨rfl, rfl, rfl, rfl, rfl, fun _ => rfl⟩
  | some q =>
    refine ⟨rfl, rfl, rfl, rfl, rfl, fun p => ?_⟩
    show (Function.update s.fields q _ p).createSessionSequence = _
    rw [Function.update_apply]
    split_ifs with heq
    · rw [heq]
    · rfl

/-- The compound changes what the operation changes. -/
lemma nfs4Compound_frame (s : Server) (c : Compound) :
    (nfs4Compound s c).2.clients = (nfs41OpCreateSession s c.w c.before.length c.args c.allocs).2.2.clients ∧
      (nfs4Compound s c).2.htSessionId =
        (nfs41OpCreateSession s c.w c.before.length c.args c.allocs).2.2.htSessionId ∧
      ∀ p, ((nfs4Compound s c).2.fields p).createSessionSequence =
        ((nfs41OpCreateSession s c.w c.before.length c.args c.allocs).2.2.fields p).createSessionSequence := by
  unfold nfs4Compound
  cases hop : nfs41OpCreateSession s c.w c.before.length c.args c.allocs with
  | mk res rest =>
    obtain ⟨⟨useDrc, place⟩, s'⟩ := rest
    dsimp only
    split_ifs with hstatus
    · exact ⟨(finishCompound_frame ..).2.1, (finishCompound_frame ..).2.2.1,
        (finishCompound_frame ..).2.2.2.2.2⟩
    · cases useDrc <;> cases place <;>
        exact ⟨(finishCompound_frame ..).2.1, (finishCompound_frame ..).2.2.1,
          (finishCompound_frame ..).2.2.2.2.2⟩

lemma sessionid_of_ne {res : Result} (h : res.status ≠ .ok) : res.sessionid = none := by
  obtain ⟨status, body⟩ := res
  cases status with
  | ok => exact absurd rfl h
  | _ => rfl

lemma take_getElem?_append {α : Type} (l : List α) (a : α) : ((l ++ [a]).take (l.length + 1))[l.length]? = some a := by
  simp

/-- An error has no session id. -/
lemma nfs4Compound_error (h : (nfs41OpCreateSession s c.w c.before.length c.args c.allocs).1.status ≠ .ok) :
    sessionidAt (nfs4Compound s c).2 (nfs4Compound s c).1 c.before.length = none := by
  have hnone := sessionid_of_ne h
  unfold nfs4Compound sessionidAt
  dsimp only
  rw [if_pos h, (finishCompound_frame ..).1, (finishCompound_frame ..).2.2.2.2.1]
  dsimp only [Option.bind_some]
  rw [Function.update_self, Option.bind_some, take_getElem?_append]
  exact hnone

/-- An error changes nothing unless it comes after the checks. -/
lemma error_iff (s : Server) (c : Compound) :
    ((nfs41OpCreateSession s c.w c.before.length c.args c.allocs).1.status ≠ .ok →
      Unchanged s (nfs4Compound s c).2) ↔
      ∀ p, nfsClientIdGetPointer s c.args.csaClientid c.allocs.getOk = some p → Passes s p c → ¬ Fails s c := by
  constructor
  · intro hlaw p hp hpass hfails
    rw [nfs41OpCreateSession_passes hp hpass] at hlaw
    obtain ⟨hsequence, ⟨-, hstatus⟩ | ⟨hno, -⟩⟩ := createNewSession_cases s p c
    · -- the sequence has advanced
      have hfields := (hlaw hstatus).fields
      have hframe := (nfs4Compound_frame s c).2.2 p
      rw [nfs41OpCreateSession_passes hp hpass, hsequence, hfields] at hframe
      exact succ_ne_self _ hframe.symm
    · exact hno hfails
  · intro h hstatus
    by_cases hstays : ∀ p, nfsClientIdGetPointer s c.args.csaClientid c.allocs.getOk = some p → ¬ Passes s p c
    · obtain ⟨hsame, -, hplace⟩ := nfs41OpCreateSession_stays hstays
      have hplace := hplace hstatus
      unfold nfs4Compound
      dsimp only
      rw [if_pos hstatus, hplace, hsame]
      exact ⟨rfl, rfl, rfl, rfl⟩
    · push Not at hstays
      obtain ⟨p, hp, hpass⟩ := hstays
      rw [nfs41OpCreateSession_passes hp hpass] at hstatus
      obtain ⟨-, ⟨hfails, -⟩ | ⟨-, hcreated⟩⟩ := createNewSession_cases s p c
      · exact absurd hfails (h p hp hpass)
      · exact absurd hcreated.status hstatus

/-- A session that is made is cached in the slot of the client. -/
lemma nfs4Compound_created (hp : nfsClientIdGetPointer s c.args.csaClientid c.allocs.getOk = some p)
    (hpass : Passes s p c) (hno : ¬ Fails s c) :
    ((nfs4Compound s c).2.fields p).createSessionSequence = (s.fields p).createSessionSequence + 1 ∧
      ((nfs4Compound s c).2.fields p).createSessionSlot.cacheUsed = true ∧
      ∃ status, ((nfs4Compound s c).2.fields p).createSessionSlot.cachedResult =
        ⟨status, c.before.length + 1 + c.after.length, some c.array⟩ := by
  have hop := nfs41OpCreateSession_passes hp hpass
  obtain ⟨hsequence, ⟨hfails, -⟩ | ⟨-, hcreated⟩⟩ := createNewSession_cases s p c
  · exact absurd hfails hno
  refine ⟨?_, ?_⟩
  · rw [(nfs4Compound_frame s c).2.2 p, hop, hsequence]
  unfold nfs4Compound
  rw [hop]
  have hstatus := hcreated.status
  have hdrc := hcreated.drc
  have hused := hcreated.cacheUsed
  cases hnew : createNewSession (s.confirm p c.args.csaCbProgram) p c.w c.args c.allocs with
  | mk res rest =>
    obtain ⟨drc, s'⟩ := rest
    rw [hnew] at hstatus hdrc hused
    dsimp only at hstatus hdrc hused ⊢
    rw [hdrc, if_neg (not_not.mpr hstatus)]
    dsimp only
    unfold finishCompound
    dsimp only
    rw [setCreateSessionSlot_slot]
    exact ⟨hused, _, rfl⟩

/-- A call that passes adds a session. -/
lemma not_same_of_passes {id : SessionId}
    (hp : nfsClientIdGetPointer s c.args.csaClientid c.allocs.getOk = some p) (hpass : Passes s p c) :
    ¬ (sessionidAt (nfs4Compound s c).2 (nfs4Compound s c).1 c.before.length = some id ∧
      (nfs4Compound s c).2.htSessionId = s.htSessionId) := by
  have hop := nfs41OpCreateSession_passes hp hpass
  rintro ⟨hid, htable⟩
  obtain ⟨-, ⟨-, hstatus⟩ | ⟨hno, hcreated⟩⟩ := createNewSession_cases s p c
  · rw [← hop] at hstatus
    rw [nfs4Compound_error hstatus] at hid
    cases hid
  · apply hno
    refine .inr (.inr (.inr (.inr ?_)))
    rw [← htable, (nfs4Compound_frame s c).2.1, hop]
    exact hcreated.table

/-- A repeated call is answered as before if the slot has the answer. -/
lemma replay_iff {status : Nfsstat4} {length array : ℕ} {id : SessionId} (hfirst : c.before = [])
    (hp : nfsClientIdGetPointer s c.args.csaClientid c.allocs.getOk = some p)
    (hsequence : c.args.csaSequence + 1 = (s.fields p).createSessionSequence)
    (hused : (s.fields p).createSessionSlot.cacheUsed = true)
    (hcached : (s.fields p).createSessionSlot.cachedResult = ⟨status, length + 1, some array⟩)
    (harray : s.heap c.array = none) :
    (sessionidAt (nfs4Compound s c).2 (nfs4Compound s c).1 c.before.length = some id ∧
      (nfs4Compound s c).2.htSessionId = s.htSessionId) ↔
      ∃ result results, s.heap array = some (result :: results) ∧ result.sessionid = some id := by
  have hop : nfs41OpCreateSession s c.w c.before.length c.args c.allocs = (⟨.ok, .zero⟩, ⟨true, some p⟩, s) := by
    unfold nfs41OpCreateSession
    rw [hp]
    dsimp only
    rw [if_pos ⟨by rw [hfirst]; rfl, hsequence, hused⟩]
  -- the retransmission is answered without a new session
  have htable : (nfs4Compound s c).2.htSessionId = s.htSessionId := by
    rw [(nfs4Compound_frame s c).2.1, hop]
  have hcompound : nfs4Compound s c =
      finishCompound s c.array [⟨.ok, .zero⟩] (some p) ⟨status, length + 1, some array⟩ := by
    unfold nfs4Compound
    rw [hop, ← hcached]
    rfl
  have hheap : (nfs4Compound s c).2.heap = Function.update s.heap c.array (some [⟨.ok, .zero⟩]) := by
    rw [hcompound]
    exact (finishCompound_frame ..).2.2.2.2.1
  have hpres : (nfs4Compound s c).1 = ⟨status, length + 1, some array⟩ := by
    rw [hcompound]
    exact (finishCompound_frame ..).1
  rw [and_iff_left htable, hfirst]
  unfold sessionidAt
  rw [hheap, hpres]
  dsimp only [Option.bind_some, List.length_nil]
  by_cases hsame : array = c.array
  · -- the array of the first reply is that of the retransmission
    rw [hsame, Function.update_self, harray]
    constructor
    · intro h
      cases h
    · rintro ⟨result, results, h, -⟩
      cases h
  · rw [Function.update_of_ne hsame]
    cases hlist : s.heap array with
    | none => simp
    | some results =>
      cases results with
      | nil => simp
      | cons result results => simp

lemma getPointer_eq_some {clientid : UInt64} {getOk : Bool} (h : nfsClientIdGetPointer s clientid getOk = some p) :
    s.clients.htClientId clientid = some p := by
  unfold nfsClientIdGetPointer at h
  split_ifs at h
  exact h

/-- A sequence number out of order. -/
lemma misordered (hfirst : c.before = [])
    (hp : nfsClientIdGetPointer s c.args.csaClientid c.allocs.getOk = some p)
    (hold : c.args.csaSequence + 1 ≠ (s.fields p).createSessionSequence)
    (hnew : c.args.csaSequence ≠ (s.fields p).createSessionSequence) :
    (nfs41OpCreateSession s c.w c.before.length c.args c.allocs).1.status ≠ .ok := by
  unfold nfs41OpCreateSession
  rw [hp, hfirst]
  dsimp only
  rw [if_neg (fun h => hold h.2.1), if_pos ⟨rfl, hnew⟩]
  intro h
  cases h

/-- When an error changes nothing, and a retransmission gets the session of the first request. -/
theorem createSessionLaw_iff (s : Server) (c : Compound) (s₂ : Server) (c₂ : Compound) :
    CreateSessionLaw s c s₂ c₂ ↔ Sure s c s₂ c₂ := by
  have herror := error_iff s c
  constructor
  · intro hlaw p hp hpass
    have hno := herror.mp hlaw.error p hp hpass
    refine ⟨hno, fun hre => ?_⟩
    have hcreated := (createNewSession_cases s p c).2.resolve_left fun h => hno h.1
    have hid := hcreated.2.sessionid
    rw [← nfs41OpCreateSession_passes hp hpass] at hid
    -- the retransmission gets the same session
    have hsame := hlaw.retransmission _ hid hre
    obtain ⟨hsequence, hused, status, hcached⟩ := nfs4Compound_created hp hpass hno
    have hin := getPointer_eq_some hp
    rw [← hre.fields p hin] at hsequence hused hcached
    by_cases hget : c₂.allocs.getOk = true
    swap
    · -- without its key the client is not found
      have hstale : (nfs41OpCreateSession s₂ c₂.w c₂.before.length c₂.args c₂.allocs).1.status ≠ .ok := by
        unfold nfs41OpCreateSession nfsClientIdGetPointer
        rw [if_neg hget]
        intro h
        cases h
      rw [nfs4Compound_error hstale] at hsame
      cases hsame.1
    have hp₂ : nfsClientIdGetPointer s₂ c₂.args.csaClientid c₂.allocs.getOk = some p := by
      unfold nfsClientIdGetPointer
      rw [if_pos hget, hre.clientid, hre.table, hin]
    have hnot : ¬ Passes s₂ p c₂ := fun hpass₂ => not_same_of_passes hp₂ hpass₂ hsame
    unfold Passes at hnot
    push Not at hnot
    obtain ⟨hfirst, hnew⟩ := hnot
    have hold : c₂.args.csaSequence + 1 = (s₂.fields p).createSessionSequence := by
      by_contra hold
      rw [nfs4Compound_error (misordered hfirst hp₂ hold hnew)] at hsame
      cases hsame.1
    have hlength : c.before.length + 1 + c.after.length = (c.before.length + c.after.length) + 1 := by omega
    rw [hlength] at hcached
    refine ⟨hfirst, hget, ?_, (replay_iff hfirst hp₂ hold hused hcached hre.array).mp hsame⟩
    rw [hsequence, hre.sequence] at hold
    exact add_right_cancel hold
  · intro h
    refine ⟨herror.mpr fun p hp hpass => (h p hp hpass).1, fun id hid hre => ?_⟩
    by_cases hstays : ∀ p, nfsClientIdGetPointer s c.args.csaClientid c.allocs.getOk = some p → ¬ Passes s p c
    · rw [(nfs41OpCreateSession_stays hstays).2.1] at hid
      cases hid
    push Not at hstays
    obtain ⟨p, hp, hpass⟩ := hstays
    obtain ⟨hno, hrest⟩ := h p hp hpass
    obtain ⟨hfirst, hget, hseq, hkept⟩ := hrest hre
    have hcreated := (createNewSession_cases s p c).2.resolve_left fun h => hno h.1
    rw [nfs41OpCreateSession_passes hp hpass, hcreated.2.sessionid] at hid
    cases hid
    obtain ⟨hsequence, hused, status, hcached⟩ := nfs4Compound_created hp hpass hno
    have hin := getPointer_eq_some hp
    rw [← hre.fields p hin] at hsequence hused hcached
    have hp₂ : nfsClientIdGetPointer s₂ c₂.args.csaClientid c₂.allocs.getOk = some p := by
      unfold nfsClientIdGetPointer
      rw [if_pos hget, hre.clientid, hre.table, hin]
    have hlength : c.before.length + 1 + c.after.length = (c.before.length + c.after.length) + 1 := by omega
    rw [hlength] at hcached
    refine (replay_iff hfirst hp₂ ?_ hused hcached hre.array).mpr hkept
    rw [hsequence, hre.sequence, hseq]

/-- A client that has the clientid 7, and one free session. -/
def soleClient : Server where
  clients :=
    { nbClientIdPrealloc := 0
      htClientId := fun clientid => if clientid = 7 then some 0 else none
      htClientIdReverse := fun _ => none
      record := fun _ =>
        { clientName := []
          clientid := 7
          cbProgram := 0
          clientRAddr := []
          clientRNetid := []
          verifier := []
          incomingVerifier := []
          lastRenew := 0
          confirmed := .unconfirmed
          credential := 0 }
      clientidPool := fun _ => []
      arrays := fun _ => []
      used := [0] }
  fields _ :=
    { serverOwner := []
      serverScope := []
      nbSession := 0
      createSessionSlot := ⟨⟨.ok, 0, none⟩, false⟩
      createSessionSequence := 1 }
  htSessionId _ := none
  globalSequence := 0
  nbPreStateV4 := 0
  poolSession _ := [0]
  sessionArrays _ := []
  session _ := ⟨0, 0, 0, ⟨0, 0, 0⟩, ⟨0, 0, 0, 0, 0, 0, []⟩, ⟨0, 0, 0, 0, 0, 0, []⟩, fun _ => .zero⟩
  heap _ := none

/-- A request with a flag that is not defined. -/
def undefinedFlag : Compound where
  w := 0
  before := []
  args := ⟨7, 1, 8, ⟨0, 4096, 4096, 4096, 8, 1, []⟩, ⟨0, 4096, 4096, 4096, 8, 1, []⟩, 0⟩
  after := []
  allocs := ⟨true, true, true⟩
  array := 0

/-- The request is refused, and the sequence of the client has advanced. -/
theorem not_createSessionLaw_of_undefinedFlag :
    ¬ ∀ (s : Server) (c : Compound) (s₂ : Server) (c₂ : Compound), CreateSessionLaw s c s₂ c₂ := by
  intro h
  have hlaw := h soleClient undefinedFlag soleClient undefinedFlag
  have hstatus : (nfs41OpCreateSession soleClient undefinedFlag.w undefinedFlag.before.length undefinedFlag.args
      undefinedFlag.allocs).1.status = .inval := rfl
  have hfields := (hlaw.error (hstatus ▸ inval_ne_ok)).fields
  have hsequence : ((nfs4Compound soleClient undefinedFlag).2.fields 0).createSessionSequence = 2 := rfl
  rw [hfields] at hsequence
  cases hsequence

end Ganesha.Nfs41
