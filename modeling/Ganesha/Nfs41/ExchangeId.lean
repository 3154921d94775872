import Mathlib
import Ganesha.Nfs41.CreateSession
import Ganesha.Library.Transition

/-!
# EXCHANGE_ID

`nfs41_op_exchange_id` of `NFS_Protocols/nfs41_op_exchange_id.c`, built without the comparison of the
credentials, and runs of it with `CREATE_SESSION`, which confirms the records. The copy of the verifier to
`str_verifier`, which nobody reads, is left out. `none` stands for a write or a read outside of an array.
-/

namespace Ganesha.Nfs41
open Ganesha.ClientId (ClientRecord Allocs cString strncpy strncmpEq confirmVerifier
  nfsClientIdBasicCompute nfsClientIdSet)
open Ganesha.Hash (getPrealloc)

/-- `EXCHANGE_ID4args`, without what is not read; the verifier has 8 bytes. -/
structure ExchangeIdArgs where
  coVerifier : List UInt8
  coOwnerid : List UInt8
  eiaFlags : UInt32

/-- `EXCHANGE_ID4resok`, without what is always empty. -/
structure ExchangeIdResok where
  eirClientid : UInt64
  eirSequenceid : UInt32
  eirFlags : UInt32
  eirServerOwner : List UInt8
  eirServerScope : List UInt8

def allEiaFlags : UInt32 :=
  0x00000001 ||| 0x00000002 ||| 0x00000100 ||| 0x00010000 ||| 0x00020000 ||| 0x00040000 ||| 0x00070000 |||
    0x40000000 ||| 0x80000000

/-- `eir_flags` of a server without pNFS: `EXCHGID4_FLAG_USE_NON_PNFS | EXCHGID4_FLAG_SUPP_MOVED_REFER`. -/
def eirFlags : UInt32 := 0x00010000 ||| 0x00000001

/-- The check of the flags fails. `!=` binds more than `&`. -/
def flagsRefused (eiaFlags : UInt32) : Bool :=
  eiaFlags &&& (if allEiaFlags ≠ eiaFlags then 1 else 0) ≠ 0

/-- What a call meets: whether there is memory for the key of the search, for the keys and the nodes of a
new record and for the reply, the name of the host, and what is on the stack where `nfs_clientid` lies. -/
structure ExchangeEnv where
  getOk : Bool
  allocs : Allocs
  replyOk : Bool
  hostname : Option (List UInt8)
  stackRecord : ClientRecord
  stackFields : ClientFields

/-- `nfs_client_id_add` and `nfs_client_id_set`, with the fields of NFSv4.1 of the record. It also gives the
record that is filled. -/
def storeClient (s : Server) (w : ℕ) (clientid : UInt64) (record : ClientRecord) (fields : ClientFields)
    (allocs : Allocs) : ClientId.Status × Option ℕ × Server :=
  let (status, clients, _) := nfsClientIdSet s.clients clientid record (s.clients.clientidPool w) allocs
  let p := (getPrealloc s.clients.nbClientIdPrealloc (s.clients.clientidPool w) s.clients.arrays).1
  let stored := if allocs.clientidOk ∧ allocs.nameOk then p else none
  let fields := match stored with
    | some p => Function.update s.fields p fields
    | none => s.fields
  (status, stored, { s with clients := clients, fields := fields })

/-- `nfs_client_id_get`, with the fields of NFSv4.1. -/
def nfsClientIdGet (s : Server) (clientid : UInt64) (getOk : Bool) : Option (ClientRecord × ClientFields) :=
  (nfsClientIdGetPointer s clientid getOk).map fun p => (s.clients.record p, s.fields p)

/-- The owner and the verifier of the request are put into a record. -/
def ExchangeIdArgs.fill (args : ExchangeIdArgs) (serverBootTime : UInt32) (clientid : UInt64)
    (state : ClientId.ConfirmState) (r : ClientRecord) : ClientRecord :=
  { r with
    clientName := cString args.coOwnerid
    incomingVerifier := strncpy args.coVerifier 8
    verifier := confirmVerifier serverBootTime
    confirmed := state
    clientid := clientid
    lastRenew := 0 }

/-- The reply for a client, when there is memory for it. -/
def exchangeReply (clientid : UInt64) (fields : ClientFields) (replyOk : Bool) :
    Option (Except Nfsstat4 ExchangeIdResok) :=
  if replyOk then
    some (.ok
      { eirClientid := clientid
        eirSequenceid := fields.createSessionSequence
        eirFlags := eirFlags
        eirServerOwner := fields.serverOwner
        eirServerScope := fields.serverOwner })
  else none

/-- The end of EXCHANGE_ID after a record was stored. -/
def exchangeStored (clientid : UInt64) (fields : ClientFields) (replyOk : Bool) :
    ClientId.Status × Option ℕ × Server → Option (Except Nfsstat4 ExchangeIdResok × Option ℕ × Server)
  | (.success, stored, s) => (exchangeReply clientid fields replyOk).map fun r => (r, stored, s)
  | (_, stored, s) => some (.error .serverfault, stored, s)

/-- EXCHANGE_ID for a clientid with the record `r`. -/
def exchangeKnown (s : Server) (serverBootTime : UInt32) (w : ℕ) (args : ExchangeIdArgs) (env : ExchangeEnv)
    (clientid : UInt64) (r : ClientRecord) (fields : ClientFields) :
    Option (Except Nfsstat4 ExchangeIdResok × Option ℕ × Server) :=
  if r.confirmed = .confirmed ∧ ¬ strncmpEq r.incomingVerifier args.coVerifier 8 then
    exchangeStored clientid fields env.replyOk
      (storeClient s w clientid (args.fill serverBootTime clientid .rebooted r) fields env.allocs)
  else (exchangeReply clientid fields env.replyOk).map fun r => (r, none, s)

/-- EXCHANGE_ID for a new clientid. -/
def exchangeNew (s : Server) (serverBootTime : UInt32) (w : ℕ) (args : ExchangeIdArgs) (credential : ℕ)
    (env : ExchangeEnv) (clientid : UInt64) : Option (Except Nfsstat4 ExchangeIdResok × Option ℕ × Server) :=
  match env.hostname with
  | none => some (.error .serverfault, none, s)
  | some hostname =>
    let record := { args.fill serverBootTime clientid .unconfirmed env.stackRecord with
      cbProgram := 0
      credential := credential }
    let fields := { env.stackFields with
      nbSession := 0
      createSessionSequence := 1
      serverOwner := hostname
      serverScope := hostname }
    exchangeStored clientid fields env.replyOk (storeClient s w clientid record fields env.allocs)

/-- `nfs41_op_exchange_id`. It also gives the record that is filled. -/
def nfs41OpExchangeId (s : Server) (serverBootTime : UInt32) (w : ℕ) (args : ExchangeIdArgs) (credential : ℕ)
    (env : ExchangeEnv) : Option (Except Nfsstat4 ExchangeIdResok × Option ℕ × Server) :=
  if args.coOwnerid.length < maxnamlen then
    (nfsClientIdBasicCompute (cString args.coOwnerid)).bind fun clientid =>
      if flagsRefused args.eiaFlags then some (.error .inval, none, s)
      else match nfsClientIdGet s clientid env.getOk with
        | some (r, fields) => exchangeKnown s serverBootTime w args env clientid r fields
        | none => exchangeNew s serverBootTime w args credential env clientid
  else none

/-! ## Runs -/

/-- An answer of EXCHANGE_ID with `NFS4_OK`: the owner and the verifier it was asked for, and the clientid. -/
structure Exchanged where
  coOwnerid : List UInt8
  coVerifier : List UInt8
  clientid : UInt64
  deriving DecidableEq

/-- The server. `answers` lists the answers, the last one first, and `maker` has the owner and the verifier
that a record was made for; they are not in the source. -/
structure Exchanges where
  server : Server
  serverBootTime : UInt32
  answers : List Exchanged
  maker : ℕ → List UInt8 × List UInt8

/-- A request, served by the worker `w`. -/
inductive Request
  | exchangeId (w : ℕ) (args : ExchangeIdArgs) (credential : ℕ) (env : ExchangeEnv)
  | createSession (c : Compound)

/-- Note who a record was made for. -/
def noteMaker (maker : ℕ → List UInt8 × List UInt8) (incarnation : List UInt8 × List UInt8) :
    Option ℕ → ℕ → List UInt8 × List UInt8
  | some p => Function.update maker p incarnation
  | none => maker

/-- Note an answer, and the record that was made. -/
def Exchanges.note (s : Exchanges) (args : ExchangeIdArgs) :
    Except Nfsstat4 ExchangeIdResok × Option ℕ × Server → Exchanges
  | (r, stored, server) =>
    { s with
      server := server
      answers := match r with
        | .ok resok => ⟨args.coOwnerid, args.coVerifier, resok.eirClientid⟩ :: s.answers
        | .error _ => s.answers
      maker := noteMaker s.maker (args.coOwnerid, args.coVerifier) stored }

/-- The server after a request. -/
def serve (s : Exchanges) : Request → Option Exchanges
  | .exchangeId w args credential env =>
    (nfs41OpExchangeId s.server s.serverBootTime w args credential env).map fun r => s.note args r
  | .createSession c => some { s with server := (nfs4Compound s.server c).2 }

end Ganesha.Nfs41
