import Ganesha.ClientId.Common
import Ganesha.Limits

/-!
# SETCLIENTID and SETCLIENTID_CONFIRM

`NFS_Protocols/nfs4_op_setclientid.c` and `NFS_Protocols/nfs4_op_setclientid_confirm.c`, with
`nfs_client_id_basic_compute`. The copy of the verifier to `str_verifier`, which nobody reads, is left
out. An operation gives `none` when it writes or reads outside of an array.
-/

namespace Ganesha.ClientId

/-- The C string at the beginning of some bytes. -/
def cString (bytes : List UInt8) : List UInt8 :=
  bytes.takeWhile (· ≠ 0)

/-- What `strncpy` writes into `n` bytes. -/
def strncpy (src : List UInt8) (n : ℕ) : List UInt8 :=
  let str := (cString src).take n
  str ++ List.replicate (n - str.length) 0

/-- `strncmp` of two arrays of `n` bytes finds no difference. -/
def strncmpEq (a b : List UInt8) (n : ℕ) : Bool :=
  cString (a.take n) = cString (b.take n)

/-- `(unsigned int)(c * 10 ^ i)`. A `char` is signed, and `^` binds less than `*`. -/
def term (c : UInt8) (i : ℕ) : UInt32 :=
  (c.toInt8.toInt32 * 10).toUInt32 ^^^ UInt32.ofNat i

/-- The loop of `nfs_client_id_basic_compute`: `str` is `i` bytes into the array, and `str[i]` as many
bytes further. -/
def basicComputeLoop (stock : List UInt8) : ℕ → ℕ → UInt32 → Option UInt32
  | 0, _, _ => none
  | fuel + 1, i, sum =>
    match stock[i]? with
    | none => none
    | some c =>
      if c = 0 then some sum
      else match stock[i + i]? with
        | none => none
        | some d => basicComputeLoop stock fuel (i + 1) (sum + term d i)

def nfsClientIdBasicCompute (name : List UInt8) : Option UInt64 :=
  (basicComputeLoop (strncpy name maxnamlen) maxnamlen 0 0).map UInt32.toUInt64

/-- The codes of `nfsstat4` that the two operations give. -/
inductive NfsStat
  | ok
  | serverfault
  | clidInuse
  | staleClientid
  deriving DecidableEq

/-- `SETCLIENTID4args`; `verifier` has 8 bytes. -/
structure SetclientidArgs where
  verifier : List UInt8
  id : List UInt8
  cbProgram : UInt32
  rAddr : List UInt8
  rNetid : List UInt8

/-- An answer of SETCLIENTID with `NFS4_OK`: the name it was asked for, the clientid and
`setclientid_confirm`. -/
structure Answer where
  name : List UInt8
  clientid : UInt64
  confirm : List UInt8
  deriving DecidableEq

/-- The server; `compareClientcred` is `nfs_compare_clientcred` where
`_NFSV4_COMPARE_CRED_IN_SETCLIENTID` is defined. `answers` lists the answers, the last one first; it
is not in the source. -/
structure Server where
  clients : Clients
  serverBootTime : UInt32
  compareClientcred : Option (ℕ → ℕ → Bool)
  answers : List Answer

/-- `snprintf(.., NFS4_VERIFIER_SIZE, "%u", (unsigned int)ServerBootTime)`. The time has more than
seven digits, so all 8 bytes are written. -/
def confirmVerifier (serverBootTime : UInt32) : List UInt8 :=
  strncpy (((Nat.toDigits 10 serverBootTime.toNat).map fun c => c.toNat.toUInt8).take 7) 8

/-- The record of a new client, or the one of a client that has rebooted. -/
def SetclientidArgs.fill (args : SetclientidArgs) (serverBootTime : UInt32) (clientid : UInt64)
    (state : ConfirmState) (credential : ℕ) : ClientRecord where
  clientName := cString args.id
  clientid := clientid
  cbProgram := args.cbProgram
  clientRAddr := (cString args.rAddr).take maxnamlen
  clientRNetid := (cString args.rNetid).take maxnamlen
  verifier := confirmVerifier serverBootTime
  incomingVerifier := strncpy args.verifier 8
  lastRenew := 0
  confirmed := state
  credential := credential

/-- The new record that SETCLIENTID stores for a clientid with the record `r`, if it does; an error is
returned at once. -/
def setclientidUpdate (s : Server) (args : SetclientidArgs) (credential : ℕ) (clientid : UInt64)
    (r : ClientRecord) : Except NfsStat (Option ClientRecord) :=
  if r.confirmed = .confirmed then
    if s.compareClientcred.any fun compare => ¬ compare r.credential credential then
      .error .clidInuse
    else if ¬ strncmpEq r.incomingVerifier args.verifier 8 then
      .ok (some (args.fill s.serverBootTime clientid .rebooted r.credential))
    else if r.cbProgram = args.cbProgram then .ok (some { r with confirmed := .unconfirmed })
    else .ok none
  else .ok none

/-- The end of SETCLIENTID. -/
def setclientidAnswer (s : Server) (args : SetclientidArgs) (clientid : UInt64) :
    Status → NfsStat × Server
  | .success =>
    (.ok, { s with answers := ⟨args.id, clientid, confirmVerifier s.serverBootTime⟩ :: s.answers })
  | _ => (.serverfault, s)

/-- `nfs4_op_setclientid`, with the answers of the allocator. -/
def nfs4OpSetclientid (s : Server) (w : ℕ) (args : SetclientidArgs) (credential : ℕ) (getOk : Bool)
    (allocs : Allocs) : Option (NfsStat × Server) :=
  if args.id.length < maxnamlen then
    -- the clientid is a digest of the name
    match nfsClientIdBasicCompute (cString args.id) with
    | none => none
    | some clientid =>
      match (nfsClientIdGet s.clients clientid getOk).2 with
      | some r =>
        match setclientidUpdate s args credential clientid r with
        | .error status => some (status, s)
        | .ok none => some (setclientidAnswer s args clientid .success)
        | .ok (some r) =>
          let (status, clients, _) :=
            nfsClientIdSet s.clients clientid r (s.clients.clientidPool w) allocs
          some (setclientidAnswer { s with clients } args clientid status)
      | none =>
        let r := args.fill s.serverBootTime clientid .unconfirmed credential
        let (status, clients, _) :=
          nfsClientIdAdd s.clients clientid r (s.clients.clientidPool w) allocs
        some (setclientidAnswer { s with clients } args clientid status)
  else none

/-- `nfs4_op_setclientid_confirm`, with the answers of the allocator. -/
def nfs4OpSetclientidConfirm (s : Server) (w : ℕ) (clientid : UInt64)
    (setclientidConfirm : List UInt8) (now : ℤ) (getOk : Bool) (allocs : Allocs) :
    NfsStat × Server :=
  match (nfsClientIdGet s.clients clientid getOk).2 with
  | some r =>
    if r.confirmed = .confirmed then
      (if ¬ strncmpEq r.verifier setclientidConfirm 8 then .clidInuse else .ok, s)
    else
      let r := { r with confirmed := .confirmed, lastRenew := now }
      let (status, clients, _) :=
        nfsClientIdSet s.clients clientid r (s.clients.clientidPool w) allocs
      (if status = .success then .ok else .serverfault, { s with clients })
  | none => (.staleClientid, s)

/-- A request, served by the worker `w`. -/
inductive Request
  | setclientid (w : ℕ) (args : SetclientidArgs) (credential : ℕ) (getOk : Bool) (allocs : Allocs)
  | setclientidConfirm (w : ℕ) (clientid : UInt64) (setclientidConfirm : List UInt8) (now : ℤ)
    (getOk : Bool) (allocs : Allocs)

/-- The server after a request. -/
def serve (s : Server) : Request → Option Server
  | .setclientid w args credential getOk allocs =>
    (nfs4OpSetclientid s w args credential getOk allocs).map Prod.snd
  | .setclientidConfirm w clientid setclientidConfirm now getOk allocs =>
    some (nfs4OpSetclientidConfirm s w clientid setclientidConfirm now getOk allocs).2

end Ganesha.ClientId
