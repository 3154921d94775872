import Mathlib.Data.Nat.Notation
import Mathlib.Data.List.Basic
import Mathlib.Tactic.Common

/-!
# Client entries of an export

`support/exports.c` and `support/nfs_export_list.c`: which client may use an export, and with which
credential. Integers are in memory as on a little-endian machine. What the name service and the
pattern matcher answer is given by `Env`.
-/

namespace Ganesha.Exports

/-- A name or a pattern. -/
abbrev Name := List UInt8

/-! ## Addresses -/

/-- An IPv4 address, as it is written: `b0.b1.b2.b3`. -/
structure Ipv4 where
  b0 : UInt8
  b1 : UInt8
  b2 : UInt8
  b3 : UInt8
  deriving DecidableEq

/-- An IPv6 address, as its sixteen bytes. -/
abbrev Ipv6 := Vector UInt8 16

/-- Four bytes as a number, the first one the most significant. -/
def join (b0 b1 b2 b3 : UInt8) : UInt32 :=
  b0.toUInt32 <<< 24 ||| b1.toUInt32 <<< 16 ||| b2.toUInt32 <<< 8 ||| b3.toUInt32

/-- The number of an address, as `inet_network` gives it. -/
def Ipv4.number (a : Ipv4) : UInt32 := join a.b0 a.b1 a.b2 a.b3

/-- `s_addr`: the bytes of the address, one after the other in memory, read as a number. -/
def Ipv4.sAddr (a : Ipv4) : UInt32 := join a.b3 a.b2 a.b1 a.b0

/-- The address of the caller in `sockaddr_storage`. -/
inductive Caller
  | inet (a : Ipv4)
  | inet6 (a : Ipv6)
  deriving DecidableEq

/-- An IPv4 address in an IPv6 one: ten bytes 0 and two bytes 255 before it. -/
def Ipv6.mapped (a : Ipv6) : Option Ipv4 :=
  if a.toList.take 10 = List.replicate 10 0 ∧ (a.toList.drop 10).take 2 = [0xFF, 0xFF] then
    some ⟨a[12], a[13], a[14], a[15]⟩
  else none

/-! ## Client entries -/

/-- `exportlist_client_union_t`, with the type that selects the member. An entry whose type could not
be found when the configuration was read keeps the type 0. -/
inductive Client
  | hostif (clientaddr : UInt32)
  | network (netaddr netmask : UInt32)
  | netgroup (netgroupname : Name)
  | wildcard (wildcard : Name)
  | gssPrincipal (princname : Name)
  | hostifV6 (clientaddr6 : Ipv6)
  | unknown
  deriving DecidableEq

/-- `exportlist_client_entry_t`. -/
structure ClientEntry where
  client : Client
  options : UInt32
  deriving DecidableEq

def exportOptionRoot : UInt32 := 0x00000004

def exportOptionAccess : UInt32 := 0x00000010

/-- The entry has the options that are asked for. -/
def ClientEntry.Carries (e : ClientEntry) (option : UInt32) : Prop := e.options &&& option = option

instance (e : ClientEntry) (option : UInt32) : Decidable (e.Carries option) :=
  inferInstanceAs (Decidable (_ = _))

/-- What the code asks others for: `nfs_ip_name_get` and `nfs_ip_name_add` for the name of an address,
`innetgr`, `fnmatch` and `inet_ntop`. `garbage` is what stands behind the ten characters in the
buffer for the name when `strncpy` writes "unresolved" without an end. -/
structure Env where
  hostname : UInt32 → Option Name
  garbage : Name
  innetgr : Name → Name → Bool
  fnmatch : Name → Name → Bool
  ntop : Ipv4 → Name
  ntop6 : Ipv6 → Name

/-- The name that a wildcard is compared with. -/
def Env.wildcardName (env : Env) (addr : UInt32) : Name :=
  (env.hostname addr).getD ("unresolved".toUTF8.toList ++ env.garbage)

/-! ## Access -/

/-- `export_client_match`: the entry that is found, if any. -/
def exportClientMatch (env : Env) (addr : UInt32) (ipstring : Name) (option : UInt32) :
    List ClientEntry → Option ClientEntry
  | [] => none
  | e :: es =>
    if e.options &&& option ≠ option then exportClientMatch env addr ipstring option es
    else
      match e.client with
      | .hostif clientaddr =>
        if clientaddr = addr then some e else exportClientMatch env addr ipstring option es
      | .network netaddr netmask =>
        if netmask &&& addr = netaddr then some e else exportClientMatch env addr ipstring option es
      | .netgroup netgroupname =>
        match env.hostname addr with
        | none => exportClientMatch env addr ipstring option es
        | some hostname =>
          if env.innetgr netgroupname hostname then some e
          else exportClientMatch env addr ipstring option es
      | .wildcard wildcard =>
        if env.fnmatch wildcard (env.wildcardName addr) then some e
        else if env.fnmatch wildcard ipstring then some e
        else exportClientMatch env addr ipstring option es
      | .gssPrincipal _ => none
      -- the default of the switch
      | .hostifV6 _ | .unknown => none

/-- `export_client_matchv6`. An entry for another IPv6 host falls through to the default. -/
def exportClientMatchv6 (addr : Ipv6) (option : UInt32) : List ClientEntry → Option ClientEntry
  | [] => none
  | e :: es =>
    if e.options &&& option ≠ option then exportClientMatchv6 addr option es
    else
      match e.client with
      | .hostif _ | .network _ _ | .netgroup _ | .wildcard _ | .gssPrincipal _ =>
        exportClientMatchv6 addr option es
      | .hostifV6 clientaddr6 => if clientaddr6 = addr then some e else none
      | .unknown => none

/-- `exportlist_t`, what is read of it here. -/
structure Export where
  clients : List ClientEntry
  anonymousUid : UInt32

/-- `struct authunix_parms`; there are no more groups than `NGRPS`. -/
structure AuthUnix where
  uid : UInt32
  gid : UInt32
  gids : List UInt32
  gids_le : gids.length ≤ 16

/-- The credential of a request by its flavour. For RPCSEC_GSS it is what `name2uid` and
`uidgidmap_get` say of the user. -/
inductive Credential
  | authNone
  | authUnix (parms : AuthUnix)
  | rpcsecGss (uid gid : Option UInt32)
  | other

/-- What is read of `struct svc_req`. -/
structure Request where
  rqProc : UInt32
  rqProg : UInt32
  rqCred : Credential

/-- The entry that `memset` leaves. -/
def emptyEntry : ClientEntry := ⟨.unknown, 0⟩

/-- `nfs_export_check_access`: `*pclient_found` if the access is granted. -/
def exportCheckAccess (env : Env) (caller : Caller) (req : Request) (clients : List ClientEntry)
    (mntProg : UInt32) : Option ClientEntry :=
  -- `NULL` calls are let through
  if req.rqProc = 0 then some emptyEntry
  else if req.rqProg = mntProg then
    match req.rqCred with
    | .authNone => none
    | _ => some emptyEntry
  else
    match caller with
    | .inet a =>
      -- root access first, then any access
      (exportClientMatch env a.sAddr (env.ntop a) exportOptionRoot clients).or
        (exportClientMatch env a.sAddr (env.ntop a) exportOptionAccess clients)
    | .inet6 a6 =>
      -- a mapped address is tried as IPv4 first
      let asV4 := match a6.mapped with
        | some a =>
          (exportClientMatch env a.sAddr (env.ntop6 a6) exportOptionRoot clients).or
            (exportClientMatch env a.sAddr (env.ntop6 a6) exportOptionAccess clients)
        | none => none
      asV4.or ((exportClientMatchv6 a6 exportOptionRoot clients).or
        (exportClientMatchv6 a6 exportOptionAccess clients))

/-- The credential of `fsal_op_context_t`. -/
structure Context where
  user : UInt32
  group : UInt32
  altGroups : List UInt32
  deriving DecidableEq

def fsalNgroupsMax : ℕ := 32

/-- `POSIXFSAL_GetClientContext`. -/
def getClientContext (uid gid : UInt32) (altGroups : List UInt32) : Context :=
  ⟨uid, gid, altGroups.take fsalNgroupsMax⟩

def anonGid : UInt32 := -2

/-- `nfs_build_fsal_context`. -/
def buildFsalContext (req : Request) (client : ClientEntry) (ex : Export) : Option Context :=
  let build (uid gid : UInt32) (gids : List UInt32) : Context :=
    if uid = 0 ∧ client.options &&& exportOptionRoot = 0 then
      getClientContext ex.anonymousUid anonGid gids
    else getClientContext uid gid gids
  match req.rqCred with
  | .authNone => some (build 0 0 [])
  | .authUnix parms => some (build parms.uid parms.gid parms.gids)
  | .rpcsecGss none _ => none
  | .rpcsecGss (some uid) gid => some (build uid (gid.getD (-1)) [])
  | .other => none

/-- `nfs4_MakeCred`, and the same two calls in `nfs_rpc_execute`. -/
def makeCred (env : Env) (ex : Export) (caller : Caller) (req : Request) (mntProg : UInt32) :
    Option Context :=
  (exportCheckAccess env caller req ex.clients mntProg).bind fun client =>
    buildFsalContext req client ex

end Ganesha.Exports
