import Ganesha.Nfs4.State

/-!
# OPEN and CLOSE

`NFS_Protocols/nfs4_op_open.c` and `NFS_Protocols/nfs4_op_close.c`. The arguments of the request are
`OpenArgs`; what the rest of the server answers while the request is served is `OpenEnv`, one field
for each call in the order of the source. Of the result only the status and the stateid are kept.
-/

namespace Ganesha.Nfs4
open Ganesha.Hash (getPrealloc)

def open4ShareAccessRead : ℕ := 1
def open4ShareAccessWrite : ℕ := 2
def open4ShareDenyRead : ℕ := 1
def open4ShareDenyWrite : ℕ := 2

/-- `open_claim_type4`. -/
inductive ClaimType
  | null
  | previous
  | delegateCur
  | delegatePrev
  | other
  deriving DecidableEq

/-- `opentype4`. -/
inductive OpenType
  | nocreate
  | create
  | other
  deriving DecidableEq

/-- `createmode4`. -/
inductive CreateMode
  | unchecked
  | guarded
  | exclusive
  | other
  deriving DecidableEq

/-- `OPEN4args`. `ownerVal` is the memory from `owner_val` on: the code compares it beyond
`ownerLen`. `attrs` says that `createattrs.attrmask` is not empty. -/
structure OpenArgs where
  claim : ClaimType
  fileLen : ℕ
  openType : OpenType
  mode : CreateMode
  createverf : List UInt8
  attrs : Bool
  shareAccess : ℕ
  shareDeny : ℕ
  clientid : UInt64
  ownerLen : ℕ
  ownerVal : ℕ → UInt8
  seqid : UInt32

/-- What the rest of the server answers. `filehandle` is the error of the tests on the current
filehandle, `client` what `nfs_client_id_get` gives (whether the client is confirmed), `stack` the
bytes that are in `candidate_data` before it is filled, `finish` the error of what follows the last
change of a state. -/
structure OpenEnv where
  filehandle : Option NfsStat
  fattrSupported : Bool
  fattrCheckAccess : Bool
  buffdesc2name : CacheStatus
  parentType : FileType
  client : Option Bool
  ownerNameAlloc : Bool
  ownerSetOk : Bool
  getattr : CacheStatus
  fattrToFsalAttr : ℤ
  lookup : Except CacheStatus ℕ
  accessDenyWrite : CacheStatus
  accessRead : CacheStatus
  setattr : CacheStatus
  accessWrite : CacheStatus
  create : Except CacheStatus (ℕ × Option UInt64)
  stack : List UInt8
  stateSetOk : Bool
  openByName : CacheStatus
  finish : Option NfsStat

/-- The status and the stateid. -/
structure OpenRes where
  status : NfsStat
  stateid : Option (UInt32 × Other) := none

namespace OpenArgs

/-- `nfs_convert_open_owner`. -/
def ownerName (args : OpenArgs) : OwnerName :=
  ⟨args.clientid, (List.range args.ownerLen).map args.ownerVal⟩

/-- `!memcmp(arg_OPEN4.owner.owner.owner_val, powner->owner_val, powner->owner_len)`. -/
def sameBytes (args : OpenArgs) (ownerVal : List UInt8) : Bool :=
  (List.range ownerVal.length).map args.ownerVal = ownerVal

/-- The modes with attributes. -/
def hasAttrs (args : OpenArgs) : Bool := args.mode = .guarded ∨ args.mode = .unchecked

def attrProvided (args : OpenArgs) : Bool := args.hasAttrs ∧ args.attrs

end OpenArgs

/-! ## Checks -/

/-- The checks of `CLAIM_NULL` before the owner is looked up. -/
def claimNullChecks (s : Server) (args : OpenArgs) (env : OpenEnv) : Option NfsStat :=
  if args.fileLen > s.fsalMaxNameLen then some .nametoolong
  else if args.fileLen = 0 then some .inval
  else if args.hasAttrs ∧ ¬ env.fattrSupported then some .attrnotsupp
  else if args.hasAttrs ∧ ¬ env.fattrCheckAccess then some .inval
  else if env.buffdesc2name ≠ .success then some (.errno env.buffdesc2name)
  else if env.parentType ≠ .directory then
    some (if env.parentType = .symlink then .symlink else .notdir)
  else if env.client ≠ some true then some .staleClientid
  else none

/-- The checks between the owner and the opening. -/
def openAttrChecks (args : OpenArgs) (env : OpenEnv) : Option NfsStat :=
  if env.getattr ≠ .success then some (.errno env.getattr)
  else if args.attrProvided ∧ env.fattrToFsalAttr = 0 then some .attrnotsupp
  else if args.attrProvided ∧ env.fattrToFsalAttr = -1 then some .badxdr
  else none

/-- The access checks of a file that exists, and its attributes. -/
def openAccessChecks (args : OpenArgs) (env : OpenEnv) (setattr : Bool) : Option NfsStat :=
  if args.shareDeny &&& open4ShareDenyWrite ≠ 0 ∧ env.accessDenyWrite ≠ .success then some .access
  else if args.shareAccess &&& open4ShareAccessRead ≠ 0 ∧ env.accessRead ≠ .success then some .access
  else if setattr ∧ env.setattr ≠ .success then some (.errno env.setattr)
  else if args.shareAccess &&& open4ShareAccessWrite ≠ 0 ∧ env.accessWrite ≠ .success then
    some .access
  else none

/-! ## The owner -/

/-- The open owner of the request, made if it is not known yet. -/
def openOwner (s : Server) (args : OpenArgs) (env : OpenEnv) : Option ℕ × Server :=
  match s.htOpenOwner args.ownerName with
  | some o =>
    -- seqid 0: the owner starts anew
    if args.seqid = 0 then
      (some o, s.setOwner o fun owner => { owner with seqid := 0, confirmed := false })
    else (some o, s)
  | none => match getPrealloc s.nbPreStateV4 s.poolOpenOwner s.ownerArrays with
    | (none, pool, arrays) => (none, { s with poolOpenOwner := pool, ownerArrays := arrays })
    | (some o, pool, arrays) =>
      let s := { s with poolOpenOwner := pool, ownerArrays := arrays }
      -- `Mem_Alloc` for the name of the owner
      if ¬ env.ownerNameAlloc then (none, s)
      else
        let s := s.setOwner o fun owner =>
          { owner with
            name := args.ownerName
            confirmed := false
            seqid := 0
            relatedOwner := none }
        let (ok, s) := nfsOpenOwnerSet s args.ownerName o env.ownerSetOk
        (if ok then some o else none, s)

/-! ## Opening -/

/-- `candidate_data` of an open. -/
def candidateData (args : OpenArgs) (verifier : List UInt8) : StateData :=
  .share verifier args.shareAccess args.shareDeny 0

/-- `cache_inode_open_by_name` and what follows it, `seqid` being that of the stateid sent back. -/
def openEnd (s : Server) (powner pstate : ℕ) (seqid : UInt32) (env : OpenEnv) : OpenRes × Server :=
  if env.openByName ≠ .success then ({ status := .access }, s.incrSeqid powner)
  else match env.finish with
    | some err => ({ status := err }, s)
    | none =>
      ({ status := .ok, stateid := some (seqid, (s.states pstate).stateidOther) }, s)

/-- `OPEN4_CREATE` with `UNCHECKED4` of a file that exists. -/
def openUnchecked (s : Server) (powner e : ℕ) (args : OpenArgs) (env : OpenEnv) :
    Option (OpenRes × Server) :=
  match openAccessChecks args env args.attrProvided with
  | some err => some ({ status := err }, s)
  | none =>
    (cacheInodeAddState s (some e) .share (candidateData args env.stack) powner
      env.stateSetOk).map fun
      | (.success, some p, s) => openEnd s powner p (s.states p).seqid env
      | (_, _, s) => ({ status := .shareDenied }, s.incrSeqid powner)

/-- The loop of `EXCLUSIVE4` over the states of a file that exists: the state of a former open by
the same owner with the same verifier, and the status of the loop. -/
def exclusiveLoop (s : Server) (e : ℕ) (entry : Entry) (args : OpenArgs) :
    ℕ → Option ℕ → Option (CacheStatus × Option ℕ)
  | 0, _ => none
  | fuel + 1, previous => match cacheInodeStateIterate s e entry previous with
    | .error status => some (status, none)
    | .ok none => some (.success, none)
    | .ok (some p) =>
      let st := s.states p
      if st.type = .share ∧ args.sameBytes (s.owners st.powner).name.ownerVal ∧
          st.data.oexclVerifier = args.createverf then
        some (.success, some p)
      else exclusiveLoop s e entry args fuel (some p)

/-- `OPEN4_CREATE` with `EXCLUSIVE4` of a file that exists. -/
def openExclusive (s : Server) (e : ℕ) (args : OpenArgs) (env : OpenEnv) :
    Option (OpenRes × Server) :=
  (s.entries e).bind fun entry =>
    if entry.type ≠ .regular then some ({ status := .exist }, s)
    else (exclusiveLoop s e entry args (s.allocs + 1) none).map fun
      | (_, some p) => match env.finish with
        | some err => ({ status := err }, s)
        | none => ({ status := .ok,
                     stateid := some ((s.states p).seqid, (s.states p).stateidOther) }, s)
      | (.success, none) => ({ status := .exist }, s)
      | (status, none) => ({ status := .errno status }, s)

/-- `strncpy` into an array of `NFS4_VERIFIER_SIZE` bytes. -/
def strncpyVerifier (bytes : List UInt8) : List UInt8 :=
  let text := (bytes.take 8).takeWhile (· ≠ 0)
  text ++ List.replicate (8 - text.length) 0

/-- The state of a new file. -/
def openNewState (s : Server) (powner : ℕ) (newfile : Option ℕ) (args : OpenArgs) (env : OpenEnv) :
    Option (OpenRes × Server) :=
  let verifier := if args.mode = .exclusive then strncpyVerifier args.createverf else env.stack
  (cacheInodeAddState s newfile .share (candidateData args verifier) powner env.stateSetOk).map fun
    | (.success, some p, s) =>
      if args.attrProvided ∧ env.setattr ≠ .success then ({ status := .errno env.setattr }, s)
      else openEnd s powner p (s.owners powner).seqid env
    | (_, _, s) => ({ status := .shareDenied }, s.incrSeqid powner)

/-- `OPEN4_CREATE` of a file that does not exist. When the file system says that it does, the entry
of the file is the `NULL` that the lookup gave. -/
def openNew (s : Server) (powner : ℕ) (args : OpenArgs) (env : OpenEnv) :
    Option (OpenRes × Server) :=
  match env.create with
  | .ok (e, digest) =>
    openNewState
      { s with entries := Function.update s.entries e (some ⟨.regular, digest, none, none⟩) }
      powner (some e) args env
  | .error status =>
    if status ≠ .entryExists then some ({ status := .errno status }, s)
    else openNewState s powner none args env

/-- `OPEN4_CREATE`. -/
def openCreate (s : Server) (powner : ℕ) (args : OpenArgs) (env : OpenEnv) :
    Option (OpenRes × Server) :=
  match env.lookup with
  | .ok e => match args.mode with
    | .unchecked => openUnchecked s powner e args env
    | .exclusive => openExclusive s e args env
    | _ => some ({ status := .exist }, s)
  | .error .notFound => openNew s powner args env
  | .error status => some ({ status := .errno status }, s)

/-- How the loop of `OPEN4_NOCREATE` ends: the open is refused and the seqid of the owner grows, or
the state that the owner has already. -/
inductive NocreateScan
  | denied (incr : UInt32)
  | done (sameOwner : Option ℕ)

/-- The loop of `OPEN4_NOCREATE` over the states of the file. -/
def nocreateLoop (s : Server) (e : ℕ) (entry : Entry) (args : OpenArgs) :
    ℕ → Option ℕ → Option ℕ → Option NocreateScan
  | 0, _, _ => none
  | fuel + 1, previous, sameOwner => match cacheInodeStateIterate s e entry previous with
    | .error _ => some (.done sameOwner)
    | .ok none => some (.done sameOwner)
    | .ok (some p) =>
      -- the owner of the state, compared field by field
      let st := s.states p
      let name := (s.owners st.powner).name
      let same := st.type = .share ∧ name.clientid = args.clientid ∧
        name.ownerVal.length = args.ownerLen ∧ args.sameBytes name.ownerVal
      -- a writer of another name, and the request denies writing
      if ¬ same ∧ ¬ args.sameBytes name.ownerVal ∧ st.type = .share ∧
          st.data.shareAccess &&& open4ShareAccessWrite ≠ 0 ∧
          args.shareDeny &&& open4ShareDenyWrite ≠ 0 then
        some (.denied 0)
      -- reading is denied by this state
      else if st.type = .share ∧ st.data.shareDeny &&& open4ShareDenyRead ≠ 0 ∧
          args.shareAccess &&& open4ShareAccessRead ≠ 0 then
        some (.denied 2)
      -- writing is denied by this state
      else if st.type = .share ∧ st.data.shareDeny &&& open4ShareDenyWrite ≠ 0 ∧
          args.shareAccess &&& open4ShareAccessWrite ≠ 0 then
        some (.denied 1)
      else nocreateLoop s e entry args fuel (some p) (if same then some p else sameOwner)

/-- `OPEN4_NOCREATE`. -/
def openNocreate (s : Server) (powner : ℕ) (args : OpenArgs) (env : OpenEnv) :
    Option (OpenRes × Server) :=
  match env.lookup with
  | .error status => some ({ status := .errno status }, s)
  | .ok e => (s.entries e).bind fun entry => match entry.type with
    | .directory => some ({ status := .isdir }, s)
    | .symlink => some ({ status := .symlink }, s)
    | .other => some ({ status := .inval }, s)
    | .regular => match openAccessChecks args env false with
      | some err => some ({ status := err }, s)
      | none => (nocreateLoop s e entry args (s.allocs + 1) none none).bind fun
        | .denied incr =>
          some ({ status := .shareDenied },
            s.setOwner powner fun owner => { owner with seqid := owner.seqid + incr })
        | .done (some p) =>
          -- the owner has a share state on this file already
          let s := s.setState p fun st => { st with seqid := st.seqid + 1 }
          some (openEnd s powner p (s.owners powner).seqid env)
        | .done none =>
          -- a candidate of the list is added
          (cacheInodeAddState s (some e) .share (candidateData args env.stack) powner
            env.stateSetOk).map fun
            | (.success, some p, s) => openEnd s powner p (s.owners powner).seqid env
            | (_, _, s) => ({ status := .shareDenied }, s.incrSeqid powner)

/-- `nfs4_op_open`. An owner longer than `MAXNAMLEN` is written beyond its buffer. -/
def nfs4OpOpen (s : Server) (args : OpenArgs) (env : OpenEnv) : Option (OpenRes × Server) :=
  match env.filehandle with
  | some err => some ({ status := err }, s)
  | none => match args.claim with
    | .delegateCur | .delegatePrev =>
      some ({ status := if args.fileLen > s.fsalMaxNameLen then .nametoolong
                else if args.fileLen = 0 then .inval else .notsupp }, s)
    | .previous => some ({ status := .errno .invalidArgument }, s)
    | .other => some ({ status := .inval }, s)
    | .null => match claimNullChecks s args env with
      | some err => some ({ status := err }, s)
      | none =>
        -- the owner is copied into a buffer of `MAXNAMLEN` bytes
        if args.ownerLen > s.maxnamlen then none
        else match openOwner s args env with
          | (none, s) => some ({ status := .serverfault }, s)
          | (some powner, s) => match openAttrChecks args env with
            | some err => some ({ status := err }, s)
            | none => match args.openType with
              | .create => openCreate s powner args env
              | .nocreate => openNocreate s powner args env
              | .other => some ({ status := .inval }, s.incrSeqid powner)

/-! ## CLOSE -/

/-- What the rest of the server answers to a CLOSE. -/
structure CloseEnv where
  filehandle : Option NfsStat
  clientKnown : Bool
  cacheInodeClose : CacheStatus

/-- `nfs4_op_close` of the current entry `e`. -/
def nfs4OpClose (s : Server) (e : ℕ) (other : Other) (env : CloseEnv) : Option (NfsStat × Server) :=
  match env.filehandle with
  | some err => some (err, s)
  | none => (s.entries e).bind fun entry => match entry.type with
    | .directory => some (.isdir, s)
    | .symlink | .other => some (.inval, s)
    | .regular => match nfs4CheckStateid s other entry.type env.clientKnown with
      | .ok => match cacheInodeGetState s other with
        | none => some (.badStateid, s)
        | some p =>
          -- no close as long as locks are held on this state
          if (s.states p).data.lockheld > 0 then some (.locksHeld, s)
          else
            -- the seqid goes up before the state is deleted
            let s := s.incrSeqid (s.states p).powner
            (cacheInodeDelStateByKey s other).map fun
              | (.success, s) =>
                if env.cacheInodeClose ≠ .success then (.errno env.cacheInodeClose, s) else (.ok, s)
              | (status, s) => (.errno status, s)
      | err => some (err, s)

end Ganesha.Nfs4
