import Ganesha.Nfs4.Open

/-!
# LOCK and LOCKU

`NFS_Protocols/nfs4_op_lock.c` and `NFS_Protocols/nfs4_op_locku.c`, built with `_WITH_NFSV4_LOCKS`.
-/

namespace Ganesha.Nfs4
open Ganesha.Hash (getPrealloc)

/-- `locker4`: a new lock owner with the open it locks, or the stateid of a lock it has. -/
inductive Locker
  | openOwner (openSeqid : UInt32) (stateidSeqid : UInt32) (stateidOther : Other)
      (lockSeqid : UInt32) (lockOwner : OwnerName)
  | lockOwner (stateidSeqid : UInt32) (stateidOther : Other) (lockSeqid : UInt32)

/-- `LOCK4args`. -/
structure LockArgs where
  locktype : LockType
  offset : UInt64
  length : UInt64
  locker : Locker

/-- What the rest of the server answers. `clientKnown` is for the client of the open owner,
`clientIdFound` for that of the lock owner. -/
structure LockEnv where
  filehandle : Option NfsStat
  clientKnown : Bool
  clientIdFound : Bool
  ownerNameAlloc : Bool
  ownerSetOk : Bool
  stateSetOk : Bool

/-- The status, the lock that is in the way, and the stateid. -/
structure LockRes where
  status : NfsStat
  denied : Option (UInt64 × UInt64 × LockType × List UInt8) := none
  stateid : Option (UInt32 × Other) := none

/-- The tests on the range. -/
def rangeChecks (offset length : UInt64) : Option NfsStat :=
  if length = 0 then some .inval
  else if length ≠ 0xffffffffffffffff ∧ length > 0xffffffffffffffff - offset then some .inval
  else none

/-- "Locks overlap is a <= a1 < b or a < b1 <= b". -/
def overlaps (a b a1 b1 : UInt64) : Bool :=
  if a ≤ a1 then a1 < b else a < b1 ∧ b1 ≤ b

/-- The overlap of a request with the lock `data`. -/
def LockArgs.overlaps (args : LockArgs) : StateData → Bool
  | .share .. => false
  | .lock _ offset length _ =>
    Nfs4.overlaps offset (offset + length) args.offset (args.offset + args.length)

/-- The type of a lock; it is read of lock states only. -/
def StateData.lockType : StateData → LockType
  | .share .. => .read
  | .lock type .. => type

/-- How the search for a conflict ends. -/
inductive LockScan
  | error
  | denied (p : ℕ)
  | openmode
  | clear

/-- The owner test of the loop: the client is not compared. -/
def sameLockOwner (s : Server) (exists? : Option ℕ) (p : ℕ) : Bool :=
  exists?.any fun q =>
    (s.owners (s.states q).powner).name.ownerVal = (s.owners (s.states p).powner).name.ownerVal

/-- The loop of `nfs4_op_lock` over the states of the file, `exists?` being `pstate_exists`. -/
def lockLoop (s : Server) (e : ℕ) (entry : Entry) (args : LockArgs) (exists? : Option ℕ) :
    ℕ → Option ℕ → Option LockScan
  | 0, _ => none
  | fuel + 1, previous => match cacheInodeStateIterate s e entry previous with
    | .error _ => some .error
    | .ok none => some .clear
    | .ok (some p) =>
      let st := s.states p
      -- a lock of another owner stands in the way
      if st.type = .lock ∧ args.overlaps st.data ∧
          (args.locktype ≠ .read ∨ st.data.lockType ≠ .read) ∧ ¬ sameLockOwner s exists? p then
        some (.denied p)
      -- a share that denies writing, seen by a write lock
      else if st.type = .share ∧ st.data.shareDeny &&& open4ShareDenyWrite ≠ 0 ∧
          st.data.shareAccess &&& open4ShareAccessWrite = 0 ∧ args.locktype = .write then
        some .openmode
      else lockLoop s e entry args exists? fuel (some p)

/-- The seqid of the owner of `pstate_exists` grows when the lock is refused. -/
def incrExists (s : Server) (exists? : Option ℕ) : Server :=
  match exists? with
  | some q => s.incrSeqid (s.states q).powner
  | none => s

/-- The lock of a new owner, from the allocation of the owner on. -/
def lockNewOwner (s : Server) (e pstateOpen : ℕ) (args : LockArgs) (name : OwnerName)
    (env : LockEnv) : Option (LockRes × Server) :=
  match getPrealloc s.nbPreStateV4 s.poolOpenOwner s.ownerArrays with
  | (none, _, _) => none
  | (some o, pool, arrays) =>
    -- the name is copied into a buffer of `MAXNAMLEN` bytes
    if ¬ env.ownerNameAlloc ∨ name.ownerVal.length > s.maxnamlen then none
    else
      let s := { s with poolOpenOwner := pool, ownerArrays := arrays }
      let s := s.setOwner o fun owner =>
        { owner with
          name := name
          confirmed := false
          seqid := 0
          relatedOwner := some (s.states pstateOpen).powner }
      match nfsOpenOwnerSet s name o env.ownerSetOk with
      | (false, s) => some ({ status := .serverfault }, s)
      | (true, s) =>
        (cacheInodeAddState s (some e) .lock
          (.lock args.locktype args.offset args.length pstateOpen) o env.stateSetOk).bind fun
          | (.success, some p, s) =>
            let s := s.incrSeqid (s.states pstateOpen).powner
            -- the open state counts its locks
            ((s.states pstateOpen).data.setLockheld (· + 1)).map fun data =>
              ({ status := .ok
                 stateid := some ((s.states p).seqid, (s.states p).stateidOther) },
                s.setState pstateOpen fun st => { st with data := data })
          | (_, _, s) => some ({ status := .staleStateid }, s)

/-- The checks of a new lock owner after the search for a conflict. -/
def lockOpenOwnerChecks (s : Server) (e : ℕ) (entry : Entry) (pstateOpen : ℕ)
    (openSeqid stateidSeqid : UInt32) (stateidOther : Other) (lockSeqid : UInt32) (env : LockEnv) :
    Option NfsStat :=
  let st := s.states pstateOpen
  match nfs4CheckStateid s stateidOther entry.type env.clientKnown with
  | .ok =>
    if ¬ env.clientIdFound then some .staleClientid
    else if st.type ≠ .share then some .badStateid
    else if stateidSeqid < st.seqid then some .oldStateid
    else if openSeqid < (s.owners st.powner).seqid ∨ openSeqid > (s.owners st.powner).seqid + 2 then
      some .badSeqid
    else if st.pentry ≠ some e then some .badStateid
    else if lockSeqid ≠ 0 then some .badSeqid
    else none
  | err => some err

/-- The end of `nfs4_op_lock` for a new lock owner. -/
def lockOpenOwner (s : Server) (e : ℕ) (entry : Entry) (pstateOpen : ℕ) (args : LockArgs)
    (openSeqid stateidSeqid : UInt32) (stateidOther : Other) (lockSeqid : UInt32)
    (name : OwnerName) (env : LockEnv) : Option (LockRes × Server) :=
  match lockOpenOwnerChecks s e entry pstateOpen openSeqid stateidSeqid stateidOther lockSeqid env with
  | some err => some ({ status := err }, s)
  | none => lockNewOwner s e pstateOpen args name env

/-- The checks of a lock owner that has the lock `p`. -/
def lockLockOwnerChecks (s : Server) (e p : ℕ) (stateidSeqid lockSeqid : UInt32) : Option NfsStat :=
  let st := s.states p
  if st.type ≠ .lock then some .badStateid
  else if stateidSeqid < st.seqid then some .oldStateid
  else if lockSeqid ≠ st.seqid ∧ lockSeqid ≠ st.seqid + 1 then some .badSeqid
  else if st.pentry ≠ some e then some .badStateid
  else none

/-- The end of `nfs4_op_lock` for a lock owner that has a lock: the state gets a new seqid, its
range stays as it is. -/
def lockLockOwner (s : Server) (e : ℕ) (stateidSeqid : UInt32) (stateidOther : Other)
    (lockSeqid : UInt32) : Option (LockRes × Server) :=
  match cacheInodeGetState s stateidOther with
  | none => some ({ status := .staleStateid }, s)
  | some p => match lockLockOwnerChecks s e p stateidSeqid lockSeqid with
    | some err => some ({ status := err }, s)
    | none =>
      let s := s.setState p fun st => { st with seqid := st.seqid + 1 }
      let res : LockRes :=
        { status := .ok, stateid := some ((s.states p).seqid, (s.states p).stateidOther) }
      match (s.owners (s.states p).powner).relatedOwner with
      | some o => some (res, s.incrSeqid o)
      | none => some (res, s)

/-- `pstate_exists`, or the status of the failed look-up. The stateid of all zeros passes. -/
def lockExists (s : Server) : Locker → Except NfsStat (Option ℕ)
  | .openOwner .. => .ok none
  | .lockOwner stateidSeqid stateidOther _ => match cacheInodeGetState s stateidOther with
    | some p => .ok (some p)
    | none => if stateidOther = ⟨0, 0, 0⟩ ∧ stateidSeqid = 0 then .ok none else .error .staleStateid

/-- `pstate_open`. -/
def lockOpen (s : Server) : Locker → Option ℕ
  | .openOwner _ _ stateidOther _ _ => cacheInodeGetState s stateidOther
  | .lockOwner .. => none

/-- The answer to the search for a conflict; `next` follows a search that finds none. -/
def lockAnswer (s : Server) (exists? : Option ℕ) (scan : LockScan)
    (next : Option (LockRes × Server)) : Option (LockRes × Server) :=
  match scan with
  | .error => some ({ status := .inval }, s)
  | .denied p => match (s.states p).data with
    | .share .. => none
    | .lock type offset length _ =>
      some ({ status := .denied
              denied := some (offset, length, type, (s.owners (s.states p).powner).name.ownerVal) },
        incrExists s exists?)
  | .openmode => some ({ status := .openmode }, incrExists s exists?)
  | .clear => next

/-- `nfs4_op_lock` on the current entry `e`. An entry that is not a file would be read as one. -/
def nfs4OpLock (s : Server) (e : ℕ) (args : LockArgs) (env : LockEnv) :
    Option (LockRes × Server) :=
  match env.filehandle with
  | some err => some ({ status := err }, s)
  | none => match rangeChecks args.offset args.length with
    | some err => some ({ status := err }, s)
    | none => match lockExists s args.locker with
      | .error err => some ({ status := err }, s)
      | .ok exists? => match args.locker, lockOpen s args.locker with
        | .openOwner .., none => some ({ status := .staleStateid }, s)
        | locker, open? => (s.entries e).bind fun entry =>
          if entry.type ≠ .regular then none
          else (lockLoop s e entry args exists? (s.allocs + 1) none).bind fun scan =>
            lockAnswer s exists? scan <| match locker, open? with
              | .openOwner openSeqid stateidSeqid stateidOther lockSeqid name, some pstateOpen =>
                lockOpenOwner s e entry pstateOpen args openSeqid stateidSeqid stateidOther
                  lockSeqid name env
              | .openOwner .., none => none
              | .lockOwner stateidSeqid stateidOther lockSeqid, _ =>
                lockLockOwner s e stateidSeqid stateidOther lockSeqid

/-- `LOCKU4args`. -/
structure LockuArgs where
  seqid : UInt32
  stateidSeqid : UInt32
  stateidOther : Other
  offset : UInt64
  length : UInt64

/-- The tests on the seqids of the owner and of the state. -/
def lockuChecks (s : Server) (p : ℕ) (args : LockuArgs) : Option NfsStat :=
  let st := s.states p
  let seqid := (s.owners st.powner).seqid
  if args.seqid ≠ seqid ∧ args.seqid ≠ seqid + 1 then some .badSeqid
  else if args.stateidSeqid ≠ st.seqid ∧ args.stateidSeqid ≠ st.seqid + 1 then some .badSeqid
  else none

/-- `if(lockheld > 0) lockheld -= 1;` -/
def decrHeld (held : UInt32) : UInt32 := if held > 0 then held - 1 else held

/-- `nfs4_op_locku` on the current entry `e`. The range is checked and not used. A stateid of an
open has no `popenstate`. -/
def nfs4OpLocku (s : Server) (e : ℕ) (args : LockuArgs) (filehandle : Option NfsStat)
    (clientKnown : Bool) : Option (NfsStat × Server) :=
  match filehandle with
  | some err => some (err, s)
  | none => match rangeChecks args.offset args.length with
    | some err => some (err, s)
    | none => (s.entries e).bind fun entry =>
      match nfs4CheckStateid s args.stateidOther entry.type clientKnown with
      | .ok => match cacheInodeGetState s args.stateidOther with
        -- no state: the range is answered, not the stateid
        | none => some (.lockRange, s)
        | some p => match lockuChecks s p args with
          | some err => some (err, s)
          | none => match (s.states p).data with
            | .share .. => none
            | .lock _ _ _ popenstate =>
              -- the open state counts one lock less
              ((s.states popenstate).data.setLockheld decrHeld).bind fun data =>
                let s := s.setState popenstate fun st => { st with seqid := st.seqid + 1, data := data }
                let s := s.setState p fun st => { st with seqid := st.seqid + 1 }
                let s := s.incrSeqid (s.states p).powner
                (s.owners (s.states p).powner).relatedOwner.bind fun o =>
                  let s := s.incrSeqid o
                  (cacheInodeDelState s p).map fun
                    | (.success, s) => (.ok, s)
                    | (status, s) => (.errno status, s)
      | err => some (err, s)

end Ganesha.Nfs4
