import Ganesha.CacheInode.Common
import Ganesha.Library.LockTrace

/-!
# Lock steps of the operations on entries

What the functions of `Cache_inode` do with the locks of entries (`P_r`, `V_r`, `P_w`, `V_w`,
`rw_lock_downgrade`, `rw_lock_destroy`) and with the pool of entries, built without MFSL, the proxy
and pNFS. The entries and the pointers between them are in `Cache`; what the FSAL, the LRU lists, the
hash table, the allocators and the data cache answer is in an argument of each function.
-/

namespace Ganesha.CacheInode.LockSteps
open Library.LockTrace

/-- What an element of a `parent_list` says. -/
structure Parent where
  parent : Option ℕ
  subdirpos : ℕ

/-- The entries; `pdirCont` are the DIR_CONTINUE extents behind a DIR_BEGINNING, in their order. An
extent is in no directory, and no directory is in itself. -/
structure Cache where
  type : ℕ → FileType
  pdirBegin : ℕ → ℕ
  pdirCont : ℕ → List ℕ
  parentList : ℕ → List Parent
  pentryContent : ℕ → Bool
  begin_type : ∀ e, type e = .dirContinue → type (pdirBegin e) = .dirBeginning
  nodup_chain : ∀ e, (e :: pdirCont e).Nodup
  extent_parents : ∀ e, ∀ x ∈ pdirCont e, parentList x = []
  parent_not_mem : ∀ e, ∀ q ∈ parentList e, ∀ p ∈ q.parent, p ∉ e :: pdirCont e

/-- A directory, or an extent of one. -/
def FileType.IsDir (t : FileType) : Prop := t = .dirBeginning ∨ t = .dirContinue

instance (t : FileType) : Decidable (FileType.IsDir t) := inferInstanceAs (Decidable (_ ∨ _))

/-- The types for which `cache_inode_get_fsal_handle` finds a handle. -/
def FileType.hasHandle : FileType → Bool
  | .regularFile | .symbolicLink | .dirBeginning | .dirContinue => true
  | .socketFile | .fifoFile | .blockFile | .characterFile => true
  | .unassigned | .fsJunction | .recycled => false

/-- The types of `special_obj`. -/
def FileType.isSpecial : FileType → Bool
  | .socketFile | .fifoFile | .blockFile | .characterFile => true
  | _ => false

variable (c : Cache)

/-- `P_r`, `P_w`, `V_r` and `V_w`. -/
def pr (e : ℕ) : Locking ℕ Unit := .step (.acquire e .read)
def pw (e : ℕ) : Locking ℕ Unit := .step (.acquire e .write)
def vr (e : ℕ) : Locking ℕ Unit := .step (.free e .read)
def vw (e : ℕ) : Locking ℕ Unit := .step (.free e .write)

/-- A look at the DIR_BEGINNING of an extent, under its lock. -/
def lookAtBegin (e : ℕ) : Locking ℕ Unit := do
  pr (c.pdirBegin e)
  vr (c.pdirBegin e)

/-- `cache_inode_get_attributes` and `cache_inode_set_attributes`. -/
def attributes (e : ℕ) : Locking ℕ Unit :=
  if c.type e = .dirContinue then lookAtBegin c e else pure ()

/-! ## Entries go back to the pool -/

/-- `cache_inode_invalidate_related_dirent`, on the elements of the `parent_list`. -/
def invalidateRelatedDirent : List Parent → Locking ℕ Unit
  | [] => pure ()
  | ⟨none, _⟩ :: parents => invalidateRelatedDirent parents
  | ⟨some p, subdirpos⟩ :: parents =>
    if FileType.IsDir (c.type p) ∧ subdirpos ≤ 16 then do
      pw p
      vw p
      invalidateRelatedDirent parents
    else do
      pw p
      vw p

/-- Whether `LRU_invalidate`, the making of the key and `HashTable_Del` succeed for an entry. -/
structure KillEnv where
  lruInvalidate : ℕ → Bool
  key : ℕ → Bool
  hashDel : ℕ → Bool

/-- `cache_inode_kill_entry` after its tests; `chain` is done on the way. -/
def killWith (env : KillEnv) (chain : Locking ℕ Unit) (e : ℕ) : Locking ℕ Status :=
  if ¬ FileType.hasHandle (c.type e) then pure .badType
  else if ¬ env.lruInvalidate e then pure .lruError
  else if ¬ env.key e then pure .notFound
  else do
    chain
    invalidateRelatedDirent c (c.parentList e)
    if ¬ env.hashDel e then pure .notFound
    else do
      .step (.destroy e)
      .step (.retire e)
      pure .success

/-- The extents of a directory are killed. -/
def killChain (env : KillEnv) : List ℕ → Locking ℕ Unit
  | [] => pure ()
  | e :: es => do
    let _ ← killWith c env (pure ()) e
    killChain env es

/-- `cache_inode_kill_entry`. -/
def killEntry (env : KillEnv) (e : ℕ) : Locking ℕ Status :=
  if c.type e = .dirBeginning then killWith c env (killChain c env (c.pdirCont e)) e
  else killWith c env (pure ()) e

/-- The callers that got `err` from the FSAL for the entry `e`: a stale entry is killed. -/
def fsalFailure (env : KillEnv) (e : ℕ) (err : FsalError) : Locking ℕ Status :=
  if err = .stale then do
    let _ ← killEntry c env e
    pure .fsalEstale
  else pure (errorConvert err)

/-- What happens in `cache_inode_valid`: a function of the LRU list fails and the entry is put in the
pool, or something else fails. -/
inductive ValidAnswer
  | ok
  | lruFailed
  | failed (status : Status)
  deriving DecidableEq

/-- The status of `cache_inode_valid`. -/
def ValidAnswer.status : ValidAnswer → Status
  | .ok => .success
  | .lruFailed => .lruError
  | .failed status => status

/-- The entry that `cache_inode_valid` works on. -/
def validTarget (e : ℕ) : ℕ :=
  if c.type e = .dirContinue then c.pdirBegin e else e

/-- `cache_inode_valid`. -/
def valid (e : ℕ) : ValidAnswer → Locking ℕ Status
  | .ok => pure .success
  | .lruFailed => do
    .step (.retire (validTarget c e))
    pure .lruError
  | .failed status => pure status

/-! ## Functions that others call -/

/-- What happens in `cache_inode_access_sw`. -/
structure AccessEnv where
  fOk : Bool
  useTestAccess : Bool
  fsal : Option FsalError
  kill : KillEnv
  valid : ValidAnswer

/-- `cache_inode_access_sw`. A stale entry is killed with its lock taken. -/
def accessSw (useMutex : Bool) (e : ℕ) (env : AccessEnv) : Locking ℕ Status := do
  .doIf useMutex (pr e)
  if env.fOk then do
    let _ ← valid c e env.valid
    .doIf useMutex (vr e)
    pure .success
  else do
    attributes c e
    if ¬ env.useTestAccess ∧ ¬ FileType.hasHandle (c.type e) then do
      .doIf useMutex (vr e)
      pure .badType
    else do
      .doIf env.useTestAccess (attributes c e)
      match env.fsal with
      | some err =>
        if err = .stale then fsalFailure c env.kill e err
        else do
          .doIf useMutex (vr e)
          pure (errorConvert err)
      | none => do
        let _ ← valid c e env.valid
        .doIf useMutex (vr e)
        pure .success

/-- What happens in `cache_inode_renew_entry`: which parts of it are due, and what the FSAL answers. -/
structure RenewEnv where
  mtimeChecked : Bool
  direntExpired : Bool
  attrExpired : Bool
  linkExpired : Bool
  getattrs : Option FsalError
  getattrsExpired : Option FsalError
  readlink : Option FsalError
  pathcpy : Option FsalError
  kill : KillEnv

/-- The renewal of a symbolic link. -/
def renewLink (e : ℕ) (env : RenewEnv) : Locking ℕ Status :=
  if c.type e = .symbolicLink ∧ env.linkExpired then
    match env.readlink with
    | some err => fsalFailure c env.kill e err
    | none =>
      match env.pathcpy with
      | some err => pure (errorConvert err)
      | none => pure .success
  else pure .success

/-- The renewal of the attributes, when it is due. -/
def renewAttr (due : Bool) (e : ℕ) (env : RenewEnv) (rest : Locking ℕ Status) : Locking ℕ Status :=
  if due then
    match env.getattrsExpired with
    | some err => fsalFailure c env.kill e err
    | none => rest
  else rest

/-- `cache_inode_renew_entry`. -/
def renewEntry (e : ℕ) (env : RenewEnv) : Locking ℕ Status :=
  if c.type e = .regularFile ∧ c.pentryContent e then pure .success
  else if c.type e = .dirBeginning then
    if env.mtimeChecked then
      match env.getattrs with
      | some err => fsalFailure c env.kill e err
      -- the expiration of the dirents does not ask for the attributes again
      | none => renewAttr c (¬ env.direntExpired ∧ env.attrExpired) e env (pure .success)
    else renewAttr c (env.direntExpired ∨ env.attrExpired) e env (pure .success)
  else if c.type e = .dirContinue then pure .success
  else renewAttr c env.attrExpired e env (renewLink c e env)

/-- What happens in `cache_inode_new_entry`: it fails, it finds an entry that is there, it gets an
entry from the pool and puts it back, or it adds one. -/
inductive NewEntryAnswer
  | failed (status : Status)
  | existing (e : ℕ)
  | dropped (e : ℕ) (status : Status)
  | added (e : ℕ) (valid : ValidAnswer)

/-- `cache_inode_new_entry`; `target` is the entry that is put in the pool when the new one cannot be
validated: itself, or the DIR_BEGINNING of a new extent. -/
def newEntry (target : ℕ → ℕ) : NewEntryAnswer → Locking ℕ (Option ℕ × Status)
  | .failed status => pure (none, status)
  | .existing e => pure (some e, .entryExists)
  | .dropped e status => do
    .step (.renew e)
    .step (.retire e)
    pure (none, status)
  | .added e answer => do
    .step (.renew e)
    pw e
    match answer with
    | .lruFailed => .step (.retire (target e))
    | _ => pure ()
    vw e
    pure (some e, .success)

/-- What happens in `cache_inode_add_cached_dirent`: whether it needs a new extent, and whether the
rest succeeds. -/
structure AddEnv where
  newCont : Option NewEntryAnswer
  getPrealloc : Bool
  namecpy : Option FsalError

/-- `cache_inode_add_cached_dirent` after it has an extent. -/
def addEnd (env : AddEnv) : Status :=
  if ¬ env.getPrealloc then .mallocError
  else if env.namecpy.isSome then .fsalError
  else .success

/-- `cache_inode_add_cached_dirent`. -/
def addCachedDirent (p : ℕ) (env : AddEnv) : Locking ℕ Status :=
  if ¬ FileType.IsDir (c.type p) then pure .badType
  else
    match env.newCont with
    | none => pure (addEnd env)
    | some answer => do
      let r ← newEntry (fun _ => validTarget c p) answer
      if r.1.isNone then pure r.2 else pure (addEnd env)

/-- What happens in `cache_inode_get`. -/
inductive GetAnswer
  | failed (status : Status)
  | hit (e : ℕ) (valid : ValidAnswer)
  | miss (answer : NewEntryAnswer) (valid : ValidAnswer)

/-- The validation in `cache_inode_get`. After a failure the lock of the entry NULL is released. -/
def getValid (e : ℕ) (answer : ValidAnswer) : Locking ℕ (Option ℕ × Status) := do
  pw e
  let status ← valid c e answer
  if status ≠ .success then do
    vw e
    .step .fault
    pure (none, status)
  else do
    vw e
    pure (some e, .success)

def cacheInodeGet : GetAnswer → Locking ℕ (Option ℕ × Status)
  | .failed status => pure (none, status)
  | .hit e answer => do
    attributes c e
    getValid c e answer
  | .miss new answer => do
    let r ← newEntry id new
    match r.1 with
    | none => pure (none, r.2)
    | some e => getValid c e answer

/-- What happens in `cache_inode_lookupp_sw`. -/
structure LookuppEnv where
  renew : RenewEnv
  fsalLookup : Option FsalError
  kill : KillEnv
  get : GetAnswer
  valid : ValidAnswer

/-- The cached parent of a directory. -/
def cachedParent (e : ℕ) : Option ℕ :=
  (c.parentList e).head?.bind Parent.parent

/-- The parent that `cache_inode_lookupp_sw` returns is validated. -/
def lookuppEnd (useMutex : Bool) (e parent : ℕ) (answer : ValidAnswer) :
    Locking ℕ (Option ℕ × Status) := do
  let status ← valid c parent answer
  .doIf useMutex (vr e)
  pure (some parent, status)

/-- `cache_inode_lookupp_sw`. When the entry cannot be renewed its lock is not released. -/
def lookuppSw (useMutex : Bool) (e : ℕ) (env : LookuppEnv) : Locking ℕ (Option ℕ × Status) := do
  .doIf useMutex (pr e)
  if c.type e ≠ .dirBeginning then do
    .doIf useMutex (vr e)
    pure (none, .badType)
  else do
    let status ← renewEntry c e env.renew
    if status ≠ .success then pure (none, status)
    else
      match cachedParent c e with
      | some parent => lookuppEnd c useMutex e parent env.valid
      | none =>
        match env.fsalLookup with
        | some err => do
          .doIf useMutex (vr e)
          let status ← fsalFailure c env.kill e err
          pure (none, status)
        | none => do
          let r ← cacheInodeGet c env.get
          match r.1 with
          | none => do
            .doIf useMutex (vr e)
            pure (none, r.2)
          | some parent => lookuppEnd c useMutex e parent env.valid

/-- What is asked for in `cache_inode_lookup_sw`. -/
inductive LookupName
  | dot
  | dotDot
  | other
  deriving DecidableEq

/-- What happens in `cache_inode_lookup_sw`; `cached` is the entry that the scan of the dirents
finds. -/
structure LookupEnv where
  name : LookupName
  lookupp : LookuppEnv
  access : AccessEnv
  cached : Option ℕ
  fsalLookup : Option FsalError
  readlink : Option FsalError
  kill : KillEnv
  new : NewEntryAnswer
  add : AddEnv
  valid : ValidAnswer

/-- The end of `cache_inode_lookup_sw`, with the entry that was found. -/
def lookupEnd (useMutex : Bool) (p : ℕ) (found : Option ℕ) (env : LookupEnv) :
    Locking ℕ (Option ℕ × Status) := do
  match found with
  | none => .step .fault
  | some e => attributes c e
  let status ← valid c p env.valid
  .doIf useMutex (vr p)
  pure (found, status)

/-- A name that is not among the cached dirents is looked up in the FSAL; `readlink` fails for a
symbolic link only. -/
def lookupMiss (useMutex : Bool) (p : ℕ) (env : LookupEnv) : Locking ℕ (Option ℕ × Status) := do
  if c.type p = .dirContinue ∧ useMutex then lookAtBegin c p else pure ()
  match env.fsalLookup <|> env.readlink with
  | some err => do
    .doIf useMutex (vr p)
    let status ← fsalFailure c env.kill p err
    pure (none, status)
  | none => do
    let r ← newEntry id env.new
    match r.1 with
    | none => do
      .doIf useMutex (vr p)
      pure (none, r.2)
    | some e => do
      let status ← addCachedDirent c p env.add
      if status ≠ .success ∧ status ≠ .entryExists then do
        .doIf useMutex (vr p)
        pure (none, status)
      else lookupEnd c useMutex p (some e) env

/-- `cache_inode_lookup_sw`. -/
def lookupSw (useMutex : Bool) (p : ℕ) (env : LookupEnv) : Locking ℕ (Option ℕ × Status) := do
  .doIf useMutex (pr p)
  if ¬ FileType.IsDir (c.type p) then do
    .doIf useMutex (vr p)
    pure (none, .notADirectory)
  else
    match env.name with
    | .dot => lookupEnd c useMutex p (some p) env
    | .dotDot => do
      let r ← lookuppSw c false p env.lookupp
      lookupEnd c useMutex p r.1 env
    | .other => do
      let status ← accessSw c false p env.access
      if status ≠ .success then do
        .doIf useMutex (vr p)
        pure (none, status)
      else
        match env.cached with
        | some e => lookupEnd c useMutex p (some e) env
        | none => lookupMiss c useMutex p env

/-! ## Operations on a directory -/

/-- What happens in `cache_inode_link`; the attributes are asked for when one of the entries is
stale. -/
structure LinkEnv where
  access : AccessEnv
  lookup : LookupEnv
  fsalLink : Option FsalError
  getattrsSrc : Option FsalError
  getattrsDest : Option FsalError
  killSrc : KillEnv
  killDest : KillEnv
  add : AddEnv
  valid : ValidAnswer

/-- An entry is killed if `FSAL_getattrs` gives `ERR_FSAL_ACCESS`. -/
def killIfAccess (answer : Option FsalError) (env : KillEnv) (e : ℕ) : Locking ℕ Unit :=
  if answer = some .access then do
    let _ ← killEntry c env e
    pure ()
  else pure ()

/-- The two entries of an operation that found a stale handle, one after the other. -/
def killStale (answer answer' : Option FsalError) (env env' : KillEnv) (e e' : ℕ) :
    Locking ℕ Unit := do
  killIfAccess c answer env e
  killIfAccess c answer' env' e'

/-- `cache_inode_link` after both locks are taken. A source that has no handle leaves them taken. -/
def linkLocked (src dest : ℕ) (env : LinkEnv) (status : Status) : Locking ℕ Status := do
  attributes c src
  if ¬ FileType.hasHandle (c.type src) then pure .badType
  else do
    attributes c dest
    match env.fsalLink with
    | some err => do
      vw dest
      vw src
      if err = .stale then
        killStale c env.getattrsSrc env.getattrsDest env.killSrc env.killDest src dest
      else pure ()
      pure .fsalEstale
    | none => do
      let added ← addCachedDirent c dest env.add
      if added ≠ .success then do
        vw dest
        vw src
        pure status
      else do
        let status ← valid c src env.valid
        vw dest
        vw src
        pure status

/-- `cache_inode_link`. -/
def link (src dest : ℕ) (env : LinkEnv) : Locking ℕ Status :=
  if ¬ FileType.IsDir (c.type dest) then pure .badType
  else do
    let status ← accessSw c true dest env.access
    if status ≠ .success then pure status
    else do
      let r ← lookupSw c true dest env.lookup
      if r.1.isSome then pure .entryExists
      else if FileType.IsDir (c.type src) then pure .badType
      else do
        pw src
        pw dest
        linkLocked c src dest env r.2

/-- What happens in `cache_inode_remove_sw`: `readdirYes` and `dirEmpty` are about the directory to
remove, `attrIsDir` and `manyLinks` about its attributes, `removeCached` is the status of
`cache_inode_remove_cached_dirent`, and `numlinks` is what is left after a link is gone. -/
structure RemoveEnv where
  access : AccessEnv
  lookup : LookupEnv
  readdirYes : Bool
  dirEmpty : Bool
  unlink : Option FsalError
  kill : KillEnv
  attrIsDir : Bool
  removeCached : Status
  manyLinks : Bool
  numlinks : ℕ
  cleanInternal : ℕ → Option Status
  valid : ValidAnswer

/-- The DIR_CONTINUE extents of the removed directory go back to the pool; the first error ends the
loop. -/
def cleanChain (cleanInternal : ℕ → Option Status) : List ℕ → Locking ℕ (Option Status)
  | [] => pure none
  | e :: es =>
    match cleanInternal e with
    | some status => pure (some status)
    | none => do
      .step (.destroy e)
      .step (.retire e)
      cleanChain cleanInternal es

/-- The loop that cleans the removed entry and its extents. -/
def cleanEntries (e : ℕ) (cleanInternal : ℕ → Option Status) : Locking ℕ (Option Status) :=
  match cleanInternal e with
  | some status => pure (some status)
  | none => cleanChain cleanInternal (if c.type e = .dirBeginning then c.pdirCont e else [])

/-- Both locks of `cache_inode_remove_sw` are released. -/
def removeUnlock (useMutex : Bool) (p e : ℕ) : Locking ℕ Unit := do
  .doIf useMutex (vw e)
  .doIf useMutex (vw p)

/-- The end of `cache_inode_remove_sw`. -/
def removeEnd (useMutex : Bool) (p e : ℕ) (linksLeft : Bool) (env : RemoveEnv) : Locking ℕ Unit := do
  let _ ← valid c p env.valid
  .doIf (useMutex && linksLeft) (vw e)
  .doIf useMutex (vw p)

/-- `cache_inode_remove_sw` after the object was removed from the FSAL. -/
def removeUnlinked (useMutex : Bool) (p e : ℕ) (env : RemoveEnv) : Locking ℕ Status := do
  .doIf useMutex (attributes c p)
  if ¬ env.attrIsDir ∧ env.manyLinks ∧ ¬ (c.type e = .symbolicLink ∨ c.type e = .regularFile ∨
      FileType.isSpecial (c.type e)) then do
    removeUnlock useMutex p e
    pure .badType
  else if ¬ env.attrIsDir ∧ env.manyLinks ∧ env.numlinks ≠ 0 then do
    removeEnd c useMutex p e true env
    pure env.removeCached
  else do
    let cleaned ← cleanEntries c e env.cleanInternal
    match cleaned with
    | some error => do
      .doIf useMutex (vw p)
      .doIf useMutex (vw e)
      pure error
    | none => do
      .doIf useMutex (vw e)
      .step (.destroy e)
      .step (.retire e)
      removeEnd c useMutex p e false env
      pure env.removeCached

/-- `cache_inode_remove_sw` after both locks are taken. -/
def removeLocked (useMutex : Bool) (p e : ℕ) (env : RemoveEnv) (status : Status) :
    Locking ℕ Status := do
  if ¬ FileType.IsDir (c.type p) then do
    removeUnlock useMutex p e
    pure .badType
  else if c.type e = .dirContinue then do
    removeUnlock useMutex p e
    pure .dirNotEmpty
  else if c.type e = .dirBeginning ∧ env.readdirYes ∧ ¬ env.dirEmpty then do
    removeUnlock useMutex p e
    pure .dirNotEmpty
  else do
    .doIf useMutex (attributes c p)
    if status ≠ .success then do
      removeUnlock useMutex p e
      pure status
    else
      match env.unlink with
      | some err => do
        let _ ← fsalFailure c env.kill p err
        removeUnlock useMutex p e
        pure (errorConvert err)
      | none => removeUnlinked c useMutex p e env

/-- `cache_inode_remove_sw`. -/
def removeSw (useMutex : Bool) (p : ℕ) (env : RemoveEnv) : Locking ℕ Status := do
  .doIf useMutex (pw p)
  let status ← accessSw c false p env.access
  if status ≠ .success then do
    .doIf useMutex (vw p)
    pure status
  else do
    let r ← lookupSw c false p env.lookup
    match r.1 with
    | none => do
      .doIf useMutex (vw p)
      pure r.2
    | some e => do
      .doIf useMutex (pw e)
      removeLocked c useMutex p e env r.2

/-- What happens in `cache_inode_rename`. -/
structure RenameEnv where
  lookupSrc : LookupEnv
  lookupDest : LookupEnv
  validSelf : ValidAnswer
  dirEmpty : Bool
  remove : RemoveEnv
  fsalRename : Option FsalError
  getattrsSrc : Option FsalError
  getattrsDest : Option FsalError
  killSrc : KillEnv
  killDest : KillEnv
  renameCached : Status
  add : AddEnv
  removeCached : Status
  validSrc : ValidAnswer
  validDest : ValidAnswer

/-- The locks of the two directories are taken in the order of their addresses. -/
def renameLock (s d : ℕ) : Locking ℕ Unit :=
  if s = d then pw s
  else if s < d then do
    pw s
    pw d
  else do
    pw d
    pw s

/-- The locks of the two directories are released. -/
def renameUnlock (s d : ℕ) : Locking ℕ Unit := do
  vw s
  if s ≠ d then vw d else pure ()

/-- `cache_inode_rename` after `FSAL_rename`. -/
def renameCache (s d : ℕ) (env : RenameEnv) : Locking ℕ Status := do
  let moved ←
    if s = d then pure env.renameCached
    else do
      let added ← addCachedDirent c d env.add
      if added ≠ .success then pure added else pure env.removeCached
  if moved ≠ .success then do
    renameUnlock s d
    pure moved
  else do
    let status ← valid c s env.validSrc
    if status ≠ .success then do
      renameUnlock s d
      pure status
    else do
      let status ← valid c d env.validDest
      renameUnlock s d
      pure status

/-- `cache_inode_rename` after the name was made free in the destination directory. -/
def renameMove (s d : ℕ) (env : RenameEnv) : Locking ℕ Status := do
  attributes c s
  attributes c d
  match env.fsalRename with
  | some err => do
    renameUnlock s d
    if err = .stale then do
      killStale c env.getattrsSrc env.getattrsDest env.killSrc env.killDest s d
      pure .fsalEstale
    else pure (errorConvert err)
  | none => renameCache c s d env

/-- `cache_inode_rename` when the new name is there. -/
def renameOver (s d old new : ℕ) (env : RenameEnv) : Locking ℕ Status :=
  if c.type new = .dirBeginning ∧ c.type old ≠ .dirBeginning then do
    renameUnlock s d
    pure .isADirectory
  else if c.type new ≠ .dirBeginning ∧ c.type old = .dirBeginning then do
    renameUnlock s d
    pure .notADirectory
  else if new = old then do
    let status ← valid c d env.validSelf
    renameUnlock s d
    pure status
  else if c.type new = .dirBeginning ∧ ¬ env.dirEmpty then do
    renameUnlock s d
    pure .dirNotEmpty
  else do
    let status ← removeSw c false d env.remove
    if status ≠ .success then do
      renameUnlock s d
      pure status
    else renameMove c s d env

/-- `cache_inode_rename`. -/
def rename (s d : ℕ) (env : RenameEnv) : Locking ℕ Status :=
  if ¬ FileType.IsDir (c.type s) ∨ ¬ FileType.IsDir (c.type d) then pure .badType
  else do
    renameLock s d
    let r ← lookupSw c false s env.lookupSrc
    match r.1 with
    | none => do
      renameUnlock s d
      pure (if r.2 = .fsalEstale then .fsalEstale else .notFound)
    | some old => do
      let r' ← lookupSw c false d env.lookupDest
      match r'.1 with
      | some new => renameOver c s d old new env
      | none =>
        if r'.2 = .fsalEstale then do
          renameUnlock s d
          pure .fsalEstale
        else renameMove c s d env

/-! ## Entries that are killed -/

/-- The tests at the begin of `cache_inode_kill_entry` succeed. -/
def killStarts (env : KillEnv) (e : ℕ) : Bool :=
  FileType.hasHandle (c.type e) && env.lruInvalidate e && env.key e

/-- The entry itself, if `cache_inode_kill_entry` gets to its end. -/
def killedSelf (env : KillEnv) (e : ℕ) : List ℕ :=
  if killStarts c env e && env.hashDel e then [e] else []

/-- The extents of a directory that are killed with it. -/
def killedExtents (env : KillEnv) (e : ℕ) : List ℕ :=
  if c.type e = .dirBeginning ∧ killStarts c env e then
    (c.pdirCont e).flatMap (killedSelf c env)
  else []

/-- What `cache_inode_kill_entry` puts in the pool. -/
def killed (env : KillEnv) (e : ℕ) : List ℕ :=
  killedExtents c env e ++ killedSelf c env e

end Ganesha.CacheInode.LockSteps
