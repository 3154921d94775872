import Ganesha.CacheInode.Common
import Ganesha.HashTable.Common

/-!
# The pools of the inode cache

`cache_inode_new_entry` and `cache_inode_kill_entry` of `Cache_inode/cache_inode_misc.c`,
`cache_inode_clean_internal` and the end of `cache_inode_remove_sw` of
`Cache_inode/cache_inode_remove.c`, as far as they take objects from the pools, give them back and
change the hash table. Entries, directory data and parent links are pointers. What
`GET_PREALLOC` and `RELEASE_PREALLOC` do is kept in a log. A call gives `none` when it does not end,
reads a variable that has no value or dereferences `NULL`.
-/

namespace Ganesha.CacheInode.Pools
open Ganesha.Hash (getPrealloc releasePrealloc)

/-- `cache_inode_fsal_data_t`. -/
structure FsalData (H : Type) where
  handle : H
  cookie : UInt32
  deriving DecidableEq

/-- What a key points to: the `cache_inode_fsal_data_t` of the caller, or one of `pool_key`. -/
inductive KeyPtr
  | argument
  | pooled (p : ℕ)
  deriving DecidableEq

/-- The objects of the pools. -/
inductive Obj
  | entry (p : ℕ)
  | dirData (p : ℕ)
  | key (p : KeyPtr)
  | parent (p : ℕ)
  deriving DecidableEq

/-- `GET_PREALLOC` or `RELEASE_PREALLOC` of an object. -/
inductive Event
  | get (o : Obj)
  | release (o : Obj)
  deriving DecidableEq

/-- `cache_entry_t`, as far as it is read here. -/
structure Entry (H : Type) where
  type : FileType
  handle : H
  pdirData : ℕ
  pdirBegin : Option ℕ
  pdirCont : Option ℕ
  dirContPos : UInt32
  parentList : List ℕ

/-- A key of the hash table, the pointer to it, and the entry. -/
structure Record (H : Type) where
  data : FsalData H
  key : KeyPtr
  entry : ℕ

/-- The pools of the client, what the allocator is going to answer, the entries and the hash
table. -/
structure World (H : Type) where
  nbPrealloc : UInt32
  nbPreDirData : UInt32
  poolEntry : List ℕ
  entryArrays : ℕ → List ℕ
  poolDirData : List ℕ
  dirDataArrays : ℕ → List ℕ
  poolKey : List KeyPtr
  keyArrays : ℕ → List KeyPtr
  poolParent : List ℕ
  heap : ℕ → Entry H
  ht : List (Record H)
  log : List Event

variable {H : Type}

/-! ## The pools -/

/-- `GET_PREALLOC` on `pool_entry`. -/
def World.getEntry (w : World H) : Option ℕ × World H :=
  let (p, pool, arrays) := getPrealloc w.nbPrealloc w.poolEntry w.entryArrays
  (p, { w with poolEntry := pool, entryArrays := arrays,
               log := w.log ++ (p.map (.get ∘ .entry)).toList })

/-- `GET_PREALLOC` on `pool_dir_data`. -/
def World.getDirData (w : World H) : Option ℕ × World H :=
  let (p, pool, arrays) := getPrealloc w.nbPreDirData w.poolDirData w.dirDataArrays
  (p, { w with poolDirData := pool, dirDataArrays := arrays,
               log := w.log ++ (p.map (.get ∘ .dirData)).toList })

/-- `GET_PREALLOC` on `pool_key`. -/
def World.getKey (w : World H) : Option KeyPtr × World H :=
  let (p, pool, arrays) := getPrealloc w.nbPrealloc w.poolKey w.keyArrays
  (p, { w with poolKey := pool, keyArrays := arrays,
               log := w.log ++ (p.map (.get ∘ .key)).toList })

/-- `RELEASE_PREALLOC` on `pool_entry`. -/
def World.releaseEntry (w : World H) (p : ℕ) : World H :=
  { w with poolEntry := releasePrealloc p w.poolEntry, log := w.log ++ [.release (.entry p)] }

/-- `RELEASE_PREALLOC` on `pool_dir_data`. -/
def World.releaseDirData (w : World H) (p : ℕ) : World H :=
  { w with poolDirData := releasePrealloc p w.poolDirData, log := w.log ++ [.release (.dirData p)] }

/-- `cache_inode_release_fsaldata_key`. -/
def World.releaseFsaldataKey (w : World H) (p : KeyPtr) : World H :=
  { w with poolKey := releasePrealloc p w.poolKey, log := w.log ++ [.release (.key p)] }

/-- `RELEASE_PREALLOC` on `pool_parent`. -/
def World.releaseParent (w : World H) (p : ℕ) : World H :=
  { w with poolParent := releasePrealloc p w.poolParent, log := w.log ++ [.release (.parent p)] }

/-! ## The keys and the hash table -/

/-- `cache_inode_fsaldata_2_key`; without a client the key is what the caller has. -/
def World.cacheInodeFsaldata2Key (w : World H) (pclient : Bool) : Option KeyPtr × World H :=
  if pclient then w.getKey else (some .argument, w)

/-- A directory has `dir_data_t`. -/
def isDir (type : FileType) : Bool := type = .dirBeginning || type = .dirContinue

/-- `cache_inode_get_fsal_handle`, with the cookie that its callers put beside the handle. The
answer is `some none` for `CACHE_INODE_BAD_TYPE`, and `none` when `pdir_begin` is `NULL`. -/
def fsaldata (heap : ℕ → Entry H) (e : ℕ) : Option (Option (FsalData H)) :=
  match (heap e).type with
  | .regularFile | .symbolicLink | .dirBeginning | .socketFile | .fifoFile | .blockFile
  | .characterFile => some (some ⟨(heap e).handle, 0⟩)
  | .dirContinue => (heap e).pdirBegin.map fun b => some ⟨(heap b).handle, (heap e).dirContPos⟩
  | .unassigned | .fsJunction | .recycled => some none

section Table
variable [DecidableEq H]

def hashTableGet (ht : List (Record H)) (data : FsalData H) : Option (Record H) :=
  ht.find? fun r => r.data = data

/-- `HashTable_Del`; `none` for `HASHTABLE_ERROR_NO_SUCH_KEY`. -/
def World.hashTableDel (w : World H) (data : FsalData H) : Option (Record H × World H) :=
  (hashTableGet w.ht data).map fun r =>
    (r, { w with ht := w.ht.eraseP fun r => r.data = data })

/-! ## Removing entries -/

/-- The entries of the chain that begins at a `pdir_cont`. -/
def chain (heap : ℕ → Entry H) : ℕ → Option ℕ → Option (List ℕ)
  | _, none => some []
  | 0, some _ => none
  | fuel + 1, some c => (chain heap fuel (heap c).pdirCont).map (c :: ·)

/-- What both functions release of an entry, after its keys. -/
def World.releaseContents (w : World H) (e : ℕ) : World H :=
  let w := (w.heap e).parentList.foldl World.releaseParent w
  if isDir (w.heap e).type then w.releaseDirData (w.heap e).pdirData else w

/-- `cache_inode_kill_entry`. `LRU_invalidate` always answers `LRU_LIST_SUCCESS`; `pdir_cont` of a
`DIR_CONTINUE` is read before the entry is released, and no entry changes here. -/
def cacheInodeKillEntry : ℕ → ℕ → World H → Option (Status × World H)
  | 0, _, _ => none
  | fuel + 1, e, w =>
    match fsaldata w.heap e with
    | none => none
    | some none => some (.badType, w)
    | some (some data) =>
      match w.cacheInodeFsaldata2Key true with
      -- `key.pdata` has no value here, and is released
      | (none, _) => none
      | (some key, w) =>
        let conts := if (w.heap e).type = .dirBeginning then chain w.heap fuel (w.heap e).pdirCont
          else some []
        (conts.bind fun conts =>
            conts.foldlM (fun w c => (cacheInodeKillEntry fuel c w).map Prod.snd) w).map fun w =>
          match w.hashTableDel data with
          | none => (.notFound, w.releaseFsaldataKey key)
          | some (r, w) =>
            let w := (w.releaseFsaldataKey r.key).releaseFsaldataKey key
            (.success, (w.releaseContents e).releaseEntry e)

/-- `cache_inode_clean_internal`; the entry itself is left to the caller. -/
def cacheInodeCleanInternal (e : ℕ) (w : World H) : Option (Status × World H) :=
  match fsaldata w.heap e with
  | none => none
  | some none => some (.badType, w)
  | some (some data) =>
    match w.cacheInodeFsaldata2Key true with
    | (none, w) => some (.inconsistentEntry, w)
    | (some key, w) =>
      let w := match w.hashTableDel data with
        | none => w
        | some (r, w) => w.releaseFsaldataKey r.key
      some (.success, (w.releaseFsaldataKey key).releaseContents e)

/-- The loop of `cache_inode_remove_sw` that cleans the entry and its `DIR_CONTINUE` entries. -/
def removeLoop : ℕ → Option ℕ → World H → Option (Status × World H)
  | _, none, w => some (.success, w)
  | 0, some _, _ => none
  | fuel + 1, some e, w =>
    (cacheInodeCleanInternal e w).bind fun (status, w) =>
      if status ≠ .success then some (status, w)
      else match (w.heap e).type with
        | .dirBeginning => removeLoop fuel (w.heap e).pdirCont w
        | .dirContinue => removeLoop fuel (w.heap e).pdirCont (w.releaseEntry e)
        | _ => removeLoop fuel none w

/-- `cache_inode_remove_sw` once the object has no link left: the entry and its `DIR_CONTINUE`
entries are cleaned, and the entry goes back to its pool. -/
def removeEntry (fuel e : ℕ) (w : World H) : Option (Status × World H) :=
  (removeLoop fuel (some e) w).map fun (status, w) =>
    if status ≠ .success then (status, w) else (.success, w.releaseEntry e)

/-! ## Adding an entry -/

/-- The arguments of `cache_inode_new_entry`. -/
structure NewArgs (H : Type) where
  fsdata : FsalData H
  /-- `pfsal_attr` is not `NULL`. -/
  attr : Bool
  type : FileType
  entryDirPrev : ℕ

/-- What the calls of `cache_inode_new_entry` answer: `rw_lock_init`, `HashTable_Test_And_Set` and the
`LRU_new_entry` of `cache_inode_valid` succeed, and the errors of `FSAL_getattrs` and `FSAL_pathcpy`. -/
structure NewEnv where
  rwLockInit : Bool
  getattrs : Option FsalError
  pathcpy : Option FsalError
  testAndSet : Bool
  lruNewEntry : Bool

/-- Assign fields of an entry. -/
def World.modify (w : World H) (e : ℕ) (f : Entry H → Entry H) : World H :=
  { w with heap := Function.update w.heap e (f (w.heap e)) }

/-- `FSAL_getattrs` is called, and this is its error. -/
def attributesError (a : NewArgs H) (env : NewEnv) : Option FsalError :=
  if a.attr ∨ a.type = .dirContinue then none else env.getattrs

/-- The `switch` over the type, with the status of an entry that is given up. -/
def initObject (a : NewArgs H) (env : NewEnv) (e : ℕ) (w : World H) : Option Status × World H :=
  let w := w.modify e fun entry => { entry with type := a.type, parentList := [] }
  match a.type with
  | .regularFile | .socketFile | .fifoFile | .blockFile | .characterFile =>
    (none, w.modify e fun entry => { entry with handle := a.fsdata.handle })
  | .dirBeginning =>
    (none, w.modify e fun entry => { entry with handle := a.fsdata.handle, pdirCont := none })
  | .dirContinue =>
    let w := w.modify e fun entry => { entry with pdirCont := none }
    let prev := w.heap a.entryDirPrev
    match prev.type with
    | .dirBeginning =>
      (none, w.modify e fun entry =>
        { entry with pdirBegin := some a.entryDirPrev, dirContPos := 1 })
    | .dirContinue =>
      (none, w.modify e fun entry =>
        { entry with pdirBegin := prev.pdirBegin, dirContPos := prev.dirContPos + 1 })
    | _ => (some .notADirectory, w.releaseEntry e)
  | .symbolicLink =>
    let w := w.modify e fun entry => { entry with handle := a.fsdata.handle }
    -- after an error of `FSAL_pathcpy` the function goes on with the entry it has released
    (none, if env.pathcpy.isSome then w.releaseEntry e else w)
  | .unassigned | .fsJunction | .recycled => (some .inconsistentEntry, w.releaseEntry e)

/-- `cache_inode_valid` on a pointer, as far as it gives entries back. A `DIR_CONTINUE` stands for its
directory. The entry is released when it gets no LRU entry, though it is in the hash table. -/
def cacheInodeValid (lruNewEntry : Bool) : ℕ → Option ℕ → World H → Option (World H)
  | _, none, w => some w
  | 0, some _, _ => none
  | fuel + 1, some e, w =>
    if (w.heap e).type = .dirContinue then cacheInodeValid lruNewEntry fuel (w.heap e).pdirBegin w
    else some (if lruNewEntry then w else w.releaseEntry e)

/-- The end of `cache_inode_new_entry`: the entry is put into the hash table, and what
`cache_inode_valid` answers is forgotten. -/
def insertEntry (fuel : ℕ) (a : NewArgs H) (env : NewEnv) (e : ℕ) (w : World H) :
    Option (Option ℕ × Status × World H) :=
  match w.cacheInodeFsaldata2Key true with
  -- `key.pdata` still is what the first key was
  | (none, w) => some (none, .unappropriatedKey, w.releaseFsaldataKey .argument)
  | (some key, w) =>
    if env.testAndSet then
      (cacheInodeValid env.lruNewEntry fuel (some e) { w with ht := ⟨a.fsdata, key, e⟩ :: w.ht }).map
        fun w => (some e, .success, w)
    else some (none, .hashSetError, w.releaseEntry e)

/-- `cache_inode_new_entry` with the entry and the directory data that it got. -/
def fillEntry (fuel : ℕ) (a : NewArgs H) (env : NewEnv) (e : ℕ) (w : World H) :
    Option (Option ℕ × Status × World H) :=
  if ¬ env.rwLockInit then some (none, .initEntryFailed, w.releaseEntry e)
  else match attributesError a env with
    | some .stale =>
      -- the entry has been released, and what it holds is what its memory held before
      (cacheInodeKillEntry fuel e (w.releaseEntry e)).map fun (_, w) =>
        (none, errorConvert .stale, w)
    | some err => some (none, errorConvert err, w.releaseEntry e)
    | none =>
      match initObject a env e w with
      | (some status, w) => some (none, status, w)
      | (none, w) => insertEntry fuel a env e w

/-- `cache_inode_new_entry`. `junk` is what is in the memory of the object that `GET_PREALLOC` gives
for the entry. -/
def cacheInodeNewEntry (fuel : ℕ) (junk : Entry H) (a : NewArgs H) (env : NewEnv) (w : World H) :
    Option (Option ℕ × Status × World H) :=
  match w.cacheInodeFsaldata2Key false with
  | (none, _) => none
  | (some _, w) =>
    match hashTableGet w.ht a.fsdata with
    -- the object is cached already
    | some r => some (some r.entry, .entryExists, w)
    | none =>
      match w.getEntry with
      | (none, w) => some (none, .mallocError, w)
      | (some e, w) =>
        -- the memory holds what it held before
        let w := w.modify e fun _ => junk
        if isDir a.type then
          match w.getDirData with
          | (none, w) => some (none, .mallocError, w)
          | (some d, w) =>
            fillEntry fuel a env e (w.modify e fun entry => { entry with pdirData := d })
        else fillEntry fuel a env e w

end Table

end Ganesha.CacheInode.Pools
