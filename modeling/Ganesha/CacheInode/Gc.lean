import Mathlib.Data.Int.Notation
import Ganesha.CacheInode.Dirents

/-!
# Garbage collection of the inode cache

`Cache_inode/cache_inode_gc.c`. The hash table is known by the entries that it has: `hash e pos` says
that the key of the node at `pos` of the entry `e` is in it, the position of an entry that is no
directory being 0. Different entries have different keys.
-/

namespace Ganesha.CacheInode.Gc
open Dirents

/-- The cache, the hash table and `gcparam.nb_to_be_purged`. -/
structure World where
  cache : Cache
  hash : ℕ → ℕ → Bool
  nbToBePurged : UInt32

/-- Assign fields of one entry. -/
def World.modify (w : World) (e : ℕ) (f : Dirents.Entry → Dirents.Entry) : World :=
  { w with cache := w.cache.modify e f }

/-- The loop of `cache_inode_is_dir_empty` over the chain. -/
def isDirEmptyLoop : List Node → Bool
  | [] => true
  | n :: rest =>
    if n.nbactive ≠ 0 then false
    else if n.endOfDir then true
    else isDirEmptyLoop rest

def cacheInodeIsDirEmpty (c : Cache) (dir : ℕ) : Status :=
  if (c dir).type ≠ .dirBeginning then .badType
  else if isDirEmptyLoop (c dir).nodes then .success else .dirNotEmpty

/-- What the calls of `cache_inode_gc_clean_entry` answer for one node: the key could be built, and
`HashTable_Del` does not fail with an error other than `HASHTABLE_ERROR_NO_SUCH_KEY`. -/
structure CleanEnv where
  key : Bool
  hashDel : Bool

/-- `cache_inode_gc_clean_entry` of the node at `pos`; the answer is true for
`LRU_LIST_SET_INVALID`. The dirents of the node stay as they are. -/
def cacheInodeGcCleanEntry (w : World) (e pos : ℕ) (env : CleanEnv) : Bool × World :=
  if ¬ env.key then (false, w)
  else if ¬ env.hashDel then (false, w)
  else if ¬ w.hash e pos then (true, w)
  else
    (true,
      { cache := if pos = 0 then w.cache.modify e fun entry => { entry with allocated := false }
          else w.cache
        hash := fun e' pos' => if e' = e ∧ pos' = pos then false else w.hash e' pos'
        nbToBePurged := w.nbToBePurged - 1 })

def cacheInodeGcSuppressFile (w : World) (e : ℕ) (env : CleanEnv) : Bool × World :=
  let w := w.modify e fun entry => { entry with validState := false }
  match invalidateRelatedDirent w.cache (w.cache e).parentList with
  | (false, cache) => (false, { w with cache })
  | (true, cache) => cacheInodeGcCleanEntry { w with cache } e 0 env

/-- The loop of `cache_inode_gc_suppress_directory` over the `DIR_CONTINUE` entries. -/
def cleanDirConts (e : ℕ) (env : ℕ → CleanEnv) : List ℕ → World → Bool × World
  | [], w => (true, w)
  | pos :: rest, w => match cacheInodeGcCleanEntry w e pos (env pos) with
    | (false, w) => (false, w)
    | (true, w) => cleanDirConts e env rest w

def cacheInodeGcSuppressDirectory (w : World) (e : ℕ) (env : ℕ → CleanEnv) : Bool × World :=
  let w := w.modify e fun entry => { entry with validState := false }
  if cacheInodeIsDirEmpty w.cache e ≠ .success then (false, w)
  else match invalidateRelatedDirent w.cache (w.cache e).parentList with
    | (false, cache) => (false, { w with cache })
    | (true, cache) =>
      match cleanDirConts e env ((List.range (cache e).nodes.length).tail) { w with cache } with
      | (false, w) => (false, w)
      | (true, w) => cacheInodeGcCleanEntry w e 0 (env 0)

/-- `cache_inode_gc_policy_t`, without what decides when the garbage collector runs. -/
structure GcPolicy where
  fileExpirationDelay : ℤ
  directoryExpirationDelay : ℤ
  hwmarkNbEntries : UInt32
  lwmarkNbEntries : UInt32

/-- What one run of the garbage collector is given: the policy, for each entry the time since it was
last used (`current_time - entry_time`), and the answers of the calls. -/
structure GcEnv where
  policy : GcPolicy
  age : ℕ → ℤ
  clean : ℕ → ℕ → CleanEnv

/-- The entry has expired and is of a kind that is collected. -/
def GcEnv.expired (env : GcEnv) (type : FileType) (e : ℕ) : Bool :=
  match type with
  | .dirBeginning => env.policy.directoryExpirationDelay > 0 ∧
      env.age e > env.policy.directoryExpirationDelay
  | .regularFile | .symbolicLink => env.policy.fileExpirationDelay > 0 ∧
      env.age e > env.policy.fileExpirationDelay
  | _ => false

def cacheInodeGcFunction (env : GcEnv) (w : World) (e : ℕ) : Bool × World :=
  if w.nbToBePurged ≠ 0 ∧ env.expired (w.cache e).type e then
    if (w.cache e).type = .dirBeginning then cacheInodeGcSuppressDirectory w e (env.clean e)
    else cacheInodeGcSuppressFile w e (env.clean e 0)
  else (false, w)

end Ganesha.CacheInode.Gc
