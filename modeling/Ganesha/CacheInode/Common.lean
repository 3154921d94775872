import Mathlib.Data.Int.Notation
import Mathlib.Data.Nat.Notation
import Mathlib.Tactic.Common

/-!
# Entries of the inode cache

The codes of `include/cache_inode.h` and `include/err_fsal.h`, and the part of `cache_entry_t` that
belongs to a regular file.
-/

namespace Ganesha.CacheInode

/-- `cache_inode_file_type_t`. -/
inductive FileType
  | unassigned
  | regularFile
  | characterFile
  | blockFile
  | symbolicLink
  | socketFile
  | fifoFile
  | dirBeginning
  | dirContinue
  | fsJunction
  | recycled
  deriving DecidableEq

/-- The codes `CACHE_INODE_*`. -/
inductive Status
  | success
  | mallocError
  | poolMutexInitError
  | getNewLruEntry
  | unappropriatedKey
  | initEntryFailed
  | fsalError
  | lruError
  | hashSetError
  | notADirectory
  | inconsistentEntry
  | badType
  | entryExists
  | dirNotEmpty
  | notFound
  | invalidArgument
  | insertError
  | hashTableError
  | fsalEaccess
  | isADirectory
  | fsalEperm
  | noSpaceLeft
  | cacheContentError
  | cacheContentExists
  | cacheContentEmpty
  | readOnlyFs
  | ioError
  | fsalEstale
  | fsalErrSec
  | stateConflict
  | quotaExceeded
  | deadEntry
  | asyncPostError
  | notSupported
  | stateError
  | fsalDelay
  deriving DecidableEq

/-- The codes `ERR_FSAL_*` apart from `ERR_FSAL_NO_ERROR`. -/
inductive FsalError
  | perm
  | noent
  | io
  | nxio
  | nomem
  | access
  | fault
  | exist
  | xdev
  | notdir
  | isdir
  | inval
  | fbig
  | nospc
  | rofs
  | mlink
  | dquot
  | nametoolong
  | notempty
  | stale
  | badhandle
  | badcookie
  | notsupp
  | toosmall
  | serverfault
  | badtype
  | delay
  | fhexpired
  | symlink
  | attrnotsupp
  | notInit
  | alreadyInit
  | badInit
  | sec
  | noQuota
  | notOpened
  deriving DecidableEq

/-- `cache_inode_error_convert`. -/
def errorConvert : FsalError → Status
  | .noent => .notFound
  | .exist => .entryExists
  | .access => .fsalEaccess
  | .perm => .fsalEperm
  | .nospc => .noSpaceLeft
  | .notempty => .dirNotEmpty
  | .rofs => .readOnlyFs
  | .notdir => .notADirectory
  | .io => .ioError
  | .stale => .fsalEstale
  | .inval => .invalidArgument
  | .dquot => .quotaExceeded
  | .sec => .fsalErrSec
  | .notsupp => .notSupported
  | .delay => .fsalDelay
  | _ => .fsalError

lemma errorConvert_ne_success (e : FsalError) : errorConvert e ≠ .success := by
  cases e <;> decide

/-- `fsal_time_t`. -/
structure FsalTime where
  seconds : UInt32
  nseconds : UInt32
  deriving DecidableEq

/-- What `time(NULL)` gives, as a time of the FSAL. -/
def FsalTime.ofClock (now : ℤ) : FsalTime where
  seconds := UInt32.ofInt now
  nseconds := 0

/-- The attributes that are read and set here. -/
structure Attributes where
  askedAttributes : UInt64
  filesize : UInt64
  spaceused : UInt64
  atime : FsalTime
  mtime : FsalTime
  ctime : FsalTime
  deriving DecidableEq

/-- `cache_inode_opened_file_t`. A descriptor of the FSAL is known by the number of the call of
`FSAL_open` that gave it; `none` is memory in which no descriptor was ever written. -/
structure OpenFd where
  fd : Option ℕ
  fileno : UInt32
  openflags : UInt16
  lastOp : ℤ
  deriving DecidableEq

/-- `cache_inode_unstable_data_t`, with the memory at `buffer`. -/
structure UnstableData where
  buffer : Option (ℕ → UInt8)
  offset : UInt64
  length : UInt32

/-- A `cache_entry_t` as a regular file; `pentryContent` says that it is data cached. -/
structure Entry where
  type : FileType
  attributes : Attributes
  pentryContent : Bool
  openFd : OpenFd
  unstableData : UnstableData

/-- An item of an LRU list. -/
structure LruItem where
  pdata : ℕ
  valid : Bool

/-- What is read of `cache_inode_client_t`; `lruGc` has the MRU first. -/
structure Client where
  attrmask : UInt64
  useCache : UInt32
  retention : ℤ
  maxFdPerThread : UInt32
  timeOfLastGcFd : ℤ
  lruGc : List LruItem

end Ganesha.CacheInode
