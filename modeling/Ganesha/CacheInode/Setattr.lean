import Ganesha.CacheInode.Common
import Mathlib.Logic.Function.Basic

/-!
# Setting attributes

`Cache_inode/cache_inode_setattr.c`, `cache_inode_truncate.c`, and what `cache_inode_link.c` and
`cache_inode_remove.c` do to the attributes of the object, over the POSIX FSAL. The objects have no
data cache entry. What the system calls and the database answer is in the events, and a system call
changes nothing but what it is for. Space used and directories as parents are left out.
-/

namespace Ganesha.CacheInode.Setattr

/-! ## Attributes -/

/-- The attributes that the file system has. -/
structure Inode where
  type : FileType
  size : UInt64
  mode : UInt32
  owner : UInt32
  group : UInt32
  numlinks : ℕ
  atime : FsalTime
  mtime : FsalTime
  ctime : FsalTime
  deriving DecidableEq

/-- `asked_attributes` of attributes in the cache: the mask of the client, or only
`FSAL_ATTR_RDATTR_ERR` after an error. -/
inductive Mask
  | attrmask
  | rdattrErr
  deriving DecidableEq

/-- `fsal_attrib_list_t` in the cache. -/
structure Attributes where
  askedAttributes : Mask
  filesize : UInt64
  mode : UInt32
  owner : UInt32
  group : UInt32
  numlinks : ℕ
  atime : FsalTime
  mtime : FsalTime
  ctime : FsalTime
  deriving DecidableEq

/-- `fsal_attrib_list_t` in a request; what is not asked for is `none`. -/
structure AttrSet where
  filesize : Option UInt64
  mode : Option UInt32
  owner : Option UInt32
  group : Option UInt32
  atime : Option FsalTime
  mtime : Option FsalTime
  ctime : Option FsalTime
  creation : Option FsalTime

/-- What `posix2fsal_attributes` makes of an inode. -/
def Inode.attributes (ino : Inode) : Attributes where
  askedAttributes := .attrmask
  filesize := ino.size
  mode := ino.mode
  owner := ino.owner
  group := ino.group
  numlinks := ino.numlinks
  atime := ino.atime
  mtime := ino.mtime
  ctime := ino.ctime

/-- `POSIXFSAL_getattrs` at the end of another call. On an error, also because the mask has the error
bit, only the mask is set. -/
def fillAttributes (ino : Inode) (out : Attributes) (ok : Bool) : Attributes :=
  if ok ∧ out.askedAttributes = .attrmask then ino.attributes
  else { out with askedAttributes := .rdattrErr }

/-! ## The FSAL -/

/-- What is read of `global_fs_info`. -/
structure FsInfo where
  cansettime : Bool
  umask : UInt32
  linkSupport : Bool

/-- The credential of the context. -/
structure Credential where
  user : UInt32
  group : UInt32
  altGroups : List UInt32

/-- What the system answers to `POSIXFSAL_setattrs`; `path` is the error of
`fsal_internal_getPathFromHandle`. -/
structure SetattrsAnswer where
  path : Option FsalError
  chmod : Option FsalError
  lchown : Option FsalError
  utime : Option FsalError
  readAccess : Option FsalError
  writeAccess : Option FsalError
  getattrs : Bool
  now : FsalTime

/-- Somebody who is neither root nor the owner. -/
def Credential.stranger (cred : Credential) (stat : Inode) : Prop := cred.user ≠ 0 ∧ cred.user ≠ stat.owner

instance (cred : Credential) (stat : Inode) : Decidable (cred.stranger stat) :=
  inferInstanceAs (Decidable (_ ∧ _))

/-- The part CHMOD of `POSIXFSAL_setattrs`. -/
def chmod (info : FsInfo) (cred : Credential) (ans : SetattrsAnswer) (attrs : AttrSet) (ino : Inode) :
    Except FsalError Inode :=
  match attrs.mode with
  | none => .ok ino
  | some mode =>
    -- chmod of a symbolic link would change what it points to
    if ino.type = .symbolicLink then .ok ino
    else if cred.stranger ino then .error .perm
    else
      match ans.chmod with
      | some e => .error e
      | none => .ok { ino with mode := mode &&& ~~~info.umask &&& 0o7777, ctime := ans.now }

/-- A new owner or group for `lchown`, which leaves it for -1. -/
def chownTo (asked : Option UInt32) (old : UInt32) : UInt32 :=
  match asked with
  | none => old
  | some new => if new = 0xffffffff then old else new

/-- The part CHOWN; `stat` is the inode before the call. -/
def chown (cred : Credential) (ans : SetattrsAnswer) (attrs : AttrSet) (stat ino : Inode) :
    Except FsalError Inode :=
  if ∃ owner ∈ attrs.owner, cred.user ≠ 0 ∧ (cred.user ≠ stat.owner ∨ cred.user ≠ owner) then
    .error .perm
  else if attrs.group.isSome ∧ cred.stranger stat then .error .perm
  else if ∃ group ∈ attrs.group, cred.user ≠ 0 ∧ ¬ (cred.group = group ∨ group ∈ cred.altGroups) then
    .error .perm
  else if attrs.owner.isSome ∨ attrs.group.isSome then
    match ans.lchown with
    | some e => .error e
    | none => .ok { ino with
        owner := chownTo attrs.owner ino.owner
        group := chownTo attrs.group ino.group
        ctime := ans.now }
  else .ok ino

/-- The part UTIME. -/
def utime (cred : Credential) (ans : SetattrsAnswer) (attrs : AttrSet) (stat ino : Inode) :
    Except FsalError Inode :=
  if attrs.atime.isNone ∧ attrs.mtime.isNone then .ok ino
  else
    match (if attrs.atime.isSome ∧ cred.stranger stat then ans.readAccess else none),
      (if attrs.mtime.isSome ∧ cred.stranger stat then ans.writeAccess else none), ans.utime with
    | some e, _, _ => .error e
    | none, some e, _ => .error e
    | none, none, some e => .error e
    | none, none, none => .ok { ino with
        atime := attrs.atime.getD stat.atime
        mtime := attrs.mtime.getD stat.mtime
        ctime := ans.now }

/-- `POSIXFSAL_setattrs`: the inode, and the error or the attributes it is left with. -/
def posixSetattrs (info : FsInfo) (cred : Credential) (ans : SetattrsAnswer) (attrs : AttrSet)
    (stat : Inode) (out : Attributes) : Inode × Except FsalError Attributes :=
  if ¬ info.cansettime ∧
      (attrs.atime.isSome ∨ attrs.creation.isSome ∨ attrs.ctime.isSome ∨ attrs.mtime.isSome) then
    (stat, .error .inval)
  else
    match ans.path with
    | some e => (stat, .error e)
    | none =>
      match chmod info cred ans attrs stat with
      | .error e => (stat, .error e)
      | .ok ino =>
        match chown cred ans attrs stat ino with
        | .error e => (ino, .error e)
        | .ok ino =>
          match utime cred ans attrs stat ino with
          | .error e => (ino, .error e)
          | .ok ino => (ino, .ok (fillAttributes ino out ans.getattrs))

/-- What the system answers to `POSIXFSAL_truncate`. -/
structure TruncateAnswer where
  path : Option FsalError
  truncate : Option FsalError
  getattrs : Bool
  now : FsalTime

/-- `POSIXFSAL_truncate`. -/
def posixTruncate (ans : TruncateAnswer) (length : UInt64) (ino : Inode) (out : Attributes) :
    Inode × Except FsalError Attributes :=
  match ans.path with
  | some e => (ino, .error e)
  | none =>
    if ino.type ≠ .regularFile then (ino, .error .inval)
    else
      match ans.truncate with
      | some e => (ino, .error e)
      | none =>
        let ino := { ino with size := length, mtime := ans.now, ctime := ans.now }
        (ino, .ok (fillAttributes ino out ans.getattrs))

/-- What the system answers to `POSIXFSAL_link`: an error up to `link`, and then an error of the
database. `garbage` is what is in the memory for the attributes. -/
structure LinkAnswer where
  link : Option FsalError
  database : Option FsalError
  lstat : Bool
  garbage : Attributes
  now : FsalTime

/-- `POSIXFSAL_link`, as it changes the object that is linked. -/
def posixLink (info : FsInfo) (ans : LinkAnswer) (ino : Inode) : Inode × Except FsalError Attributes :=
  if ¬ info.linkSupport then (ino, .error .notsupp)
  else
    match ans.link with
    | some e => (ino, .error e)
    | none =>
      let ino := { ino with numlinks := ino.numlinks + 1, ctime := ans.now }
      match ans.database with
      | some e => (ino, .error e)
      | none => (ino, .ok (fillAttributes ino { ans.garbage with askedAttributes := .attrmask } ans.lstat))

/-- What the system answers to `POSIXFSAL_unlink`: an error up to `unlink`, and then an error of the
database or of the attributes of the directory. -/
structure UnlinkAnswer where
  unlink : Option FsalError
  after : Option FsalError
  now : FsalTime

/-- `POSIXFSAL_unlink`, as it changes the object that is unlinked. -/
def posixUnlink (ans : UnlinkAnswer) (ino : Inode) : Inode × Option FsalError :=
  match ans.unlink with
  | some e => (ino, some e)
  | none => ({ ino with numlinks := ino.numlinks - 1, ctime := ans.now }, ans.after)

/-! ## The cache -/

/-- An object with what is cached of it; `none` if its entry was killed. -/
structure Object where
  inode : Inode
  cached : Option Attributes
  deriving DecidableEq

/-- After an error of the FSAL; a stale handle kills the entry. -/
def Object.fail (ino : Inode) (cached : Attributes) (e : FsalError) : Object where
  inode := ino
  cached := if e = .stale then none else some cached

/-- The attributes that `cache_inode_setattr` takes over. -/
def mergeAttributes (type : FileType) (cached result : Attributes) : Attributes :=
  if result.askedAttributes = .attrmask then
    { cached with
      filesize := if type = .regularFile then result.filesize else cached.filesize
      mode := result.mode
      owner := result.owner
      group := result.group
      atime := result.atime
      mtime := result.mtime
      ctime := result.ctime }
  else cached

/-- `cache_inode_setattr` of an object whose entry has the attributes `cached`. What `FSAL_truncate`
returns is not used. -/
def cacheInodeSetattr (info : FsInfo) (cred : Credential) (attrs : AttrSet) (ans : SetattrsAnswer)
    (trunc : TruncateAnswer) (ino : Inode) (cached : Attributes) : Object × Status :=
  match posixSetattrs info cred ans attrs ino cached with
  | (ino, .error e) => (.fail ino cached e, errorConvert e)
  | (ino, .ok result) =>
    match attrs.filesize with
    | none => (⟨ino, some (mergeAttributes ino.type cached result)⟩, .success)
    | some length =>
      match posixTruncate trunc length ino ino.attributes with
      | (ino, .error e) => (.fail ino cached e, errorConvert e)
      | (ino, .ok _) => (⟨ino, some (mergeAttributes ino.type cached result)⟩, .success)

/-- `cache_inode_truncate_sw`. The FSAL writes into the attributes of the entry. -/
def cacheInodeTruncate (length : UInt64) (ans : TruncateAnswer) (ino : Inode) (cached : Attributes) :
    Object × Status :=
  if ino.type ≠ .regularFile then (⟨ino, some cached⟩, .badType)
  else
    let cached := { cached with askedAttributes := .attrmask }
    match posixTruncate ans length ino cached with
    | (ino, .error e) => (.fail ino cached e, errorConvert e)
    | (ino, .ok result) => (⟨ino, some result⟩, .success)

/-- `cache_inode_link`. `refused` is the status if the directory, the access to it or the name is
not as it should be; `sourceGone` says that after a stale handle `FSAL_getattrs` refuses the access to
the object; `dirent` is the status of `cache_inode_add_cached_dirent`. -/
def cacheInodeLink (info : FsInfo) (refused : Option Status) (ans : LinkAnswer) (sourceGone : Bool)
    (dirent : Status) (ino : Inode) (cached : Attributes) : Object × Status :=
  match refused with
  | some status => (⟨ino, some cached⟩, status)
  | none =>
    if ino.type = .dirBeginning ∨ ino.type = .dirContinue then (⟨ino, some cached⟩, .badType)
    else
      match posixLink info ans ino with
      | (ino, .error e) =>
        (⟨ino, if e = .stale ∧ sourceGone then none else some cached⟩, .fsalEstale)
      | (ino, .ok result) => (⟨ino, some result⟩, dirent)

/-- `cache_inode_remove_sw` of one of several links. `refused` is the status if the access to the
directory or the search for the name fails. -/
def cacheInodeRemove (refused : Option Status) (ans : UnlinkAnswer) (ino : Inode) (cached : Attributes) :
    Object × Status :=
  match refused with
  | some status => (⟨ino, some cached⟩, status)
  | none =>
    match posixUnlink ans ino with
    | (ino, some e) => (⟨ino, some cached⟩, errorConvert e)
    | (ino, none) =>
      -- the last link takes the entry with it
      if cached.numlinks > 1 then
        (⟨ino, some { cached with
            numlinks := cached.numlinks - 1
            ctime := { seconds := ans.now.seconds, nseconds := 0 } }⟩, .success)
      else (⟨ino, none⟩, .success)

/-! ## Runs -/

/-- An operation on the object with a number. -/
inductive Op
  | setattr (i : ℕ) (info : FsInfo) (cred : Credential) (attrs : AttrSet) (ans : SetattrsAnswer)
    (trunc : TruncateAnswer)
  | truncate (i : ℕ) (length : UInt64) (ans : TruncateAnswer)
  | link (i : ℕ) (info : FsInfo) (refused : Option Status) (ans : LinkAnswer) (sourceGone : Bool)
    (dirent : Status)
  | remove (i : ℕ) (refused : Option Status) (ans : UnlinkAnswer)

/-- An operation on a cached object. -/
def onObject (s : ℕ → Object) (i : ℕ) (f : Inode → Attributes → Object × Status) : Option (ℕ → Object) :=
  (s i).cached.map fun cached => Function.update s i (f (s i).inode cached).1

/-- One operation. A name that is removed is one of several of an object that is no directory. -/
def step (s : ℕ → Object) : Op → Option (ℕ → Object)
  | .setattr i info cred attrs ans trunc => onObject s i (cacheInodeSetattr info cred attrs ans trunc)
  | .truncate i length ans => onObject s i (cacheInodeTruncate length ans)
  | .link i info refused ans sourceGone dirent =>
    onObject s i (cacheInodeLink info refused ans sourceGone dirent)
  | .remove i refused ans =>
    if (s i).inode.type = .dirBeginning ∨ (s i).inode.type = .dirContinue ∨ (s i).inode.numlinks ≤ 1 then
      none
    else onObject s i (cacheInodeRemove refused ans)

/-- The objects have just been read into the cache. -/
def initial (inodes : ℕ → Inode) (i : ℕ) : Object := ⟨inodes i, some (inodes i).attributes⟩

end Ganesha.CacheInode.Setattr
