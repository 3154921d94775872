import Ganesha.CacheInode.OpenClose
import Ganesha.Library.FileContent

/-!
# Reading, writing and committing regular files

`Cache_inode/cache_inode_rdwr.c`, `Cache_inode/cache_inode_commit.c` and, as far as they call it,
`cache_inode_valid` of `Cache_inode/cache_inode_misc.c`. The data cache of `File_Content` and the LRU
lists are in the answers of the environment, and the data read is not followed.
-/

namespace Ganesha.CacheInode.Rdwr
open Function (update)
open Library.File

/-- `CACHE_INODE_UNSTABLE_BUFFERSIZE`. -/
def unstableBuffersize : UInt64 := 100 * 1024 * 1024

/-- `cache_inode_io_direction_t`. -/
inductive Direction
  | read
  | write
  deriving DecidableEq

/-- `fsal_seektype_t`. -/
inductive Whence
  | set
  | cur
  | end'
  deriving DecidableEq

/-- `fsal_seek_t`; the offset is used as an unsigned number. -/
structure Seek where
  whence : Whence
  offset : UInt64

/-- The codes `CACHE_CONTENT_*`. -/
inductive ContentStatus
  | success
  | invalidArgument
  | unappropriatedKey
  | badCacheInodeEntry
  | entryExists
  | fsalError
  | localCacheError
  | mallocError
  | lruError
  | notFound
  | localCacheNotFound
  | tooLargeForCache
  deriving DecidableEq

/-- `cache_content_error_convert`. -/
def contentErrorConvert : ContentStatus → Status
  | .success => .success
  | .entryExists => .entryExists
  | .fsalError => .fsalError
  | .localCacheError => .cacheContentError
  | .mallocError => .mallocError
  | .lruError => .lruError
  | _ => .invalidArgument

/-- What `cache_content_rdwr` answers: its status, the number of bytes, and the size and the blocks
of the local file. -/
structure ContentAnswer where
  status : ContentStatus
  ioSize : UInt64
  stSize : UInt64
  stSpace : UInt64

/-- What happens in `cache_inode_valid`: whether the functions of the LRU list succeed, the answer of
`FSAL_close`, and whether the local file of a data cached entry is closed without an error. -/
structure ValidEnv where
  lruInvalidate : Bool
  lruNewEntry : Bool
  close : CloseAnswer
  contentClose : Bool
  lruGcInvalid : Bool

/-- What the environment answers in a call of `cache_inode_rdwr`. -/
structure Env where
  now : ℤ
  alloc : Option (ℕ → UInt8)
  content : ContentAnswer
  renew : Option ContentStatus
  contentAgain : ContentAnswer
  open' : OpenEnv
  io : Except FsalError UInt64
  errorClose : CloseAnswer
  close : CloseAnswer
  getattrs : Except FsalError (UInt64 × UInt64)
  valid : ValidEnv

/-- The cache with the contents of the files in the FSAL. `expected` is what the writes that
succeeded make of the first contents; `overrun` says that bytes outside of the allocated buffer were
copied or sent. -/
structure Files where
  world : World
  content : ℕ → Content
  expected : ℕ → Content
  overrun : Bool

/-- A result with the number of bytes in `*pio_size`. -/
structure Result where
  files : Files
  status : Status
  ioSize : UInt64

/-- A descriptor that was not used for long is closed. -/
def closeIdle (w : World) (c e : ℕ) (now : ℤ) (answer : CloseAnswer) : World × Status :=
  let o := (w.entry e).openFd
  if (w.client c).useCache = 1 ∧ o.fileno ≠ 0 ∧ now - o.lastOp > (w.client c).retention then
    cacheInodeClose w c e now answer
  else (w, .success)

/-- `cache_inode_valid` for a regular file. When a function of the LRU list fails the entry is put in
its pool, which is not followed here. -/
def cacheInodeValid (w : World) (c e : ℕ) (now : ℤ) (env : ValidEnv) : World × Status :=
  if env.lruInvalidate = false then (w, .lruError)
  else if env.lruNewEntry = false then (w, .lruError)
  else
    andThen (closeIdle w c e now env.close) fun w =>
      if (w.entry e).pentryContent = true ∧ env.contentClose = false then (w, .cacheContentError)
      else if env.lruGcInvalid = false then (w, .lruError)
      else (w, .success)

/-- The entry `e` is changed. -/
def Files.modify (s : Files) (e : ℕ) (g : Entry → Entry) : Files :=
  { s with world := s.world.setEntry e (g (s.world.entry e)) }

/-- Set mtime and ctime, or atime. -/
def setTimes (dir : Direction) (now : ℤ) (entry : Entry) : Entry :=
  let t := FsalTime.ofClock now
  match dir with
  | .read => { entry with attributes := { entry.attributes with atime := t } }
  | .write => { entry with attributes := { entry.attributes with mtime := t, ctime := t } }

/-- The end of `cache_inode_rdwr`. -/
def rdwrEnd (s : Files) (c e : ℕ) (ioSize : UInt64) (env : Env) : Result :=
  let r := cacheInodeValid s.world c e env.now env.valid
  ⟨{ s with world := r.1 }, r.2, ioSize⟩

/-- A data cached file. -/
def rdwrContent (s : Files) (c e : ℕ) (dir : Direction) (env : Env) : Result :=
  let answer :=
    if env.content.status = .localCacheNotFound then
      match env.renew with
      | some status => { env.content with status := status }
      | none => env.contentAgain
    else env.content
  if answer.status ≠ .success then ⟨s, contentErrorConvert answer.status, 0⟩
  else
    let s₁ := s.modify e fun entry =>
      { entry with
        attributes := { entry.attributes with
          filesize := answer.stSize
          spaceused := answer.stSpace } }
    rdwrEnd (s₁.modify e (setTimes dir env.now)) c e answer.ioSize env

/-- `FSAL_read` and `FSAL_write`; at most `size` bytes are written. -/
def fsalRdwr (s : Files) (e : ℕ) (dir : Direction) (offset size : UInt64) (buffer : ℕ → UInt8)
    (done : UInt64) : Files × UInt64 :=
  match dir with
  | .read => (s, done)
  | .write =>
    let n := min done size
    ({ s with
        content := update s.content e ((s.content e).pwrite offset.toNat n.toNat buffer) }, n)

/-- After an error of `FSAL_read` or `FSAL_write`. -/
def rdwrError (s : Files) (e : ℕ) (err : FsalError) (env : Env) : Result :=
  let closes := err ≠ .notOpened ∧ (s.world.entry e).openFd.fileno ≠ 0
  let world := if closes then s.world.fsalClose e env.errorClose else s.world
  let status := if closes then errorConvert err else .fsalDelay
  ⟨{ s with world := world.resetFd e }, status, 0⟩

/-- The size in the attributes after a write. An error of `FSAL_getattrs` is not looked at again. -/
def updateSize (s : Files) (e : ℕ) (dir : Direction) (env : Env) : Files :=
  match dir, env.getattrs with
  | .write, .ok attr => s.modify e fun entry =>
    { entry with
      attributes := { entry.attributes with filesize := attr.1, spaceused := attr.2 } }
  | _, _ => s

/-- After `FSAL_read` or `FSAL_write` did `n` bytes. -/
def rdwrDone (s : Files) (c e : ℕ) (dir : Direction) (n : UInt64) (env : Env) : Result :=
  let r := cacheInodeClose s.world c e env.now env.close
  let s := { s with world := r.1 }
  if r.2 ≠ .success then ⟨s, r.2, n⟩
  else rdwrEnd ((updateSize s e dir env).modify e (setTimes dir env.now)) c e n env

/-- `FSAL_O_RDONLY` and `FSAL_O_WRONLY`. -/
def Direction.openflags : Direction → UInt16
  | .read => 0x0001
  | .write => 0x0004

/-- A file that is not data cached. -/
def rdwrDirect (s : Files) (c e : ℕ) (dir : Direction) (offset size : UInt64) (buffer : ℕ → UInt8)
    (env : Env) : Result :=
  let s := s.modify e fun entry =>
    { entry with
      attributes := { entry.attributes with
        askedAttributes := (s.world.client c).attrmask } }
  let r := cacheInodeOpen s.world c e dir.openflags env.open'
  let s := { s with world := r.1 }
  if r.2 ≠ .success then ⟨s, r.2, 0⟩
  else
    match env.io with
    | .error err => rdwrError s e err env
    | .ok done =>
      let r := fsalRdwr s e dir offset size buffer done
      rdwrDone r.1 c e dir r.2 env

/-- The data goes to the data cache or to the FSAL. -/
def rdwrStable (s : Files) (c e : ℕ) (dir : Direction) (offset size : UInt64) (buffer : ℕ → UInt8)
    (env : Env) : Result :=
  if (s.world.entry e).pentryContent then rdwrContent s c e dir env
  else rdwrDirect s c e dir offset size buffer env

/-- `memcpy` of `size` bytes to the index `start` of the unstable buffer `mem`, which becomes
`offset` and `length`. -/
def copyUnstable (s : Files) (e : ℕ) (mem : ℕ → UInt8) (start : ℕ) (offset size : UInt64)
    (length : UInt32) (buffer : ℕ → UInt8) (now : ℤ) : Files :=
  let s := s.modify e fun entry => setTimes .write now
    { entry with
      unstableData :=
        { buffer := some (splice mem start size.toNat buffer), offset := offset, length := length } }
  { s with overrun := s.overrun || unstableBuffersize.toNat < start + size.toNat }

/-- A write to the unstable buffer. -/
def storeUnstable (s : Files) (c e : ℕ) (mem : ℕ → UInt8) (start : ℕ) (offset size : UInt64)
    (length : UInt32) (buffer : ℕ → UInt8) (env : Env) : Result :=
  rdwrEnd (copyUnstable s e mem start offset size length buffer env.now) c e size env

def cacheInodeRdwr (s : Files) (c e : ℕ) (dir : Direction) (seek : Seek) (size : UInt64)
    (buffer : ℕ → UInt8) (stable : Bool) (env : Env) : Result :=
  let u := (s.world.entry e).unstableData
  if seek.whence ≠ .set then ⟨s, .invalidArgument, 0⟩
  else if (s.world.entry e).type ≠ .regularFile then ⟨s, .badType, 0⟩
  else if stable then rdwrStable s c e dir seek.offset size buffer env
  else
    match u.buffer with
    | none =>
      match env.alloc with
      | none => ⟨s, .mallocError, 0⟩
      | some mem => storeUnstable s c e mem 0 seek.offset size size.toUInt32 buffer env
    | some mem =>
      if u.offset < seek.offset ∧ size + seek.offset < unstableBuffersize then
        -- the data goes to the offset in the file, not to the one in the buffer
        storeUnstable s c e mem seek.offset.toNat u.offset size (size + seek.offset).toUInt32 buffer
          env
      else rdwrStable s c e dir seek.offset size buffer env

/-- The unstable data of `e` is gone. -/
def dropUnstable (s : Files) (e : ℕ) : Files :=
  s.modify e fun entry => { entry with unstableData := { entry.unstableData with buffer := none } }

/-- `n` bytes from the index `start` of the unstable buffer on are to be sent. -/
def Files.sends (s : Files) (start n : ℕ) : Files :=
  { s with overrun := s.overrun || unstableBuffersize.toNat < start + n }

/-- All of the unstable data, in the buffer `mem`, is written. -/
def commitAll (s : Files) (c e : ℕ) (mem : ℕ → UInt8) (env : Env) : Files × Status :=
  let u := (s.world.entry e).unstableData
  let r := cacheInodeRdwr (s.sends 0 u.length.toNat) c e .write ⟨.set, u.offset⟩ u.length.toUInt64 mem
    true env
  if r.status ≠ .success then (r.files, r.status) else (dropUnstable r.files e, .success)

/-- A part of the unstable data is written; it stays in the buffer. -/
def commitPart (s : Files) (c e : ℕ) (mem : ℕ → UInt8) (offset count : UInt64) (env : Env) :
    Files × Status :=
  let start := (offset - (s.world.entry e).unstableData.offset).toNat
  let r := cacheInodeRdwr (s.sends start count.toNat) c e .write ⟨.set, offset⟩ count
    (fun i => mem (start + i)) true env
  (r.files, r.status)

def cacheInodeCommit (s : Files) (c e : ℕ) (offset count : UInt64) (env : Env) : Files × Status :=
  match (s.world.entry e).unstableData.buffer with
  | none => (s, .success)
  | some mem =>
    if count = 0 ∨ count = 0xFFFFFFFF then commitAll s c e mem env
    else if offset < (s.world.entry e).unstableData.offset then (s, .invalidArgument)
    else commitPart s c e mem offset count env

/-- Calls of the two functions; the callers read with `stable` set. -/
inductive Event
  | read (c e : ℕ) (seek : Seek) (size : UInt64) (buffer : ℕ → UInt8) (env : Env)
  | write (c e : ℕ) (seek : Seek) (size : UInt64) (buffer : ℕ → UInt8) (stable : Bool) (env : Env)
  | commit (c e : ℕ) (offset count : UInt64) (env : Env)

/-- The write of a call that succeeded is due. -/
def expectWrite (r : Result) (e : ℕ) (offset : UInt64) (buffer : ℕ → UInt8) : Files :=
  if r.status = .success then
    { r.files with
      expected := update r.files.expected e
        ((r.files.expected e).pwrite offset.toNat r.ioSize.toNat buffer) }
  else r.files

/-- One call. -/
def step (s : Files) : Event → Option Files
  | .read c e seek size buffer env =>
    some (cacheInodeRdwr s c e .read seek size buffer true env).files
  | .write c e seek size buffer stable env =>
    some (expectWrite (cacheInodeRdwr s c e .write seek size buffer stable env) e seek.offset buffer)
  | .commit c e offset count env => some (cacheInodeCommit s c e offset count env).1

/-- No file has unstable data. -/
def Initial (s : Files) : Prop :=
  CacheInode.Initial s.world ∧ (∀ e, (s.world.entry e).unstableData.buffer = none) ∧
  s.expected = s.content ∧ s.overrun = false

end Ganesha.CacheInode.Rdwr
