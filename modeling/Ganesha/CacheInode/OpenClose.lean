import Ganesha.CacheInode.Common
import Ganesha.Library.Transition
import Mathlib.Logic.Function.Basic

/-!
# Cached file descriptors

`Cache_inode/cache_inode_open_close.c` and the end of `Cache_inode/cache_inode_gc.c`, built without
MFSL, the proxy and pNFS. The FSAL is told apart from the cache: it counts the descriptors that it
gives and knows which are open, and with which flags. The clock is read once in a call.
-/

namespace Ganesha.CacheInode
open Function (update)

/-- The descriptors of the FSAL: `live` has the flags of the open ones. `strayClose` says that
`FSAL_close` was called on something else than an open descriptor, `lost` that an open descriptor was
overwritten. -/
structure Fsal where
  next : ℕ
  live : ℕ → Option UInt16
  strayClose : Bool
  lost : Bool

/-- What `FSAL_close` answers. When it fails the descriptor may be gone or not. -/
inductive CloseAnswer
  | closed
  | failed (e : FsalError) (gone : Bool)

/-- The descriptor is not open any more. -/
def CloseAnswer.gone : CloseAnswer → Bool
  | .closed => true
  | .failed _ gone => gone

/-- The error that the callers look at: `ERR_FSAL_NOT_OPENED` is none. -/
def CloseAnswer.error : CloseAnswer → Option FsalError
  | .closed => none
  | .failed .notOpened _ => none
  | .failed e _ => some e

/-- What `FSAL_open` and `FSAL_open_by_name` answer. When they fail, the memory of the descriptor may
be `kept` or overwritten. -/
inductive OpenAnswer
  | opened (fileno : UInt32) (attributes : Attributes)
  | failed (e : FsalError) (kept : Bool)

/-- The memory `fd` holds an open descriptor. -/
def Fsal.holds (f : Fsal) (fd : Option ℕ) : Bool :=
  fd.any fun d => (f.live d).isSome

/-- The descriptor `d` is not open any more. -/
def Fsal.drop (f : Fsal) (d : ℕ) : Fsal :=
  { f with live := update f.live d none }

/-- A new descriptor is opened with `flags` in the memory `fd`. -/
def Fsal.add (f : Fsal) (fd : Option ℕ) (flags : UInt16) : Fsal :=
  { f with
    next := f.next + 1
    live := update f.live f.next (some flags)
    lost := f.lost || f.holds fd }

def fsalClose (f : Fsal) (fd : Option ℕ) (answer : CloseAnswer) : Fsal :=
  match fd with
  | none => { f with strayClose := true }
  | some d =>
    if (f.live d).isNone then { f with strayClose := true }
    else if answer.gone then f.drop d
    else f

/-- `FSAL_open` with `flags` into the memory `fd`. -/
def fsalOpen (f : Fsal) (fd : Option ℕ) (flags : UInt16) : OpenAnswer → Fsal × Option ℕ
  | .opened _ _ => (f.add fd flags, some f.next)
  | .failed _ true => (f, fd)
  | .failed _ false => ({ f with lost := f.lost || f.holds fd }, none)

/-- The entries, the clients and the FSAL. -/
structure World where
  entry : ℕ → Entry
  client : ℕ → Client
  fsal : Fsal

/-- The entry `e` becomes `entry`. -/
def World.setEntry (w : World) (e : ℕ) (entry : Entry) : World :=
  { w with entry := update w.entry e entry }

lemma setEntry_self {w : World} {e : ℕ} {x : Entry} : (w.setEntry e x).entry e = x :=
  Function.update_self _ _ _

lemma setEntry_other {w : World} {e e' : ℕ} {x : Entry} (h : e' ≠ e) :
    (w.setEntry e x).entry e' = w.entry e' :=
  Function.update_of_ne h _ _

/-- The entry `e` with another descriptor. -/
def World.setOpenFd (w : World) (e : ℕ) (o : OpenFd) : World :=
  w.setEntry e { w.entry e with openFd := o }

/-- The descriptor of `e` is marked as not opened. -/
def World.resetFd (w : World) (e : ℕ) : World :=
  w.setOpenFd e { (w.entry e).openFd with fileno := 0, lastOp := 0 }

/-- `FSAL_close` on the descriptor of `e`. -/
def World.fsalClose (w : World) (e : ℕ) (answer : CloseAnswer) : World :=
  { w with fsal := CacheInode.fsalClose w.fsal (w.entry e).openFd.fd answer }

/-- `cache_inode_close`. The field `fileno` is unsigned. -/
def cacheInodeClose (w : World) (c e : ℕ) (now : ℤ) (answer : CloseAnswer) : World × Status :=
  let client := w.client c
  let o := (w.entry e).openFd
  if (w.entry e).type ≠ .regularFile then (w, .badType)
  else if o.fileno < 0 then (w, .success)
  else if client.useCache = 0 ∨ now - o.lastOp > client.retention ∨
      o.fileno > client.maxFdPerThread then
    let w' := (w.fsalClose e answer).resetFd e
    match answer.error with
    | some err => (w', errorConvert err)
    | none => (w', .success)
  else (w, .success)

/-- `cache_inode_gc_fd_func`, with what is left of `nb_to_be_purged`. -/
def gcFdFunc (w : World) (c e : ℕ) (nbToBePurged : UInt32) (now : ℤ) (answer : CloseAnswer) :
    World × UInt32 :=
  let o := (w.entry e).openFd
  if (w.entry e).type = .regularFile ∧ o.fileno ≠ 0 ∧
      now - o.lastOp > (w.client c).retention then
    ((cacheInodeClose w c e now answer).1, nbToBePurged - 1)
  else (w, nbToBePurged)

/-- The loop of `LRU_apply_function` with `cache_inode_gc_fd_func`, from the item before the MRU to
the LRU. -/
def gcFdLoop (c : ℕ) (now : ℤ) (answer : ℕ → CloseAnswer) :
    World → UInt32 → List LruItem → World
  | w, _, [] => w
  | w, nb, item :: items =>
    if item.valid then
      let (w', nb') := gcFdFunc w c item.pdata nb now (answer item.pdata)
      if nb' = 0 then w' else gcFdLoop c now answer w' nb' items
    else gcFdLoop c now answer w nb items

/-- `cache_inode_gc_fd`; the closing of the descriptor of an entry is answered by `answer`. -/
def gcFd (w : World) (c : ℕ) (now : ℤ) (answer : ℕ → CloseAnswer) : World × Status :=
  let client := w.client c
  if client.useCache = 0 then (w, .success)
  else if now - client.timeOfLastGcFd < client.retention then (w, .success)
  else
    let w' := gcFdLoop c now answer w client.maxFdPerThread client.lruGc.tail
    ({ w' with client := update w'.client c { w'.client c with timeOfLastGcFd := now } }, .success)

/-- The function goes on if a call succeeded and returns its status else. -/
def andThen (r : World × Status) (rest : World → World × Status) : World × Status :=
  if r.2 = .success then rest r.1 else r

/-- What the environment answers during an open. -/
structure OpenEnv where
  now : ℤ
  close : CloseAnswer
  open' : OpenAnswer
  gc : ℕ → CloseAnswer

/-- The end of `cache_inode_open` and of `cache_inode_open_by_name`. -/
def openEnd (w : World) (c e : ℕ) (env : OpenEnv) : World × Status :=
  let w' := w.setOpenFd e { (w.entry e).openFd with lastOp := env.now }
  let client := w.client c
  if client.useCache ≠ 0 ∧ (w'.entry e).openFd.fileno > client.maxFdPerThread then
    gcFd w' c env.now env.gc
  else (w', .success)

/-- The closing of a descriptor that was opened with other flags, when `closes` says so; an error
leaves the function. -/
def closeForReopen (w : World) (e : ℕ) (closes : Bool) (answer : CloseAnswer) : World × Status :=
  if closes then
    let w' := w.fsalClose e answer
    match answer.error with
    | some err => (w', errorConvert err)
    | none => (w'.resetFd e, .success)
  else (w, .success)

/-- The call of `FSAL_open` on `e`; the attributes that come with it go through `keep`. -/
def openFsal (w : World) (e : ℕ) (flags : UInt16) (keep : Attributes → Attributes)
    (answer : OpenAnswer) : World × Status :=
  let entry := w.entry e
  let (fsal, fd) := fsalOpen w.fsal entry.openFd.fd flags answer
  match answer with
  | .opened fileno attributes =>
    ({ w with fsal := fsal }.setEntry e
      { entry with
        attributes := keep attributes
        openFd := { entry.openFd with fd := fd, fileno := fileno, openflags := flags } }, .success)
  | .failed err _ =>
    ({ w with fsal := fsal }.setOpenFd e { entry.openFd with fd := fd }, errorConvert err)

def cacheInodeOpen (w : World) (c e : ℕ) (flags : UInt16) (env : OpenEnv) : World × Status :=
  let o := (w.entry e).openFd
  if (w.entry e).type ≠ .regularFile then (w, .badType)
  else
    let closes := o.openflags ≠ 0 ∧ o.fileno ≠ 0 ∧ o.openflags ≠ flags
    andThen (closeForReopen w e closes env.close) fun w =>
      if (w.entry e).openFd.lastOp = 0 ∨ (w.entry e).openFd.fileno = 0 then
        andThen (openFsal w e flags id env.open') fun w => openEnd w c e env
      else openEnd w c e env

/-- What `cache_inode_open_by_name` keeps of the attributes of a data cached file. -/
def keepCached (entry : Entry) (attributes : Attributes) : Attributes :=
  if entry.pentryContent then
    { attributes with
      filesize := entry.attributes.filesize
      spaceused := entry.attributes.spaceused
      mtime := entry.attributes.mtime }
  else attributes

/-- `cache_inode_open_by_name`. Its test `fileno >= 0` is the one of an unsigned number. -/
def cacheInodeOpenByName (w : World) (c dir e : ℕ) (flags : UInt16) (env : OpenEnv) :
    World × Status :=
  let o := (w.entry e).openFd
  if (w.entry dir).type ≠ .dirBeginning ∧ (w.entry dir).type ≠ .dirContinue then (w, .badType)
  else if (w.entry e).type ≠ .regularFile then (w, .badType)
  else
    let closes := o.openflags ≠ 0 ∧ o.fileno ≥ 0 ∧ o.openflags ≠ flags
    andThen (closeForReopen w e closes env.close) fun w =>
      if (w.entry e).openFd.lastOp = 0 ∨ (w.entry e).openFd.fileno = 0 then
        andThen (openFsal w e flags (keepCached (w.entry e)) env.open') fun w => openEnd w c e env
      else openEnd w c e env

/-- Calls of the four functions; `lru` is what other functions do to the LRU list of a client. -/
inductive Event
  | openFile (c e : ℕ) (flags : UInt16) (env : OpenEnv)
  | openByName (c dir e : ℕ) (flags : UInt16) (env : OpenEnv)
  | close (c e : ℕ) (now : ℤ) (answer : CloseAnswer)
  | gcFd (c : ℕ) (now : ℤ) (answer : ℕ → CloseAnswer)
  | lru (c : ℕ) (items : List LruItem)

/-- One call. -/
def step (w : World) : Event → Option World
  | .openFile c e flags env => some (cacheInodeOpen w c e flags env).1
  | .openByName c dir e flags env => some (cacheInodeOpenByName w c dir e flags env).1
  | .close c e now answer => some (cacheInodeClose w c e now answer).1
  | .gcFd c now answer => some (gcFd w c now answer).1
  | .lru c items => some { w with client := update w.client c { w.client c with lruGc := items } }

/-- `cache_inode_new_entry` made the entries, and no file is open. -/
def Initial (w : World) : Prop :=
  (∀ e, (w.entry e).openFd = { fd := none, fileno := 0, openflags := 0, lastOp := 0 }) ∧
  (∀ d, w.fsal.live d = none) ∧ w.fsal.strayClose = false ∧ w.fsal.lost = false

end Ganesha.CacheInode
