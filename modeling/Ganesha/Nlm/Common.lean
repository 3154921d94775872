import Mathlib.Data.Int.Notation
import Mathlib.Data.List.Basic
import Mathlib.Data.Nat.Notation
import Mathlib.Logic.Function.Basic
import Mathlib.Tactic.Common

/-!
# The lock list of NLM

`support/nlm_util.c`: the entries of `nlm_lock_list`, their references, and the asynchronous tasks.
An entry is known by the number of its allocation, so memory that was freed is never mistaken for a
new entry. The allocations of `nlm_lock_entry_t_dup` succeed: the server does not go on after a
failure of one of them.
-/

namespace Ganesha.Nlm

/-- The bytes of a `netobj`. -/
abbrev Netobj := List UInt8

/-- `NLM4_GRANTED` and `NLM4_BLOCKED`, as the state of an entry. -/
inductive LockState
  | granted
  | blocked
  deriving DecidableEq

/-- `nlm_lock_entry_t`, without its reference count. -/
structure Entry where
  callerName : List UInt8
  fh : Netobj
  oh : Netobj
  cookie : Netobj
  svid : Int32
  start : UInt64
  len : UInt64
  state : LockState
  exclusive : Bool
  deriving DecidableEq

/-- `nlm4_lock`. -/
structure Lock where
  callerName : List UInt8
  fh : Netobj
  oh : Netobj
  svid : Int32
  offset : UInt64
  len : UInt64
  deriving DecidableEq

/-- What is read of `nlm4_lockargs`. -/
structure LockArgs where
  cookie : Netobj
  exclusive : Bool
  alock : Lock

/-- What the asynchronous thread has to do: `do_nlm_grant_blocked_locks` for a file handle, and
`nlm4_send_grant_msg` for an entry, at once or after the grace period of the client. -/
inductive Task
  | grantBlocked (fh : Netobj)
  | sendGrant (p : ℕ)
  | resendGrant (p : ℕ)
  deriving DecidableEq

/-- The state of the server; `freed` are the entries that were given back to the allocator. A
`ref_count` is an `int` in the source, the same for fewer than 2^31 references to an entry. -/
structure Server where
  entry : ℕ → Entry
  refCount : ℕ → ℤ
  next : ℕ
  lockList : List ℕ
  freed : List ℕ
  queue : List Task

/-- The end of a range; the length 0 means to the end of the file. -/
def rangeEnd (start len : UInt64) : UInt64 :=
  if len ≠ 0 then start + len else 0xFFFFFFFFFFFFFFFF

/-- The test of two ranges, and that one of the locks is exclusive. -/
def conflicts (e : Entry) (lock : Lock) (exclusive : Bool) : Bool :=
  lock.offset < rangeEnd e.start e.len && e.start < rangeEnd lock.offset lock.len &&
    (e.exclusive || exclusive)

variable (s : Server)

/-! ## References -/

/-- `nlm_lock_entry_inc_ref`. -/
def incRef (p : ℕ) : Server :=
  { s with refCount := Function.update s.refCount p (s.refCount p + 1) }

/-- `nlm_lock_entry_dec_ref`. -/
def decRef (p : ℕ) : Server :=
  { s with
    refCount := Function.update s.refCount p (s.refCount p - 1)
    freed := if s.refCount p - 1 = 0 then p :: s.freed else s.freed }

/-- `do_nlm_remove_from_locklist` of an entry that is in the list. -/
def unlink (p : ℕ) : Server :=
  decRef { s with lockList := s.lockList.erase p } p

/-- `nlm_remove_from_locklist`. For an entry that is not in the list `glist_del` follows the pointer
NULL. -/
def removeFromLocklist (p : ℕ) : Option Server :=
  if p ∈ s.lockList then some (unlink s p) else none

/-- A new entry, with its references. -/
def create (e : Entry) (refs : ℤ) : Server :=
  { s with
    entry := Function.update s.entry s.next e
    refCount := Function.update s.refCount s.next refs
    next := s.next + 1 }

/-! ## Searches -/

/-- `get_nlm_overlapping_entry`; the reference that is taken is the business of the caller. -/
def overlappingEntry (lock : Lock) (exclusive : Bool) : Option ℕ :=
  s.lockList.find? fun p =>
    (s.entry p).fh = lock.fh ∧ (s.entry p).state = .granted ∧
      conflicts (s.entry p) lock exclusive

/-- The entry is the one of this owner on this file. -/
def Entry.sameOwner (e : Entry) (lock : Lock) : Prop :=
  e.callerName = lock.callerName ∧ e.fh = lock.fh ∧ e.oh = lock.oh ∧ e.svid = lock.svid

instance (e : Entry) (lock : Lock) : Decidable (e.sameOwner lock) :=
  inferInstanceAs (Decidable (_ ∧ _))

/-- `nlm_find_lock_entry`. With the state granted only the owner is compared. -/
def findLockEntry (lock : Lock) (exclusive : Bool) : LockState → Option ℕ
  | .granted => s.lockList.find? fun p => (s.entry p).sameOwner lock
  | .blocked => s.lockList.find? fun p =>
      (s.entry p).sameOwner lock ∧ (s.entry p).start = lock.offset ∧ (s.entry p).len = lock.len ∧
        (s.entry p).exclusive = exclusive ∧ (s.entry p).state = .blocked

/-- `nlm_find_lock_entry_by_cookie`. -/
def findLockEntryByCookie (cookie : Netobj) : Option ℕ :=
  s.lockList.find? fun p => (s.entry p).cookie = cookie

/-! ## Changes of the list -/

/-- A blocked request for the same range, of whatever owner. -/
def blockedRequest (arg : LockArgs) : Option ℕ :=
  s.lockList.find? fun p =>
    (s.entry p).fh = arg.alock.fh ∧ (s.entry p).state = .blocked ∧
      (s.entry p).start = arg.alock.offset ∧ (s.entry p).len = arg.alock.len ∧
      (s.entry p).exclusive = arg.exclusive

/-- No entry of the file is in the way, granted or blocked. -/
def allowed (arg : LockArgs) : Prop :=
  ∀ p ∈ s.lockList, (s.entry p).fh = arg.alock.fh →
    ¬ conflicts (s.entry p) arg.alock arg.exclusive

instance (arg : LockArgs) : Decidable (allowed s arg) :=
  inferInstanceAs (Decidable (∀ p ∈ s.lockList, _ → _))

/-- `nlm4_lock_to_nlm_lock_entry`. -/
def LockArgs.toEntry (arg : LockArgs) (state : LockState) : Entry where
  callerName := arg.alock.callerName
  fh := arg.alock.fh
  oh := arg.alock.oh
  cookie := arg.cookie
  svid := arg.alock.svid
  start := arg.alock.offset
  len := arg.alock.len
  state := state
  exclusive := arg.exclusive

/-- `nlm_add_to_locklist`; `allocOk` says that the entry can be allocated. The entry that is returned
has a reference for the caller. -/
def addToLocklist (arg : LockArgs) (allocOk : Bool) : Server × Option ℕ :=
  match blockedRequest s arg with
  | some p => (incRef s p, some p)
  | none =>
    if ¬ allocOk then (s, none)
    else
      let state := if allowed s arg then .granted else .blocked
      let s' := create s (arg.toEntry state) 2
      ({ s' with lockList := s.lockList ++ [s.next] }, some s.next)

/-- What is left of an entry when a range is unlocked, in `do_nlm_delete_lock_entry`; `none` if the
range does not reach it. -/
def pieces (e : Entry) (lock : Lock) : Option (List Entry) :=
  let entryEnd := rangeEnd e.start e.len
  let lockEnd := rangeEnd lock.offset lock.len
  if lockEnd < e.start then none
  else if entryEnd < lock.offset then none
  else if lock.offset ≤ e.start ∧ entryEnd ≤ lockEnd then some []
  else
    some ((if e.start < lock.offset then [{ e with len := lock.offset - e.start }] else []) ++
      (if lockEnd < entryEnd then [{ e with start := lockEnd, len := entryEnd - lockEnd }] else []))

/-- Entries that are allocated one after the other, with one reference each. -/
def createAll : Server → List Entry → Server × List ℕ
  | s, [] => (s, [])
  | s, e :: es =>
    let r := createAll (create s e 1) es
    (r.1, s.next :: r.2)

/-- `do_nlm_delete_lock_entry`; the new entries go to the list of those that were split. -/
def doDeleteLockEntry (lock : Lock) (s : Server) (split : List ℕ) (p : ℕ) : Server × List ℕ :=
  match pieces (s.entry p) lock with
  | none => (s, split)
  | some es =>
    let r := createAll s es
    (unlink r.1 p, split ++ r.2)

/-- The loop of `nlm_delete_lock_entry`. -/
def deleteLoop (lock : Lock) : List ℕ → Server → List ℕ → Server × List ℕ
  | [], s, split => (s, split)
  | p :: ps, s, split =>
    if (s.entry p).sameOwner lock then
      let r := doDeleteLockEntry lock s split p
      deleteLoop lock ps r.1 r.2
    else deleteLoop lock ps s split

/-- `glist_add_list_tail`. A list of one element, whose two neighbours are the same, is taken for an
empty one. -/
def glistAddListTail (list new : List ℕ) : List ℕ :=
  if new.length ≤ 1 then list else list ++ new

/-- `nlm_delete_lock_entry`. -/
def deleteLockEntry (lock : Lock) : Server :=
  let r := deleteLoop lock s.lockList s []
  { r.1 with lockList := glistAddListTail r.1.lockList r.2 }

/-- `nlm_grant_blocked_locks`. When the handle cannot be copied the task is for an empty one. -/
def grantBlockedLocks (fh : Netobj) (copyOk : Bool) : Server :=
  { s with queue := s.queue ++ [.grantBlocked (if copyOk then fh else [])] }

/-- The range of an entry as a request. -/
def Entry.lock (e : Entry) : Lock where
  callerName := e.callerName
  fh := e.fh
  oh := e.oh
  svid := e.svid
  offset := e.start
  len := e.len

/-- An entry is marked as granted, and the message to the client is sent later. -/
def markGranted (p : ℕ) : Server :=
  { incRef s p with
    entry := Function.update s.entry p { s.entry p with state := .granted }
    queue := s.queue ++ [.sendGrant p] }

/-- One blocked entry in `do_nlm_grant_blocked_locks`; `copyOk` says that its handle can be copied. -/
def grantEntry (copyOk : Bool) (p : ℕ) : Server :=
  if ¬ copyOk then unlink s p
  else if (overlappingEntry s (s.entry p).lock (s.entry p).exclusive).isSome then s
  else markGranted s p

/-- The loop of `do_nlm_grant_blocked_locks`. -/
def grantLoop (fh : Netobj) (copyOk : ℕ → Bool) : List ℕ → Server → Server
  | [], s => s
  | p :: ps, s =>
    if (s.entry p).fh = fh ∧ (s.entry p).state = .blocked then
      grantLoop fh copyOk ps (grantEntry s (copyOk p) p)
    else grantLoop fh copyOk ps s

/-- `do_nlm_grant_blocked_locks`. -/
def doGrantBlockedLocks (fh : Netobj) (copyOk : ℕ → Bool) : Server :=
  grantLoop fh copyOk s.lockList s

/-- One entry in `nlm_node_recovery`. -/
def recoverEntry (copyOk : Bool) (p : ℕ) : Server :=
  let removed := unlink (incRef s p) p
  decRef (if (s.entry p).state = .granted then grantBlockedLocks removed (s.entry p).fh copyOk else removed) p

/-- The loop of `nlm_node_recovery`. -/
def recoveryLoop (name : List UInt8) (copyOk : ℕ → Bool) : List ℕ → Server → Server
  | [], s => s
  | p :: ps, s =>
    if (s.entry p).callerName = name then recoveryLoop name copyOk ps (recoverEntry s (copyOk p) p)
    else recoveryLoop name copyOk ps s

/-- `nlm_node_recovery`. -/
def nodeRecovery (name : List UInt8) (copyOk : ℕ → Bool) : Server :=
  recoveryLoop name copyOk s.lockList s

end Ganesha.Nlm
