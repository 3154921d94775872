import Ganesha.LRU.Queue
import Ganesha.Library.Transition

/-!
# The asynchronous metadata queue

`mfsl_async_synclet.c` of `MFSL/MFSL_ASYNC`, with the callbacks of `mfsl_async_create.c` and
`mfsl_async_rename.c`: operations are posted to a list, a dispatcher moves those that are old enough
to the lists of the synclets, and each synclet executes the operations of its list. The lists are LRU
lists. The sections under a mutex are steps, and the callback of an operation is one step (it runs under
the locks of its directories). The garbage collection of a synclet runs without `mutex_op_lru`: it
starts in one step and ends in another, and an entry that the dispatcher takes from the list in between
leaves the list in any state. An operation has the number of its posting.
-/

namespace Ganesha.MfslAsync
open Lru (Queue)

/-! ## Callbacks -/

/-- The calls of the FSAL on a namespace with attributes, `none` when they fail. -/
structure Fsal (σ Handle Name Attrs : Type) where
  rename : σ → Handle → Name → Handle → Name → Option σ
  lookup : σ → Handle → Name → Option Handle
  setattrs : σ → Handle → Attrs → Option σ

variable {σ Handle Name Attrs : Type}

/-- `MFSL_create_async_op`. `chown` is what is set if the owner is not root. What was done before a
call that fails stays done. -/
def mfslCreateAsyncOp (fsal : Fsal σ Handle Name Attrs) (dirPrecreate : Handle) (precreateName : Name)
    (dirdest : Handle) (filename : Name) (owner : ℕ) (chown : Attrs) (s : σ) : σ :=
  match fsal.rename s dirPrecreate precreateName dirdest filename with
  | none => s
  | some s =>
    match fsal.lookup s dirdest filename with
    | none => s
    | some handle => if owner ≠ 0 then (fsal.setattrs s handle chown).getD s else s

def mfslRenameAsyncOp (fsal : Fsal σ Handle Name Attrs) (src : Handle) (nameSrc : Name)
    (dirdest : Handle) (nameDest : Name) (s : σ) : σ :=
  (fsal.rename s src nameSrc dirdest nameDest).getD s

/-! ## Threads -/

/-- `mfsl_async_op_desc_t`: `op_time` in microseconds, and what the callback does. -/
structure AsyncOpDesc (σ : Type) where
  opTime : ℤ
  opFunc : σ → σ

/-- The parameters `mfsl_param`. -/
structure Param where
  nbSynclet : ℕ
  asyncWindowSec : ℕ
  asyncWindowUsec : ℕ
  nbBeforeGc : ℕ
  nbCallGcInvalid : UInt32
  nbSynclet_pos : 0 < nbSynclet

/-- Where a synclet stands: at the top of its loop, with an operation found, with that operation
executed, before the garbage collection, and in it. -/
inductive Pc
  | top
  | found (id : ℕ)
  | executed (id : ℕ)
  | collect
  | collecting
  deriving DecidableEq

/-- `mfsl_synclet_data_t`. -/
structure Synclet where
  opLru : Queue ℕ
  passcounter : ℕ
  pc : Pc
  deriving DecidableEq

/-- A synclet without work. -/
def Synclet.init : Synclet := ⟨Queue.empty, 0, .top⟩

/-- Who has `mutex_async_list`: nobody, the dispatcher at an entry of the list with the time it has
read, or a thread that has left `MFSL_async_post` without releasing it. -/
inductive Holder
  | nobody
  | dispatcher (current : ℤ) (entry : ℕ)
  | lost
  deriving DecidableEq

/-- The operations posted, the dispatch list, the threads, the namespace, and the operations executed,
last one last. -/
structure State (σ : Type) where
  posted : List (AsyncOpDesc σ)
  asyncOpLru : Queue ℕ
  mutexAsyncList : Holder
  passcounter : ℕ
  last : ℕ
  synclets : ℕ → Synclet
  fs : σ
  executed : List ℕ

/-- Nothing posted. -/
def initialState (fs : σ) : State σ := ⟨[], Queue.empty, .nobody, 0, 0, fun _ => .init, fs, []⟩

def noValueChoosen : ℕ := 1000000

/-- The `for` of `mfsl_async_choose_synclet`, over the indices in the order in which it looks at
them. -/
def chooseLoop (nbEntry : ℕ → ℕ) : List ℕ → ℕ × ℕ → ℕ × ℕ
  | [], best => best
  | i :: is, (chosen, least) =>
    chooseLoop nbEntry is (if nbEntry i < least then (i, nbEntry i) else (chosen, least))

/-- `mfsl_async_choose_synclet`, `none` when no list is short enough and it looks again. -/
def chooseSynclet (param : Param) (nbEntry : ℕ → ℕ) (last : ℕ) : Option ℕ :=
  let order := (List.range param.nbSynclet).map fun cpt => (last + 1 + cpt) % param.nbSynclet
  let chosen := (chooseLoop nbEntry order (noValueChoosen, noValueChoosen)).1
  if chosen = noValueChoosen then none else some chosen

/-- The test of the dispatcher, on the two fields of `delta`: the operation is out of the asynchronous
window. -/
def aged (param : Param) (current opTime : ℤ) : Bool :=
  let delta := current - opTime
  !(delta / 1000000 < param.asyncWindowSec) && !(delta % 1000000 < param.asyncWindowUsec)

/-- What can happen next: a post, the steps of the dispatcher, the steps of a synclet. `allocOk` is
whether `LRU_new_entry` gets an entry. Of the lists that are being collected the dispatcher reads the
lengths `inGc`, and one that it puts an entry into becomes `raced`. -/
inductive Event (σ : Type)
  | post (desc : AsyncOpDesc σ) (allocOk : Bool)
  | begin (current : ℤ)
  | next (allocOk : Bool) (inGc : ℕ → ℕ) (raced : Queue ℕ)
  | find (i : ℕ)
  | process (i : ℕ)
  | invalidate (i : ℕ)
  | collect (i : ℕ)
  | collected (i : ℕ)

def mfslAsyncPost (s : State σ) (desc : AsyncOpDesc σ) (allocOk : Bool) : State σ :=
  if allocOk then
    { s with
      posted := s.posted ++ [desc]
      asyncOpLru := s.asyncOpLru.newEntry s.posted.length }
  else { s with mutexAsyncList := .lost }

/-- The end of a pass of the dispatcher. -/
def endPass (param : Param) (s : State σ) : State σ :=
  if s.passcounter + 1 > param.nbBeforeGc then
    { s with
      mutexAsyncList := .nobody
      passcounter := 0
      asyncOpLru := s.asyncOpLru.gcInvalid param.nbCallGcInvalid }
  else { s with mutexAsyncList := .nobody, passcounter := s.passcounter + 1 }

/-- Apply a function to a synclet. -/
def State.modify (s : State σ) (i : ℕ) (f : Synclet → Synclet) : State σ :=
  { s with synclets := Function.update s.synclets i (f (s.synclets i)) }

/-- `nb_entry` of the lists of the synclets, as the dispatcher reads it. -/
def nbEntry (s : State σ) (inGc : ℕ → ℕ) (i : ℕ) : ℕ :=
  if (s.synclets i).pc = .collecting then inGc i else (s.synclets i).opLru.entries.length

/-- The operation `id` goes to the synclet `c`, if there is an entry for it. -/
def dispatch (s : State σ) (id c : ℕ) (allocOk : Bool) (raced : Queue ℕ) : State σ :=
  if (s.synclets c).pc = .collecting then
    { s.modify c fun y => { y with opLru := raced } with
      asyncOpLru := if allocOk then s.asyncOpLru.invalidate id else s.asyncOpLru }
  else if allocOk then
    { s.modify c fun y => { y with opLru := y.opLru.newEntry id } with
      asyncOpLru := s.asyncOpLru.invalidate id }
  else s

/-- The loop of the dispatcher at one entry of the list. -/
def dispatchNext (param : Param) (s : State σ) (current : ℤ) (k : ℕ) (allocOk : Bool)
    (inGc : ℕ → ℕ) (raced : Queue ℕ) : Option (State σ) :=
  match s.asyncOpLru.entries[k]? with
  | none => some (endPass param s)
  | some (_, false) => some { s with mutexAsyncList := .dispatcher current (k + 1) }
  | some (id, true) =>
    match s.posted[id]? with
    | none => none
    | some desc =>
      if aged param current desc.opTime then
        (chooseSynclet param (nbEntry s inGc) s.last).map fun c =>
          dispatch { s with last := c, mutexAsyncList := .dispatcher current (k + 1) } id c allocOk
            raced
      else some (endPass param s)

/-- The test before the garbage collection of a synclet. -/
def collectSynclet (param : Param) (y : Synclet) : Synclet :=
  { y with pc := if y.passcounter > param.nbBeforeGc then .collecting else .top }

/-- The end of the garbage collection of a synclet. -/
def collectedSynclet (param : Param) (y : Synclet) : Synclet :=
  { y with opLru := y.opLru.gcInvalid param.nbCallGcInvalid, passcounter := 0, pc := .top }

/-- The callback of a posted operation. -/
def opFuncOf (posted : List (AsyncOpDesc σ)) (id : ℕ) : σ → σ :=
  match posted[id]? with
  | some desc => desc.opFunc
  | none => fun fs => fs

/-- One step. -/
def step (param : Param) (s : State σ) : Event σ → Option (State σ)
  | .post desc allocOk =>
    if s.mutexAsyncList = .nobody then some (mfslAsyncPost s desc allocOk) else none
  | .begin current =>
    if s.mutexAsyncList = .nobody then some { s with mutexAsyncList := .dispatcher current 0 } else none
  | .next allocOk inGc raced =>
    match s.mutexAsyncList with
    | .dispatcher current k => dispatchNext param s current k allocOk inGc raced
    | _ => none
  | .find i =>
    if i < param.nbSynclet ∧ (s.synclets i).pc = .top then
      (s.synclets i).opLru.valid.head?.map fun id => s.modify i fun y => { y with pc := .found id }
    else none
  | .process i =>
    match (s.synclets i).pc with
    | .found id =>
      some { s.modify i fun y => { y with pc := .executed id, passcounter := y.passcounter + 1 } with
        fs := opFuncOf s.posted id s.fs, executed := s.executed ++ [id] }
    | _ => none
  | .invalidate i =>
    match (s.synclets i).pc with
    | .executed id =>
      some (s.modify i fun y => { y with opLru := y.opLru.invalidate id, pc := .collect })
    | _ => none
  | .collect i =>
    if (s.synclets i).pc = .collect then some (s.modify i (collectSynclet param)) else none
  | .collected i =>
    if (s.synclets i).pc = .collecting then some (s.modify i (collectedSynclet param)) else none

end Ganesha.MfslAsync
