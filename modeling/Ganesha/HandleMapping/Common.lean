import Mathlib.Data.List.Perm.Basic
import Mathlib.Logic.Function.Basic
import Ganesha.Library.Transition

/-!
# The handle map of the proxy

`handle_mapping.c` and `handle_mapping_db.c` of `FSAL/FSAL_PROXY/handle_mapping`: a map from the
digests that NFSv2 and NFSv3 clients get to the handles of the proxy, kept in a hash table and, by
threads with a queue each, in databases. The hash table is a map that takes every pair (its functions
are those of `HashTable`), a database is a list of rows, and a database operation is processed in one
step. A section under `queues_mutex` is one step too.
-/

namespace Ganesha.HandleMapping

/-- `nfs23_map_handle_t`. -/
structure Digest where
  objectId : UInt64
  handleHash : UInt32
  deriving DecidableEq

/-- The result codes `HANDLEMAP_…` that the modelled calls return. -/
inductive Status
  | success
  | stale
  | systemError
  | exists
  deriving DecidableEq

variable {Handle Text : Type}

/-- `handle_map_hash`. -/
abbrev HashMap (Handle : Type) := Digest → Option Handle

def handleMappingHashAdd (hash : HashMap Handle) (d : Digest) (h : Handle) :
    HashMap Handle × Status :=
  match hash d with
  | some _ => (hash, .exists)
  | none => (Function.update hash d (some h), .success)

def handleMapGetFH (hash : HashMap Handle) (d : Digest) : Except Status Handle :=
  match hash d with
  | some h => .ok h
  | none => .error .stale

/-- `db_op_item_t` with `INSERT` or `DELETE`. -/
inductive DbOp (Handle : Type)
  | insert (d : Digest) (h : Handle)
  | delete (d : Digest)
  deriving DecidableEq

/-- The digest of an operation. -/
def DbOp.digest : DbOp Handle → Digest
  | .insert d _ => d
  | .delete d => d

/-- The parameters of the map, and the text of a handle in a database. -/
structure Config (Handle Text : Type) where
  nbDbThreads : ℕ
  synchronous : Bool
  snprintHandle : Handle → Text
  sscanHandle : Text → Handle
  nbDbThreads_pos : 0 < nbDbThreads

/-- The status of a thread, without `NOT_READY` and `FINISHED` of its start and its end. -/
inductive ThreadStatus
  | idle
  | working
  deriving DecidableEq

/-- `db_thread_info_t`: the two queues, the operation taken from them, and the rows of the database. -/
structure DbThread (Handle Text : Type) where
  highprio : List (DbOp Handle)
  lowprio : List (DbOp Handle)
  status : ThreadStatus
  toBeDone : Option (DbOp Handle)
  database : List (Digest × Text)
  deriving DecidableEq

variable (cfg : Config Handle Text)

def selectDbQueue (d : Digest) : ℕ :=
  ((d.objectId * 1049) ^^^ d.handleHash.toUInt64).toNat % 2477 % cfg.nbDbThreads

def dbopPush (t : DbThread Handle Text) (op : DbOp Handle) : DbThread Handle Text :=
  match op with
  | .insert _ _ => { t with highprio := t.highprio ++ [op] }
  | .delete _ => { t with lowprio := t.lowprio ++ [op] }

/-- The section at the top of the loop of `database_worker_thread`. -/
def dequeue (t : DbThread Handle Text) : DbThread Handle Text :=
  match t.highprio, t.lowprio with
  | op :: rest, _ => { t with highprio := rest, status := .working, toBeDone := some op }
  | [], op :: rest => { t with lowprio := rest, status := .working, toBeDone := some op }
  | [], [] => { t with status := .idle }

/-- `db_insert_operation` and `db_delete_operation`. The primary key is the digest, so that an
insertion fails if there is a row for it. -/
def process (database : List (Digest × Text)) : DbOp Handle → List (Digest × Text)
  | .insert d h =>
    if d ∈ database.map Prod.fst then database else database ++ [(d, cfg.snprintHandle h)]
  | .delete d => database.filter fun row => row.1 ≠ d

/-- `db_load_operation` of all the threads at once, for their rows in the order in which they add
them. -/
def reload (rows : List (Digest × Text)) : HashMap Handle :=
  rows.foldl (fun hash row => (handleMappingHashAdd hash row.1 (cfg.sscanHandle row.2)).1) fun _ => none

/-- The hash table, the threads, the thread that `handlemap_db_flush` waits for, and whether it has
returned and no call was made since. -/
structure State (Handle Text : Type) where
  hash : HashMap Handle
  threads : ℕ → DbThread Handle Text
  flushing : Option ℕ
  flushed : Bool

/-- A thread that waits for work. -/
def idleThread (database : List (Digest × Text)) : DbThread Handle Text := ⟨[], [], .idle, none, database⟩

/-- After `HandleMap_Init` with new databases. -/
def initialState : State Handle Text := ⟨fun _ => none, fun _ => idleThread [], none, false⟩

/-- Apply a function to a thread. -/
def State.modify (s : State Handle Text) (i : ℕ) (f : DbThread Handle Text → DbThread Handle Text) :
    State Handle Text :=
  { s with threads := Function.update s.threads i (f (s.threads i)) }

/-- `handlemap_db_insert`. `allocOk` is whether an operation can be allocated. -/
def handlemapDbInsert (s : State Handle Text) (d : Digest) (h : Handle) (allocOk : Bool) :
    State Handle Text × Status :=
  -- synchronous insertion is not supported yet
  if cfg.synchronous then (s, .success)
  else if allocOk then (s.modify (selectDbQueue cfg d) (dbopPush · (.insert d h)), .success)
  else (s, .systemError)

def handlemapDbDelete (s : State Handle Text) (d : Digest) (allocOk : Bool) :
    State Handle Text × Status :=
  if allocOk then (s.modify (selectDbQueue cfg d) (dbopPush · (.delete d)), .success)
  else (s, .systemError)

def handleMapSetFH (s : State Handle Text) (d : Digest) (h : Handle) (allocOk : Bool) :
    State Handle Text × Status :=
  match handleMappingHashAdd s.hash d h with
  | (hash, .success) => handlemapDbInsert cfg { s with hash := hash } d h allocOk
  | (_, status) => (s, status)

def handleMapDelFH (s : State Handle Text) (d : Digest) (allocOk : Bool) :
    State Handle Text × Status :=
  match s.hash d with
  | none => (s, .stale)
  | some _ => handlemapDbDelete cfg { s with hash := Function.update s.hash d none } d allocOk

/-- What can happen next. `wait` is a return from `wait_thread_jobs_finished`, or from
`handlemap_db_flush` after the last one. A restart is made after a flush and adds the rows of the
databases in some order. -/
inductive Event (Handle Text : Type)
  | setFH (d : Digest) (h : Handle) (allocOk : Bool)
  | delFH (d : Digest) (allocOk : Bool)
  | flush
  | wait
  | dequeue (i : ℕ)
  | process (i : ℕ)
  | restart (rows : List (Digest × Text))
  deriving DecidableEq

/-- The condition that `wait_thread_jobs_finished` waits for. -/
def DbThread.finished (t : DbThread Handle Text) : Prop :=
  t.highprio = [] ∧ t.lowprio = [] ∧ t.status ≠ .working

instance [DecidableEq Handle] (t : DbThread Handle Text) : Decidable t.finished :=
  inferInstanceAs (Decidable (_ ∧ _ ∧ _))

/-- The rows of all databases. -/
def State.rows (s : State Handle Text) : List (Digest × Text) :=
  (List.range cfg.nbDbThreads).flatMap fun i => (s.threads i).database

variable [DecidableEq Handle] [DecidableEq Text]

/-- One step. The calls are made one after another, so none is made during a flush. -/
def step (s : State Handle Text) : Event Handle Text → Option (State Handle Text)
  | .setFH d h allocOk =>
    if s.flushing = none then some { (handleMapSetFH cfg s d h allocOk).1 with flushed := false }
    else none
  | .delFH d allocOk =>
    if s.flushing = none then some { (handleMapDelFH cfg s d allocOk).1 with flushed := false }
    else none
  | .flush => if s.flushing = none then some { s with flushing := some 0, flushed := false } else none
  | .wait => s.flushing.bind fun i =>
    if i < cfg.nbDbThreads then
      if (s.threads i).finished then some { s with flushing := some (i + 1) } else none
    else some { s with flushing := none, flushed := true }
  | .dequeue i =>
    if i < cfg.nbDbThreads ∧ (s.threads i).toBeDone = none then some (s.modify i dequeue) else none
  | .process i => (s.threads i).toBeDone.map fun op =>
    s.modify i fun t => { t with toBeDone := none, database := process cfg t.database op }
  | .restart rows =>
    if s.flushed ∧ rows.Perm (s.rows cfg) then
      some ⟨reload cfg rows, fun i => idleThread (s.threads i).database, none, false⟩
    else none

end Ganesha.HandleMapping
