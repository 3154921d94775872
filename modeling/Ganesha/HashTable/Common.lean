import Ganesha.Rbt.Common

/-!
# The hash table

`HashTable/HashTable.c` over the red-black trees of `Rbt`. All trees of a table lie in one memory of
nodes, and the pairs of buffers they point to in one memory of `hash_data_t`; the pools are lists.
A call gives `none` when a loop runs out of fuel, a `NULL` is dereferenced or an array is read
outside of its bounds. The locks are left out: the calls here are made one after the other.
-/

namespace Ganesha.Hash
open Ganesha.Rbt

/-! ## Pools -/

section Pools
variable {α : Type}

/-- `GET_PREALLOC`. `arrays` are the arrays that the allocator gives to the next calls of
`STUFF_PREALLOC`, each as the list of its elements; the empty list is `NULL`. Gives the entry, the
pool and the arrays to come. -/
def getPrealloc (nb : UInt32) (pool : List α) (arrays : ℕ → List α) :
    Option α × List α × (ℕ → List α) :=
  let (pool, arrays) :=
    if pool.isEmpty ∧ nb ≠ 0 then (arrays 0, fun k => arrays (k + 1)) else (pool, arrays)
  (pool.head?, pool.tail, arrays)

def releasePrealloc (entry : α) (pool : List α) : List α := entry :: pool

end Pools

/-! ## The table -/

/-- The return codes of `include/HashTable.h` that the functions below use. -/
inductive Rc
  | success
  | insertMallocError
  | errorNoSuchKey
  | errorKeyAlreadyExists
  | errorInvalidArgument
  deriving DecidableEq

/-- `hashtable_set_how_t`. -/
inductive SetHow
  | testOnly
  | setOverwrite
  | setNoOverwrite
  deriving DecidableEq

/-- `hash_parameter_t`, less what only the predefined hash functions and the display use. A buffer
of type `κ` is a key with the bytes it points to. -/
structure HashParameter (κ : Type) where
  indexSize : UInt32
  nbNodePrealloc : UInt32
  hashFuncKey : κ → UInt64
  hashFuncRbt : κ → UInt64
  compareKey : κ → κ → ℤ

/-- `hash_data_t`. -/
structure HashData (κ ν : Type) where
  buffval : ν
  buffkey : κ

/-- `hash_stat_op_t`. -/
structure HashStatOp where
  nbSet : UInt32 := 0
  nbTest : UInt32 := 0
  nbGet : UInt32 := 0
  nbDel : UInt32 := 0

/-- `hash_stat_dynamic_t`. -/
structure HashStatDynamic where
  nbEntries : UInt32 := 0
  ok : HashStatOp := {}
  err : HashStatOp := {}
  notfound : HashStatOp := {}

/-- `hash_table_t` with the memory it lives in: `node` and `pdata` hold the nodes and the
`hash_data_t`, `nodeArrays` and `pdataArrays` what the allocator is going to answer. -/
structure HashTable (κ ν ι δ : Type) where
  parameter : HashParameter κ
  statDynamic : ℕ → HashStatDynamic
  arrayRbt : ℕ → RbtHead ι
  nodePrealloc : ℕ → List ι
  pdataPrealloc : ℕ → List δ
  node : ι → RbtNode ι δ
  pdata : δ → HashData κ ν
  nodeArrays : ℕ → List ι
  pdataArrays : ℕ → List δ

variable {κ ν ι δ : Type}

/-- The memory in which a table is made, with the answers of the allocator. -/
structure Memory (κ ν ι δ : Type) where
  node : ι → RbtNode ι δ
  pdata : δ → HashData κ ν
  nodeArrays : ℕ → List ι
  pdataArrays : ℕ → List δ

/-- `HashTable_Init`; `none` when an array of nodes or of data could not be allocated. -/
def hashTableInit (hparam : HashParameter κ) (mem : Memory κ ν ι δ) : Option (HashTable κ ν ι δ) :=
  let n := hparam.indexSize.toNat
  if ∀ i < n, ¬ (mem.nodeArrays i).isEmpty ∧ ¬ (mem.pdataArrays i).isEmpty then
    some
      { parameter := hparam
        statDynamic := fun _ => {}
        arrayRbt := fun _ => rbtHeadInit
        nodePrealloc := mem.nodeArrays
        pdataPrealloc := mem.pdataArrays
        node := mem.node
        pdata := mem.pdata
        nodeArrays := fun k => mem.nodeArrays (n + k)
        pdataArrays := fun k => mem.pdataArrays (n + k) }
  else none

/-- `unsigned int hashval = hash_func_key(..)`. -/
def HashParameter.hashval (p : HashParameter κ) (buffkey : κ) : ℕ :=
  (p.hashFuncKey buffkey).toUInt32.toNat

/-- `int rbt_value = hash_func_rbt(..)`. -/
def HashParameter.rbtValue (p : HashParameter κ) (buffkey : κ) : ℤ :=
  (p.hashFuncRbt buffkey).toUInt32.toInt32.toInt

/-- The red-black tree with the index `hashval`. -/
def HashTable.rbt (ht : HashTable κ ν ι δ) (hashval : ℕ) : RbTree ι δ :=
  ⟨ht.arrayRbt hashval, ht.node⟩

/-- Write back the red-black tree with the index `hashval`. -/
def HashTable.setRbt (ht : HashTable κ ν ι δ) (hashval : ℕ) (t : RbTree ι δ) : HashTable κ ν ι δ :=
  { ht with arrayRbt := Function.update ht.arrayRbt hashval t.head, node := t.mem }

/-- Change the statistics of one index. -/
def HashTable.count (ht : HashTable κ ν ι δ) (hashval : ℕ)
    (f : HashStatDynamic → HashStatDynamic) : HashTable κ ν ι δ :=
  { ht with statDynamic := Function.update ht.statDynamic hashval (f (ht.statDynamic hashval)) }

section Calls
variable [DecidableEq ι] [DecidableEq δ]

/-- The loop of `Key_Locate` over the nodes with one value. -/
def keyLocateLoop (ht : HashTable κ ν ι δ) (t : RbTree ι δ) (buffkey : κ) (rbtValue : ℤ) :
    ℕ → Option ι → Option (Option ι)
  | 0, _ => none
  | _ + 1, none => some none
  | fuel + 1, some pn =>
    if (t.mem pn).rbtValue = rbtValue then
      if ht.parameter.compareKey buffkey (ht.pdata (t.mem pn).rbtOpaq).buffkey = 0 then
        some (some pn)
      else (rbtIncrement t pn).bind (keyLocateLoop ht t buffkey rbtValue fuel)
    else some none

/-- `Key_Locate`: the node of the key, `some none` for `HASHTABLE_ERROR_NO_SUCH_KEY`. -/
def keyLocate (ht : HashTable κ ν ι δ) (buffkey : κ) (hashval : ℕ) (rbtValue : ℤ) :
    Option (Option ι) :=
  let t := ht.rbt hashval
  (rbtFindLeft t rbtValue).bind fun pn =>
    keyLocateLoop ht t buffkey rbtValue (t.head.rbtNumNode + 1) pn

/-- `pdata->buffval = *buffval; pdata->buffkey = *buffkey;` and the statistics of a set. -/
def HashTable.store (ht : HashTable κ ν ι δ) (hashval : ℕ) (pdata : δ) (buffkey : κ)
    (buffval : ν) : HashTable κ ν ι δ :=
  { ht with pdata := Function.update ht.pdata pdata ⟨buffval, buffkey⟩ }.count hashval fun s =>
    { s with nbEntries := s.nbEntries + 1, ok.nbSet := s.ok.nbSet + 1 }

/-- The branch of `HashTable_Test_And_Set` that adds a node. -/
def hashTableInsert (ht : HashTable κ ν ι δ) (buffkey : κ) (buffval : ν) (hashval : ℕ)
    (rbtValue : ℤ) : Option (Rc × HashTable κ ν ι δ) :=
  (rbtFind (ht.rbt hashval) rbtValue).bind fun pn =>
    let (qn, pool, arrays) :=
      getPrealloc ht.parameter.nbNodePrealloc (ht.nodePrealloc hashval) ht.nodeArrays
    let ht := { ht with
      nodePrealloc := Function.update ht.nodePrealloc hashval pool
      nodeArrays := arrays }
    let failed (ht : HashTable κ ν ι δ) := ht.count hashval fun s =>
      { s with err.nbSet := s.err.nbSet + 1 }
    -- no node left: an insertion error is counted
    match qn with
    | none => some (.insertMallocError, failed ht)
    | some qn =>
      let (pdata, pool, arrays) :=
        getPrealloc ht.parameter.nbNodePrealloc (ht.pdataPrealloc hashval) ht.pdataArrays
      let ht := { ht with
        pdataPrealloc := Function.update ht.pdataPrealloc hashval pool
        pdataArrays := arrays }
      match pdata with
      -- no data left: the node is not given back
      | none => some (.insertMallocError, failed ht)
      | some pdata =>
        let t := (ht.rbt hashval).modify qn fun n =>
          { n with rbtOpaq := pdata, rbtValue := rbtValue }
        (rbtInsert t qn pn).map fun t =>
          (.success, (ht.setRbt hashval t).store hashval pdata buffkey buffval)

/-- `HashTable_Test_And_Set` once the arguments have been checked. -/
def hashTableTestAndSetAt (ht : HashTable κ ν ι δ) (buffkey : κ) (buffval : ν) (how : SetHow)
    (hashval : ℕ) (rbtValue : ℤ) : Option (Rc × HashTable κ ν ι δ) :=
  (keyLocate ht buffkey hashval rbtValue).bind fun
    | some pn => match how with
      | .testOnly =>
        some (.success, ht.count hashval fun s => { s with ok.nbTest := s.ok.nbTest + 1 })
      | .setNoOverwrite =>
        some (.errorKeyAlreadyExists,
          ht.count hashval fun s => { s with err.nbTest := s.err.nbTest + 1 })
      | .setOverwrite =>
        -- the data are replaced, and the entry is counted once more
        some (.success, ht.store hashval (ht.node pn).rbtOpaq buffkey buffval)
    | none => match how with
      | .testOnly =>
        some (.errorNoSuchKey,
          ht.count hashval fun s => { s with notfound.nbTest := s.notfound.nbTest + 1 })
      | _ => hashTableInsert ht buffkey buffval hashval rbtValue

/-- What a call hands back: the code and the buffers it fills. -/
structure Answer (κ ν : Type) where
  rc : Rc
  key : Option κ := none
  val : Option ν := none

/-- `HashTable_Test_And_Set`; a buffer is `none` when the pointer to it is `NULL`. -/
def hashTableTestAndSet (ht : HashTable κ ν ι δ) (buffkey : Option κ) (buffval : Option ν)
    (how : SetHow) : Option (Answer κ ν × HashTable κ ν ι δ) :=
  match buffkey, buffval with
  | some buffkey, some buffval =>
    let hashval := ht.parameter.hashval buffkey
    if hashval < ht.parameter.indexSize.toNat then
      (hashTableTestAndSetAt ht buffkey buffval how hashval (ht.parameter.rbtValue buffkey)).map
        fun (rc, ht) => ({ rc := rc }, ht)
    else none
  | _, _ => some ({ rc := .errorInvalidArgument }, ht)

/-- `HashTable_Get`; `buffval` tells that the pointer to the buffer to fill is not `NULL`. -/
def hashTableGet (ht : HashTable κ ν ι δ) (buffkey : Option κ) (buffval : Bool) :
    Option (Answer κ ν × HashTable κ ν ι δ) :=
  match buffkey, buffval with
  | some buffkey, true =>
    let hashval := ht.parameter.hashval buffkey
    if hashval < ht.parameter.indexSize.toNat then
      (keyLocate ht buffkey hashval (ht.parameter.rbtValue buffkey)).map fun
        | none => ({ rc := .errorNoSuchKey },
            ht.count hashval fun s => { s with notfound.nbGet := s.notfound.nbGet + 1 })
        | some pn => ({ rc := .success, val := some (ht.pdata (ht.node pn).rbtOpaq).buffval },
            ht.count hashval fun s => { s with ok.nbGet := s.ok.nbGet + 1 })
    else none
  | _, _ => some ({ rc := .errorInvalidArgument }, ht)

/-- The end of `HashTable_Del`, once the node has been found. -/
def hashTableUnlink (ht : HashTable κ ν ι δ) (hashval : ℕ) (pn : ι) :
    Option (HashTable κ ν ι δ) :=
  let pdata := (ht.node pn).rbtOpaq
  (rbtUnlink (ht.rbt hashval) pn).map fun t =>
    let ht := ht.setRbt hashval t
    { ht with
      pdataPrealloc := Function.update ht.pdataPrealloc hashval
        (releasePrealloc pdata (ht.pdataPrealloc hashval))
      nodePrealloc := Function.update ht.nodePrealloc hashval
        (releasePrealloc pn (ht.nodePrealloc hashval)) }.count hashval fun s =>
          { s with nbEntries := s.nbEntries - 1, ok.nbDel := s.ok.nbDel + 1 }

/-- `HashTable_Del`; `usedbuffkey` and `usedbuffdata` tell that the pointers to the buffers to fill
are not `NULL`. -/
def hashTableDel (ht : HashTable κ ν ι δ) (buffkey : Option κ) (usedbuffkey usedbuffdata : Bool) :
    Option (Answer κ ν × HashTable κ ν ι δ) :=
  match buffkey with
  | some buffkey =>
    let hashval := ht.parameter.hashval buffkey
    if hashval < ht.parameter.indexSize.toNat then
      (keyLocate ht buffkey hashval (ht.parameter.rbtValue buffkey)).bind fun
        | none => some ({ rc := .errorNoSuchKey },
            ht.count hashval fun s => { s with notfound.nbDel := s.notfound.nbDel + 1 })
        | some pn =>
          -- the data are read before the node is unlinked
          let data := ht.pdata (ht.node pn).rbtOpaq
          (hashTableUnlink ht hashval pn).map fun ht =>
            ({ rc := .success
               key := if usedbuffkey then some data.buffkey else none
               val := if usedbuffdata then some data.buffval else none }, ht)
    else none
  | none => some ({ rc := .errorInvalidArgument }, ht)

/-! ## Statistics -/

/-- `hash_stat_computed_t`. -/
structure HashStatComputed where
  minRbtNumNode : UInt32
  maxRbtNumNode : UInt32
  averageRbtNumNode : UInt32

/-- `hash_stat_t`. -/
structure HashStat where
  dynamic : HashStatDynamic
  computed : HashStatComputed

/-- The sum of the counters of two indices. -/
def HashStatOp.add (a b : HashStatOp) : HashStatOp :=
  ⟨a.nbSet + b.nbSet, a.nbTest + b.nbTest, a.nbGet + b.nbGet, a.nbDel + b.nbDel⟩

/-- What `HashTable_GetStats` adds for one index. -/
def HashStat.addIndex (hstat : HashStat) (s : HashStatDynamic) (rbtNumNode : UInt32) : HashStat where
  dynamic := ⟨hstat.dynamic.nbEntries + s.nbEntries, hstat.dynamic.ok.add s.ok, hstat.dynamic.err.add s.err,
    hstat.dynamic.notfound.add s.notfound⟩
  computed :=
    { minRbtNumNode := if rbtNumNode < hstat.computed.minRbtNumNode then rbtNumNode
        else hstat.computed.minRbtNumNode
      maxRbtNumNode := if hstat.computed.maxRbtNumNode < rbtNumNode then rbtNumNode
        else hstat.computed.maxRbtNumNode
      averageRbtNumNode := hstat.computed.averageRbtNumNode + rbtNumNode }

def hashTableGetStats (ht : HashTable κ ν ι δ) : HashStat :=
  let hstat : HashStat := (List.range ht.parameter.indexSize.toNat).foldl (fun hstat i =>
    hstat.addIndex (ht.statDynamic i) (UInt32.ofNat (ht.arrayRbt i).rbtNumNode)) ⟨{}, ⟨(1 : UInt32) <<< 31, 0, 0⟩⟩
  { hstat with computed.averageRbtNumNode :=
      hstat.computed.averageRbtNumNode / ht.parameter.indexSize }

def hashTableGetSize (ht : HashTable κ ν ι δ) : UInt32 :=
  (List.range ht.parameter.indexSize.toNat).foldl
    (fun nbEntries i => nbEntries + (ht.statDynamic i).nbEntries) 0

/-! ## Sequences of calls -/

/-- The calls. -/
inductive Op (κ ν : Type)
  | testAndSet (buffkey : Option κ) (buffval : Option ν) (how : SetHow)
  | get (buffkey : Option κ) (buffval : Bool)
  | del (buffkey : Option κ) (usedbuffkey usedbuffdata : Bool)

/-- One call. -/
def step (ht : HashTable κ ν ι δ) : Op κ ν → Option (Answer κ ν × HashTable κ ν ι δ)
  | .testAndSet buffkey buffval how => hashTableTestAndSet ht buffkey buffval how
  | .get buffkey buffval => hashTableGet ht buffkey buffval
  | .del buffkey usedbuffkey usedbuffdata => hashTableDel ht buffkey usedbuffkey usedbuffdata

/-- The answers to a sequence of calls. -/
def run (ht : HashTable κ ν ι δ) : List (Op κ ν) → Option (List (Answer κ ν) × HashTable κ ν ι δ)
  | [] => some ([], ht)
  | op :: ops => (step ht op).bind fun (answer, ht) =>
    (run ht ops).map fun (answers, ht) => (answer :: answers, ht)

end Calls

end Ganesha.Hash
