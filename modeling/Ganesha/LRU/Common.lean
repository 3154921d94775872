import Ganesha.HashTable.Common

/-!
# The LRU list

`LRU/LRU_List.c`: a doubly linked list from the entry `LRU`, the oldest one, to `MRU`. The entries
are in a memory indexed by addresses. A loop gives `none` when it reads through `NULL` or runs out of
fuel.
-/

namespace Ganesha.Lru
open Ganesha.Hash (getPrealloc releasePrealloc)

/-- `LRU_List_state_t`. -/
inductive ValidState
  | blank
  | valid
  | invalid
  deriving DecidableEq

/-- The return codes `LRU_LIST_*`. -/
inductive Status
  | success
  | mallocError
  | emptyList
  | badReleaseEntry
  deriving DecidableEq

/-- `LRU_entry_t`; `pdata` is the pointer of `buffdata`, whose length nobody reads. -/
structure LruEntry where
  next : Option ℕ
  prev : Option ℕ
  validState : ValidState
  pdata : ℕ

/-- `LRU_list_t` with two of its parameters (the functions among them are given to the calls), the
memory of the entries and the arrays of entries that the allocator is going to give. `allocs` counts
the entries taken from the pool; it is not in the source and only bounds the loops. -/
structure LruList where
  lru : Option ℕ
  mru : Option ℕ
  nbEntry : UInt32
  nbInvalid : UInt32
  nbCallGc : UInt32
  nbEntryPrealloc : UInt32
  nbCallGcInvalid : UInt32
  entryPrealloc : List ℕ
  entry : ℕ → LruEntry
  arrays : ℕ → List ℕ
  allocs : ℕ

/-- Assign fields of one entry. -/
def LruList.setEntry (l : LruList) (p : ℕ) (f : LruEntry → LruEntry) : LruList :=
  { l with entry := Function.update l.entry p (f (l.entry p)) }

/-- Assign fields of an entry through a pointer, unless it is `NULL`. -/
def LruList.setEntryAt (l : LruList) (p : Option ℕ) (f : LruEntry → LruEntry) : LruList :=
  match p with
  | some p => l.setEntry p f
  | none => l

/-- `LRU_Init`; `none` when the entries could not be allocated. -/
def lruInit (nbEntryPrealloc nbCallGcInvalid : UInt32) (entry : ℕ → LruEntry)
    (arrays : ℕ → List ℕ) : Option LruList :=
  if (arrays 0).isEmpty then none
  else
    some
      { lru := none
        mru := none
        nbEntry := 0
        nbInvalid := 0
        nbCallGc := 0
        nbEntryPrealloc
        nbCallGcInvalid
        entryPrealloc := arrays 0
        entry
        arrays := fun k => arrays (k + 1)
        allocs := 0 }

def lruInvalidate (l : LruList) (pentry : ℕ) : LruList :=
  if (l.entry pentry).validState ≠ .invalid then
    { l.setEntry pentry fun e => { e with validState := .invalid } with
      nbInvalid := l.nbInvalid + 1 }
  else l

/-- The new entry of `LRU_new_entry` becomes the MRU one; without an `MRU` it is the `LRU` one too. -/
def lruLink (l : LruList) (p : ℕ) : LruList :=
  let l' := l.setEntry p fun e => { e with validState := .valid, next := none, prev := l.mru }
  { l'.setEntryAt l.mru fun e => { e with next := some p } with
    lru := if l.mru = none then some p else l.lru
    nbEntry := l.nbEntry + 1
    nbCallGc := l.nbCallGc + 1
    mru := some p
    allocs := l.allocs + 1 }

def lruNewEntry (l : LruList) : Option ℕ × LruList :=
  match getPrealloc l.nbEntryPrealloc l.entryPrealloc l.arrays with
  | (none, pool, arrays) => (none, { l with entryPrealloc := pool, arrays })
  | (some p, pool, arrays) => (some p, lruLink { l with entryPrealloc := pool, arrays } p)

/-- The loop of `LRU_invalidate_by_function`, from `pentry` on. -/
def lruInvalidateLoop (testfunc : ℕ → Bool) : ℕ → Option ℕ → LruList → Option LruList
  | 0, _, _ => none
  | fuel + 1, pentry, l =>
    if pentry = l.mru then some l
    else match pentry with
      | none => none
      | some p =>
        lruInvalidateLoop testfunc fuel (l.entry p).next
          (if (l.entry p).validState ≠ .invalid ∧ testfunc p then lruInvalidate l p else l)

/-- `LRU_invalidate_by_function`; `testfunc` tells whether it gives `LRU_LIST_SET_INVALID`. -/
def lruInvalidateByFunction (l : LruList) (testfunc : ℕ → Bool) : Option (Status × LruList) :=
  if l.nbEntry = 0 then some (.success, l)
  else match l.mru with
    | none => some (.emptyList, l)
    | some m =>
      if (l.entry m).prev = none then some (.success, l)
      else (lruInvalidateLoop testfunc l.allocs l.lru l).map fun l => (.success, l)

/-- Take an entry out of the list and put it back to the pool. -/
def lruUnlink (l : LruList) (p : ℕ) : LruList :=
  let e := l.entry p
  let l' := l.setEntryAt e.prev fun e' => { e' with next := e.next }
  { l'.setEntryAt e.next fun e' => { e' with prev := e.prev } with
    lru := if e.prev = none then e.next else l.lru
    nbEntry := l.nbEntry - 1
    nbInvalid := l.nbInvalid - 1
    entryPrealloc := releasePrealloc p l.entryPrealloc }

/-- The loop of `LRU_gc_invalid`, from `pentry` on. `cleanEntry` is the parameter `clean_entry`: of the
entry it reads the data, it changes a state of its own and tells whether it succeeds. -/
def lruGcLoop {σ : Type} (cleanEntry : ℕ → σ → Option (Bool × σ)) :
    ℕ → Option ℕ → Status → LruList → σ → Option (Status × LruList × σ)
  | 0, _, _, _, _ => none
  | fuel + 1, pentry, rc, l, s =>
    -- the last entry is never collected
    if pentry = l.mru then some (rc, l, s)
    else match pentry with
      | none => none
      | some p =>
        -- an invalid entry is cleaned up and unlinked
        if (l.entry p).validState = .invalid then
          match cleanEntry (l.entry p).pdata s with
          | none => none
          | some (ok, s) =>
            lruGcLoop cleanEntry fuel (l.entry p).next (if ok then rc else .badReleaseEntry)
              (lruUnlink l p) s
        else lruGcLoop cleanEntry fuel (l.entry p).next rc l s

def lruGcInvalid {σ : Type} (cleanEntry : ℕ → σ → Option (Bool × σ)) (l : LruList) (s : σ) :
    Option (Status × LruList × σ) :=
  if l.nbInvalid = 0 then some (.success, l, s)
  else match l.mru with
    | none => some (.emptyList, l, s)
    | some m =>
      if (l.entry m).prev = none then some (.success, l, s)
      else if l.nbCallGc < l.nbCallGcInvalid then some (.success, l, s)
      else lruGcLoop cleanEntry l.allocs l.lru .success l s

/-- The loop of `LRU_apply_function`, from `pentry` back to the `LRU` entry. `myfunc` changes a state of
its own and tells whether the loop goes on. -/
def lruApplyLoop {σ : Type} (myfunc : ℕ → σ → Bool × σ) (l : LruList) :
    ℕ → Option ℕ → σ → Option σ
  | _, none, s => some s
  | 0, some _, _ => none
  | fuel + 1, some p, s =>
    if (l.entry p).validState ≠ .invalid then
      match myfunc p s with
      | (false, s) => some s
      | (true, s) => lruApplyLoop myfunc l fuel (l.entry p).prev s
    else lruApplyLoop myfunc l fuel (l.entry p).prev s

/-- `LRU_apply_function`; it does not write to the list. -/
def lruApplyFunction {σ : Type} (l : LruList) (myfunc : ℕ → σ → Bool × σ) (s : σ) :
    Option (Status × σ) :=
  if l.nbEntry = 0 then some (.success, s)
  else match l.mru with
    | none => some (.emptyList, s)
    | some m =>
      if (l.entry m).prev = none then some (.success, s)
      else (lruApplyLoop myfunc l l.allocs (l.entry m).prev s).map fun s => (.success, s)

/-- The entries from `pentry` on. -/
def entriesFrom (l : LruList) : ℕ → Option ℕ → List ℕ
  | fuel + 1, some p => p :: entriesFrom l fuel (l.entry p).next
  | _, _ => []

/-- The entries of the list, the `LRU` one first. -/
def entriesOf (l : LruList) : List ℕ :=
  entriesFrom l l.allocs l.lru

end Ganesha.Lru
