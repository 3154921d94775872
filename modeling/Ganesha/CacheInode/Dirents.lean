import Mathlib.Logic.Function.Basic
import Mathlib.Data.List.FinRange
import Ganesha.CacheInode.Common
import Ganesha.CacheInode.Readdir

/-!
# Cached directories

The functions of `Cache_inode/cache_inode_readdir.c` that change the dirents of a directory, with
`cache_inode_kill_entry` of `Cache_inode/cache_inode_misc.c`. A directory is a `DIR_BEGINNING` entry
and the `DIR_CONTINUE` entries along `pdir_cont`. A `DIR_CONTINUE` belongs to one directory and stays
at its place in the chain as long as it lives, so a node is known by its directory and its position;
the position of the `DIR_BEGINNING` is 0.

A call gives `none` when it reads through `NULL`. What the calls of other parts of the server answer
is given to a function as its environment.
-/

namespace Ganesha.CacheInode.Dirents
open Readdir (childrenArraySize)

abbrev Name := List UInt8

/-- A status with which `cache_inode_new_entry` gives `NULL`. -/
abbrev Failure := { status : Status // status ≠ .success ∧ status ≠ .entryExists }

/-- The index of a dirent in the array of its node. -/
abbrev Slot := Fin childrenArraySize

instance : NeZero childrenArraySize := ⟨by decide⟩

/-- `cache_inode_dir_entry_t`: `active` is true for `VALID`. -/
structure Dirent where
  active : Bool
  pentry : Option ℕ
  name : Name

/-- What a `DIR_BEGINNING` and a `DIR_CONTINUE` have in common. -/
structure Node where
  dirEntries : Slot → Dirent
  nbactive : UInt32
  endOfDir : Bool
  dirContPos : ℕ

/-- `cache_inode_parent_entry_t`. -/
structure ParentEntry where
  parent : ℕ
  node : ℕ
  subdirpos : Slot
  deriving DecidableEq

/-- What is read of `cache_entry_t`. `nodes` are those of a directory, in the order of `pdir_cont`;
`allocated` says that the entry is not in the pool. -/
structure Entry where
  allocated : Bool
  type : FileType
  validState : Bool
  parentList : List ParentEntry
  nodes : List Node
  hasBeenReaddir : Bool
  pdirLast : ℕ
  nbdircont : UInt32

/-- The entries, by their addresses. -/
abbrev Cache := ℕ → Entry

/-- Assign fields of one entry. -/
def Cache.modify (c : Cache) (e : ℕ) (f : Entry → Entry) : Cache := Function.update c e (f (c e))

/-- Assign fields of one node of a directory. -/
def Cache.modifyNode (c : Cache) (dir pos : ℕ) (f : Node → Node) : Cache :=
  c.modify dir fun d => { d with nodes := d.nodes.modify pos f }

/-- Assign fields of one dirent of a node. -/
def Node.modifySlot (n : Node) (i : Slot) (f : Dirent → Dirent) : Node :=
  { n with dirEntries := Function.update n.dirEntries i (f (n.dirEntries i)) }

/-- The first dirent of the array with a property. -/
def Node.findSlot (n : Node) (P : Dirent → Bool) : Option Slot :=
  (List.finRange childrenArraySize).find? fun i => P (n.dirEntries i)

/-- A node as `cache_inode_new_entry` makes it. -/
def Node.new (pos : ℕ) : Node where
  dirEntries _ := ⟨false, none, []⟩
  nbactive := 0
  endOfDir := true
  dirContPos := pos

/-- An entry as `cache_inode_new_entry` makes it. -/
def Entry.new (type : FileType) : Entry where
  allocated := true
  type := type
  validState := true
  parentList := []
  nodes := if type = .dirBeginning then [Node.new 0] else []
  hasBeenReaddir := false
  pdirLast := 0
  nbdircont := 0

/-! ## Adding a dirent -/

/-- The first slot that is not used, unless the node counts as full. -/
def Node.emptySlot (n : Node) : Option Slot :=
  if n.nbactive ≠ UInt32.ofNat childrenArraySize then
    n.findSlot fun d => !d.active || d.pentry.isNone
  else none

/-- How the loop that looks for an empty slot ends: at a slot, or at the last node. -/
inductive AddScan
  | slot (pos : ℕ) (i : Slot)
  | full (pos : ℕ)

/-- The loop of `cache_inode_add_cached_dirent` over the chain, from the position `pos`. -/
def addScan : ℕ → List Node → Option AddScan
  | _, [] => none
  | pos, n :: rest => match n.emptySlot with
    | some i => some (.slot pos i)
    | none => if n.endOfDir then some (.full pos) else addScan (pos + 1) rest

/-- What the calls made for one dirent answer: whether a new `DIR_CONTINUE` is made (if one is
needed), whether there is a `cache_inode_parent_entry_t`, and whether `FSAL_namecpy` succeeds. No
entry with the key of the new `DIR_CONTINUE` is in the hash table while `pdir_cont` is `NULL`. -/
structure AddEnv where
  newDirCont : Option Failure
  parentEntry : Bool
  namecpy : Bool

/-- The node at `pos` is followed by a `DIR_CONTINUE`, the one that there is or a new one. -/
def chainDirCont (c : Cache) (dir pos : ℕ) (env : AddEnv) : Except Status Cache :=
  let chained (d : Entry) : Entry :=
    { d with
      nodes := d.nodes.modify pos fun n => { n with endOfDir := false }
      pdirLast := pos + 1
      nbdircont := d.nbdircont + 1 }
  if pos + 1 < (c dir).nodes.length then .ok (c.modify dir chained)
  else match env.newDirCont with
    | some err => .error err.1
    | none => .ok ((c.modify dir fun d =>
        { d with nodes := d.nodes ++
            [Node.new (((d.nodes[pos]?).map Node.dirContPos).getD 0 + 1)] }).modify dir chained)

/-- The dirent is written into the slot, and the entry is linked to the node. -/
def addAt (c : Cache) (dir pos : ℕ) (i : Slot) (name : Name) (added : ℕ) (env : AddEnv) :
    Status × Option ℕ × Cache :=
  if ¬ env.parentEntry then (.mallocError, none, c)
  else
    let c := c.modifyNode dir pos fun n =>
      { n.modifySlot i fun d => { d with active := true, pentry := some added } with
        nbactive := n.nbactive + 1 }
    if ¬ env.namecpy then
      (.fsalError, none, c.modifyNode dir pos fun n => { n with nbactive := n.nbactive - 1 })
    else
      let c := c.modifyNode dir pos fun n => n.modifySlot i fun d => { d with name := name }
      (.success, some pos,
        c.modify added fun e => { e with parentList := ⟨dir, pos, i⟩ :: e.parentList })

/-- `cache_inode_add_cached_dirent`, called with the node `node` of `dir`; the second result is
`*ppentry_next`, where it is assigned. -/
def cacheInodeAddCachedDirent (c : Cache) (dir node : ℕ) (name : Name) (added : ℕ) (env : AddEnv) :
    Option (Status × Option ℕ × Cache) :=
  if (c dir).type ≠ .dirBeginning then some (.badType, none, c)
  else (addScan node ((c dir).nodes.drop node)).map fun
    | .slot pos i => addAt c dir pos i name added env
    | .full pos => match chainDirCont c dir pos env with
      | .error status => (status, none, c)
      | .ok c => addAt c dir (pos + 1) 0 name added env

/-! ## Invalidating all dirents -/

/-- All dirents of a node become `INVALID`. -/
def Node.invalidate (n : Node) : Node :=
  { n with dirEntries := fun i => { n.dirEntries i with active := false }, nbactive := 0 }

def cacheInodeInvalidateAllCachedDirent (c : Cache) (dir : ℕ) : Status × Cache :=
  if (c dir).type ≠ .dirBeginning then (.badType, c)
  else (.success, c.modify dir fun d =>
    { d with
      nodes := (d.nodes.map Node.invalidate).modify 0 fun n => { n with endOfDir := true }
      hasBeenReaddir := false })

/-! ## Looking for a name -/

/-- The loop over the chain that stops at the first dirent with a property, or at the last node. -/
def scan (P : Dirent → Bool) : ℕ → List Node → Option (Option (ℕ × Slot))
  | _, [] => none
  | pos, n :: rest => match n.findSlot P with
    | some i => some (some (pos, i))
    | none => if n.endOfDir then some none else scan P (pos + 1) rest

/-- The test of `cache_inode_operate_cached_dirent`. -/
def Dirent.operateTest (c : Cache) (name : Name) (d : Dirent) : Bool :=
  d.active && d.pentry.any (fun p => (c p).validState) && d.name = name

/-- The test of `cache_inode_lookup_sw`. -/
def Dirent.lookupTest (name : Name) (d : Dirent) : Bool := d.active && d.name = name

/-- The loop of `cache_inode_lookup_sw` over the dirents of the directory. It goes on to the next node
before it sees that it has found an entry, which makes no difference. -/
def lookupCachedDirent (c : Cache) (dir : ℕ) (name : Name) : Option (Option (ℕ × Slot)) :=
  scan (Dirent.lookupTest name) 0 (c dir).nodes

/-- `cache_inode_dirent_op_t`. -/
inductive DirentOp
  | lookup
  | rename (newname : Name) (namecpy : Option FsalError)
  | remove

/-- What is done with the dirent that was found. -/
def operateAt (c : Cache) (dir pos : ℕ) (i : Slot) : DirentOp → Status × Cache
  -- there is no case for LOOKUP
  | .lookup => (.invalidArgument, c)
  | .rename newname namecpy => match namecpy with
    | some err => (errorConvert err, c)
    | none => (.success, c.modifyNode dir pos fun n =>
        n.modifySlot i fun d => { d with name := newname })
  | .remove => (.success, c.modifyNode dir pos fun n =>
      { n.modifySlot i fun d => { d with active := false } with nbactive := n.nbactive - 1 })

/-- `cache_inode_operate_cached_dirent`: the entry that was found, the status and the cache. -/
def cacheInodeOperateCachedDirent (c : Cache) (dir : ℕ) (name : Name) (op : DirentOp) :
    Option (Option ℕ × Status × Cache) :=
  if (c dir).type ≠ .dirBeginning then some (none, .badType, c)
  else (scan (Dirent.operateTest c name) 0 (c dir).nodes).bind fun
    | none => some (none, .notFound, c)
    | some (pos, i) => ((c dir).nodes[pos]?).map fun n =>
      ((n.dirEntries i).pentry, operateAt c dir pos i op)

/-- `cache_inode_remove_cached_dirent`. The link that is taken from the entry is the first one to any
node of the directory. -/
def cacheInodeRemoveCachedDirent (c : Cache) (dir : ℕ) (name : Name) : Option (Status × Cache) :=
  if (c dir).type ≠ .dirBeginning then some (.badType, c)
  else (cacheInodeOperateCachedDirent c dir name .remove).map fun
    | (none, status, c) => (status, c)
    | (some removed, _, c) =>
      (.success, c.modify removed fun e =>
        { e with parentList := e.parentList.eraseP fun l => l.parent = dir })

/-! ## Killing an entry -/

/-- `cache_inode_invalidate_related_dirent`, and `cache_inode_gc_invalidate_related_dirent` with its
answer. -/
def invalidateRelatedDirent (c : Cache) : List ParentEntry → Bool × Cache
  | [] => (true, c)
  | l :: rest =>
    if (c l.parent).type ≠ .dirBeginning then (false, c)
    else
      let c := c.modifyNode l.parent l.node fun n =>
        { n.modifySlot l.subdirpos fun d => { d with active := false } with
          nbactive := n.nbactive - 1 }
      -- a dirent of a `DIR_CONTINUE` does not clear the flag
      let c := c.modify l.parent fun d =>
        { d with hasBeenReaddir := if l.node = 0 then false else d.hasBeenReaddir }
      invalidateRelatedDirent c rest

/-- What the calls made to kill one entry answer: `LRU_invalidate`, `cache_inode_fsaldata_2_key` and
`HashTable_Del` succeed. -/
structure KillEnv where
  lruInvalidate : Bool
  key : Bool
  hashDel : Bool

/-- All calls succeed. -/
def KillEnv.ok (env : KillEnv) : Bool := env.lruInvalidate && env.key && env.hashDel

/-- The dirents of a node that goes back to the pool. -/
def Node.clear (n : Node) : Node :=
  { n with dirEntries := fun i => { n.dirEntries i with active := false, pentry := none } }

/-- `cache_inode_kill_entry`; `conts` is for the calls on the `DIR_CONTINUE` entries, which have no
parent. -/
def cacheInodeKillEntry (c : Cache) (e : ℕ) (env : KillEnv) (conts : ℕ → KillEnv) : Status × Cache :=
  if ¬ env.lruInvalidate then (.lruError, c)
  else if ¬ env.key then (.notFound, c)
  else
    let c := c.modify e fun entry =>
      { entry with nodes := entry.nodes.mapIdx fun pos n =>
          if pos ≠ 0 ∧ (conts pos).ok then n.clear else n }
    let c := (invalidateRelatedDirent c (c e).parentList).2
    if ¬ env.hashDel then (.notFound, c)
    else
      (.success, c.modify e fun entry =>
        { entry with nodes := entry.nodes.modify 0 Node.clear, allocated := false })

/-! ## Populating a directory -/

def dot : Name := [46]
def dotDot : Name := [46, 46]

/-- A `fsal_dirent_t`, with what the calls about it answer: `FSAL_readlink`, if it is a symbolic link,
`cache_inode_new_entry` (the entry, and whether it is a new one) and those of the new dirent. -/
structure Item where
  name : Name
  type : FileType
  readlink : Option FsalError
  newEntry : Except Failure (ℕ × Bool)
  add : AddEnv

/-- `.` and `..` are not cached. -/
def Item.special (item : Item) : Bool := item.name = dot || item.name = dotDot

/-- What the calls made to populate a directory answer: `FSAL_opendir`, the calls of `FSAL_readdir`
of which the last one says that the end is reached, `FSAL_closedir`, and those of
`cache_inode_kill_entry`. -/
structure PopulateEnv where
  opendir : Option FsalError
  readdirs : List (Except FsalError (List Item))
  readdirs_ne : readdirs ≠ []
  closedir : Option FsalError
  kill : KillEnv
  killConts : ℕ → KillEnv

/-- The error paths of `FSAL_opendir` and `FSAL_readlink`: a stale handle kills the directory. -/
def populateError (c : Cache) (dir : ℕ) (err : FsalError) (env : PopulateEnv) : Status × Cache :=
  if err = .stale then (.fsalEstale, (cacheInodeKillEntry c dir env.kill env.killConts).2)
  else (errorConvert err, c)

/-- The body of the loop over `array_dirent`: the call returns, or goes on with
`next_pentry_parent`. -/
def populateItem (env : PopulateEnv) (dir : ℕ) (parent next : Option ℕ) (c : Cache) (item : Item) :
    Option (Except (Status × Cache) (Option ℕ × Cache)) :=
  if item.special then some (.ok (next, c))
  else match (if item.type = .symbolicLink then item.readlink else none) with
    | some err => some (.error (populateError c dir err env))
    | none => match item.newEntry with
      | .error err => some (.error (err.1, c))
      | .ok (pentry, new) =>
        let c := if new then Function.update c pentry (Entry.new item.type) else c
        parent.bind fun node =>
          (cacheInodeAddCachedDirent c dir node item.name pentry item.add).map fun (status, n, c) =>
            if status ≠ .success ∧ status ≠ .entryExists then .error (status, c)
            else .ok (n.or next, c)

/-- The loop over `array_dirent`. -/
def populateItems (env : PopulateEnv) (dir : ℕ) (parent : Option ℕ) :
    Option ℕ → Cache → List Item → Option (Except (Status × Cache) (Option ℕ × Cache))
  | next, c, [] => some (.ok (next, c))
  | next, c, item :: items => (populateItem env dir parent next c item).bind fun
    | .error r => some (.error r)
    | .ok (next, c) => populateItems env dir parent next c items

/-- The loop over the calls of `FSAL_readdir`. After each of them `pentry_parent` becomes
`next_pentry_parent`. -/
def populateBatches (env : PopulateEnv) (dir : ℕ) :
    Option ℕ → Option ℕ → Cache → List (Except FsalError (List Item)) →
      Option (Except (Status × Cache) Cache)
  | _, _, c, [] => some (.ok c)
  | _, _, c, .error err :: _ => some (.error (errorConvert err, c))
  | parent, next, c, .ok items :: batches =>
    (populateItems env dir parent next c items).bind fun
      | .error r => some (.error r)
      | .ok (next, c) => populateBatches env dir next next c batches

def cacheInodeReaddirPopulate (c : Cache) (dir : ℕ) (env : PopulateEnv) : Option (Status × Cache) :=
  if (c dir).type ≠ .dirBeginning then some (.badType, c)
  else if (c dir).hasBeenReaddir then some (.success, c)
  else
    let c := (cacheInodeInvalidateAllCachedDirent c dir).2
    match env.opendir with
    | some err => some (populateError c dir err env)
    | none => (populateBatches env dir (some 0) none c env.readdirs).map fun
      | .error r => r
      | .ok c => match env.closedir with
        | some err => (errorConvert err, c)
        | none => (.success, c.modify dir fun d => { d with hasBeenReaddir := true })

end Ganesha.CacheInode.Dirents
