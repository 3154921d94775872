import Mathlib.Data.Finmap
import Ganesha.Library.Pool
import Ganesha.Library.Transition

/-!
# The namespace manager of FUSELIKE

`FSAL/FSAL_FUSELIKE/namespace.c`: the associations from a parent and a name to a node and from an inode
to a node, with the list of the names of each node. The nodes and the peers come from pools, and the two
hash tables are maps. The three operations are under the lock of the namespace.

A `none` is an assertion that fails, or the use of a node that was freed.
-/

namespace Ganesha.FuseLike
open Library

/-- The part of `inode_t` that is compared by the tables. -/
structure Ino where
  inum : ℕ
  dev : ℕ
  deriving DecidableEq

/-- `inode_t`. -/
structure Inode where
  ino : Ino
  generation : ℕ
  deriving DecidableEq

/-- The part of `lookup_peer_t` that is compared by `cmp_peers`. -/
structure Key where
  parent : Ino
  name : String
  deriving DecidableEq

/-- `lookup_peer_t`. -/
structure LookupPeer where
  parent : Inode
  name : String
  deriving DecidableEq

/-- The key of a peer. -/
def LookupPeer.key (e : LookupPeer) : Key := ⟨e.parent.ino, e.name⟩

/-- `fsnode_t`. Its counts are `unsigned int`s in the source, the same for fewer than 2^32 names. -/
structure Fsnode where
  inode : Inode
  nLookup : ℕ
  nChildren : ℕ
  parentList : List ℕ
  deriving DecidableEq

/-- The pools and the two tables. An entry of `lookup_hash` has its peer and its node. -/
structure State where
  nodes : Pool Fsnode
  peers : Pool LookupPeer
  lookupHash : Finmap fun _ : Key => ℕ × ℕ
  nodesHash : Finmap fun _ : Ino => ℕ

/-- What the operations return: 0, the values of `errno.h`, and `HASHTABLE_ERROR_NO_SUCH_KEY`. -/
inductive Errno
  | ok
  | enoent
  | estale
  | efault
  | eexist
  | enomem
  | noSuchKey
  deriving DecidableEq

/-- `h_insert_new_lookup` without overwriting, with the peer if it was inserted. -/
def hInsertNewLookup (s : State) (parent : Inode) (name : String) (p : ℕ) : State × Option ℕ :=
  let q := s.peers.next
  let peers := s.peers.alloc ⟨parent, name⟩
  let k : Key := ⟨parent.ino, name⟩
  match s.lookupHash.lookup k with
  | some _ => ({ s with peers := peers.release q }, none)
  | none =>
    ({ s with
      peers := peers
      lookupHash := s.lookupHash.insert k (q, p)
      nodes := s.nodes.modify p fun n =>
        { n with nLookup := n.nLookup + 1, parentList := q :: n.parentList } }, some q)

/-- `h_del_lookup`: the node of the entry, if there is one. The peer is removed from the list of the node
whatever it says. -/
def hDelLookup (s : State) (k : Key) : Option (State × Option ℕ) :=
  match s.lookupHash.lookup k with
  | none => some (s, none)
  | some (q, p) =>
    match s.nodes.cell p with
    | none => none
    | some n =>
      if 0 < n.nLookup then
        some ({ s with
          lookupHash := s.lookupHash.erase k
          nodes := s.nodes.modify p fun n =>
            { n with nLookup := n.nLookup - 1, parentList := n.parentList.erase q }
          peers := if q ∈ n.parentList then s.peers.release q else s.peers }, some p)
      else none

/-- `h_insert_new_node` without overwriting. -/
def hInsertNewNode (s : State) (ino : Ino) (gen : ℕ) : State × Option ℕ :=
  let p := s.nodes.next
  let nodes := s.nodes.alloc ⟨⟨ino, gen⟩, 0, 0, []⟩
  match s.nodesHash.lookup ino with
  | some _ => ({ s with nodes := nodes.release p }, none)
  | none => ({ s with nodes := nodes, nodesHash := s.nodesHash.insert ino p }, some p)

/-- `NamespaceInit`: the root, which is never removed. -/
def namespaceInit (root : Ino) (gen : ℕ) : State :=
  let nodes : Pool Fsnode := Pool.empty.alloc ⟨⟨root, gen⟩, 1, 0, []⟩
  ⟨nodes, .empty, ∅, Finmap.singleton root 0⟩

/-- A name is bound to a node and the children of the parent are counted. -/
def addLookup (s : State) (parent : Inode) (name : String) (pparent p : ℕ) (err : Errno) :
    State × Errno :=
  match hInsertNewLookup s parent name p with
  | (s', none) => (s', err)
  | (s', some _) =>
    ({ s' with nodes := s'.nodes.modify pparent fun n => { n with nChildren := n.nChildren + 1 } }, .ok)

def namespaceAddNl (s : State) (parent : Inode) (name : String) (entry : Ino) (newGen : ℕ) :
    Option (State × Errno) :=
  match s.nodesHash.lookup parent.ino with
  | none => some (s, .enoent)
  | some pparent =>
    match s.nodes.cell pparent with
    | none => none
    | some nparent =>
      -- a handle of an older node with this number
      if nparent.inode.generation ≠ parent.generation then some (s, .estale)
      else
        match s.nodesHash.lookup entry with
        | some p =>
          -- the node is there: only the name is new
          match s.lookupHash.lookup ⟨parent.ino, name⟩ with
          | none => some (addLookup s parent name pparent p .efault)
          | some (_, pexist) =>
            match s.nodes.cell pexist with
            | none => none
            | some nexist => some (s, if nexist.inode.ino = entry then .ok else .eexist)
        | none =>
          match hInsertNewNode s entry newGen with
          -- the new node is not taken out again
          | (s', none) => some (s', .enomem)
          | (s', some p) => some (addLookup s' parent name pparent p .enomem)

/-- The end of `NamespaceRemove_nl`: a node that has no name any more is freed. -/
def removeNode (s : State) (p : ℕ) : Option (State × Errno) :=
  match s.nodes.cell p with
  | none => none
  | some n =>
    if n.nLookup = 0 then
      if n.nChildren = 0 then
        match s.nodesHash.lookup n.inode.ino with
        | none => some (s, .efault)
        | some _ =>
          some ({ s with
            nodesHash := s.nodesHash.erase n.inode.ino
            nodes := s.nodes.release p }, .ok)
      else none
    else some (s, .ok)

def namespaceRemoveNl (s : State) (parent : Inode) (name : String) : Option (State × Errno) :=
  match s.nodesHash.lookup parent.ino with
  | none => some (s, .enoent)
  | some pparent =>
    match s.nodes.cell pparent with
    | none => none
    | some nparent =>
      if nparent.inode.generation ≠ parent.generation then some (s, .estale)
      else
        -- the name goes first, then the node
        match hDelLookup s ⟨parent.ino, name⟩ with
        | none => none
        | some (s', none) => some (s', .ok)
        | some (s', some p) =>
          match s'.nodes.cell pparent with
          | none => none
          | some nparent' =>
            -- `nChildren` is decremented under an assertion
            if 0 < nparent'.nChildren then
              removeNode { s' with
                nodes := s'.nodes.modify pparent fun n => { n with nChildren := n.nChildren - 1 } } p
            else none

/-- `NamespaceRename` after the new path was added, or not. -/
def renameSource (r : Option (State × Errno)) (src : Inode) (nameSrc : String) :
    Option (State × Errno) :=
  match r with
  | none => none
  | some (s, rc) => if rc ≠ .ok then some (s, rc) else namespaceRemoveNl s src nameSrc

def namespaceRename (s : State) (src : Inode) (nameSrc : String) (tgt : Inode) (nameTgt : String) :
    Option (State × Errno) :=
  match s.lookupHash.lookup ⟨src.ino, nameSrc⟩ with
  | none => some (s, .noSuchKey)
  | some (_, p) =>
    if src.ino = tgt.ino ∧ nameSrc = nameTgt then some (s, .ok)
    else
      match s.nodes.cell p with
      | none => none
      | some n =>
        match namespaceAddNl s tgt nameTgt n.inode.ino n.inode.generation with
        | some (s₁, .eexist) =>
          match namespaceRemoveNl s₁ tgt nameTgt with
          | some (s₂, .ok) =>
            -- the node is read again
            match s₂.nodes.cell p with
            | none => none
            | some n₂ =>
              renameSource (namespaceAddNl s₂ tgt nameTgt n₂.inode.ino n₂.inode.generation) src nameSrc
          | r => r
        | r => renameSource r src nameSrc

/-- A call of one of the operations. -/
inductive Call
  | add (parent : Inode) (name : String) (entry : Ino) (newGen : ℕ)
  | remove (parent : Inode) (name : String)
  | rename (src : Inode) (nameSrc : String) (tgt : Inode) (nameTgt : String)

/-- The effect of a call with what it returns. -/
def call (s : State) : Call → Option (State × Errno)
  | .add parent name entry newGen => namespaceAddNl s parent name entry newGen
  | .remove parent name => namespaceRemoveNl s parent name
  | .rename src nameSrc tgt nameTgt => namespaceRename s src nameSrc tgt nameTgt

/-- One step: a call that returns. -/
def step (s : State) (c : Call) : Option State := (call s c).map Prod.fst

end Ganesha.FuseLike
