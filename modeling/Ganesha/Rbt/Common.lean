import Mathlib.Algebra.Order.Ring.Int
import Ganesha.Library.RedBlack

/-!
# The red-black tree macros

The macros of `include/rbt_tree.h` over a memory of nodes. A `NULL` that is dereferenced and a loop
that runs out of fuel both give `none`; loops get `rbt_num_node + 1` turns, one more than there are
nodes. Branches of the source that are the mirror images of each other are one definition with a
`Side`, `left` being the field `left` and `right` the field `next`.
-/

namespace Ganesha.Rbt
open Library.RedBlack

variable {ι π : Type}

/-- The pointers an `anchor` can designate: the root of the head, or a child field of a node. -/
inductive Link (ι : Type)
  | root
  | child (s : Side) (i : ι)
  deriving DecidableEq

/-- `rbt_node_t`; of `rbt_flags` only the bit `RBT_RED` is ever used. -/
structure RbtNode (ι π : Type) where
  red : Bool
  anchor : Link ι
  parent : Option ι
  left : Option ι
  next : Option ι
  rbtValue : ℤ
  rbtOpaq : π

/-- `struct rbt_head`. Of the `unsigned int` `rbt_num_node` no macro reads more than whether the tree
is empty; it is a natural number here, the same for fewer than 2^32 nodes. -/
structure RbtHead (ι : Type) where
  root : Option ι
  leftmost : Option ι
  rightmost : Option ι
  rbtNumNode : ℕ

def rbtHeadInit : RbtHead ι where
  root := none
  leftmost := none
  rightmost := none
  rbtNumNode := 0

/-- A head and the memory its nodes lie in. -/
structure RbTree (ι π : Type) where
  head : RbtHead ι
  mem : ι → RbtNode ι π

/-- The child of a node on one side. -/
def RbtNode.child (n : RbtNode ι π) : Side → Option ι
  | .left => n.left
  | .right => n.next

/-- Assign a child field. -/
def RbtNode.setChild (n : RbtNode ι π) (s : Side) (q : Option ι) : RbtNode ι π :=
  match s with
  | .left => { n with left := q }
  | .right => { n with next := q }

section Reading

/-- `y && (y->rbt_flags & RBT_RED)`. -/
def RbTree.isRed (t : RbTree ι π) : Option ι → Bool
  | none => false
  | some i => (t.mem i).red

/-- `while (y->left) y = y->left`, or the same with `next`. -/
def RbTree.extreme (t : RbTree ι π) (s : Side) : ℕ → ι → Option ι
  | 0, _ => none
  | fuel + 1, y => match (t.mem y).child s with
    | none => some y
    | some z => t.extreme s fuel z

/-- The loop of `RBT_FIND`: `x` is the node looked at, `node` the last one that was. -/
def rbtFindLoop (t : RbTree ι π) (val : ℤ) : ℕ → Option ι → Option ι → Option (Option ι)
  | 0, _, _ => none
  | _ + 1, node, none => some node
  | fuel + 1, _, some x =>
    if (t.mem x).rbtValue > val then rbtFindLoop t val fuel (some x) (t.mem x).left
    else if (t.mem x).rbtValue < val then rbtFindLoop t val fuel (some x) (t.mem x).next
    else some (some x)

def rbtFind (t : RbTree ι π) (val : ℤ) : Option (Option ι) :=
  rbtFindLoop t val (t.head.rbtNumNode + 1) t.head.root t.head.root

/-- `while (x = x->left) { if (x->rbt_value < val) break; node = x; }`, giving `x` and `node`. -/
def rbtFindLeftDown (t : RbTree ι π) (val : ℤ) : ℕ → ι → ι → Option (Option ι × ι)
  | 0, _, _ => none
  | fuel + 1, x, node => match (t.mem x).left with
    | none => some (none, node)
    | some y => if (t.mem y).rbtValue < val then some (some y, node)
      else rbtFindLeftDown t val fuel y y

/-- `while (x = x->next) { if (x->rbt_value == val) { node = x; break; } }`. -/
def rbtFindLeftNext (t : RbTree ι π) (val : ℤ) : ℕ → ι → ι → Option (Option ι × ι)
  | 0, _, _ => none
  | fuel + 1, x, node => match (t.mem x).next with
    | none => some (none, node)
    | some y => if (t.mem y).rbtValue = val then some (some y, y)
      else rbtFindLeftNext t val fuel y node

/-- The loop of `RBT_FIND_LEFT` that starts at a node of value `val`; `len` bounds the turns of the
loops inside. -/
def rbtFindLeftEq (t : RbTree ι π) (val : ℤ) (len : ℕ) : ℕ → ι → ι → Option ι
  | 0, _, _ => none
  | fuel + 1, x, node =>
    (rbtFindLeftDown t val len x node).bind fun (x, node) => match x with
      | none => some node
      | some x => (rbtFindLeftNext t val len x node).bind fun (x, node) => match x with
        | none => some node
        | some x => rbtFindLeftEq t val len fuel x node

/-- The outer loop of `RBT_FIND_LEFT`. -/
def rbtFindLeftLoop (t : RbTree ι π) (val : ℤ) (len : ℕ) : ℕ → Option ι → Option (Option ι)
  | 0, _ => none
  | _ + 1, none => some none
  | fuel + 1, some x =>
    if (t.mem x).rbtValue > val then rbtFindLeftLoop t val len fuel (t.mem x).left
    else if (t.mem x).rbtValue < val then rbtFindLeftLoop t val len fuel (t.mem x).next
    else (rbtFindLeftEq t val len len x x).map some

def rbtFindLeft (t : RbTree ι π) (val : ℤ) : Option (Option ι) :=
  rbtFindLeftLoop t val (t.head.rbtNumNode + 1) (t.head.rbtNumNode + 1) t.head.root

variable [DecidableEq ι]

/-- `do x = node; while ((node = node->parent) && (node->next == x))`, or with `left`. -/
def RbTree.climb (t : RbTree ι π) (s : Side) : ℕ → ι → Option (Option ι)
  | 0, _ => none
  | fuel + 1, x => match (t.mem x).parent with
    | none => some none
    | some p => if (t.mem p).child s = some x then t.climb s fuel p else some (some p)

/-- One move in the direction of `s`. -/
def RbTree.move (t : RbTree ι π) (s : Side) (node : ι) : Option (Option ι) :=
  match (t.mem node).child s with
  | some c => (t.extreme s.other (t.head.rbtNumNode + 1) c).map some
  | none => t.climb s (t.head.rbtNumNode + 1) node

def rbtIncrement (t : RbTree ι π) (node : ι) : Option (Option ι) := t.move .right node

def rbtDecrement (t : RbTree ι π) (node : ι) : Option (Option ι) := t.move .left node

end Reading

section Writing
variable [DecidableEq ι]

/-- Assign fields of one node. -/
def RbTree.modify (t : RbTree ι π) (i : ι) (f : RbtNode ι π → RbtNode ι π) : RbTree ι π :=
  { t with mem := Function.update t.mem i (f (t.mem i)) }

/-- Set or clear `RBT_RED`. -/
def RbTree.setRed (t : RbTree ι π) (i : ι) (c : Bool) : RbTree ι π := t.modify i fun n => { n with red := c }

/-- `if (x) x->rbt_flags &= ~RBT_RED`. -/
def RbTree.setBlack (t : RbTree ι π) : Option ι → RbTree ι π
  | none => t
  | some i => t.setRed i false

/-- `*anchor = q`. -/
def RbTree.writeLink (t : RbTree ι π) (l : Link ι) (q : Option ι) : RbTree ι π :=
  match l with
  | .root => { t with head := { t.head with root := q } }
  | .child s i => t.modify i fun n => n.setChild s q

/-- `if (x) { x->parent = p; x->anchor = a; }`. -/
def RbTree.reparent (t : RbTree ι π) (x : Option ι) (p : Option ι) (a : Link ι) : RbTree ι π :=
  match x with
  | none => t
  | some i => t.modify i fun n => { n with parent := p, anchor := a }

/-- `RBT_ROTATE_LEFT` for `left`, `RBT_ROTATE_RIGHT` for `right`. -/
def RbTree.rotate (t : RbTree ι π) (s : Side) (x : ι) : Option (RbTree ι π) :=
  ((t.mem x).child s.other).map fun y =>
    let b := (t.mem y).child s
    let t := t.modify x fun n => n.setChild s.other b
    let t := t.reparent b (some x) (.child s.other x)
    let t := t.modify y fun n =>
      { n.setChild s (some x) with parent := (t.mem x).parent, anchor := (t.mem x).anchor }
    let t := t.modify x fun n => { n with parent := some y, anchor := .child s y }
    t.writeLink (t.mem y).anchor (some y)

def rbtRotateLeft (t : RbTree ι π) (x : ι) : Option (RbTree ι π) := t.rotate .left x

def rbtRotateRight (t : RbTree ι π) (x : ι) : Option (RbTree ι π) := t.rotate .right x

/-! ## RBT_INSERT -/

/-- The end of the loop of `RBT_INSERT` when the uncle is black; the parent of `x` is the child on
side `s` of the grandparent. -/
def rbtInsertRotate (t : RbTree ι π) (s : Side) (x : ι) : Option (RbTree ι π) :=
  (t.mem x).parent.bind fun p =>
    (if (t.mem p).child s.other = some x then (t.rotate s p).map fun t => (t, p)
      else some (t, x)).bind fun (t, x) =>
      (t.mem x).parent.bind fun p =>
        let t := t.setRed p false
        (t.mem p).parent.bind fun g => (t.setRed g true).rotate s.other g

/-- The loop of `RBT_INSERT`. -/
def rbtInsertLoop : ℕ → RbTree ι π → ι → Option (RbTree ι π)
  | 0, _, _ => none
  | fuel + 1, t, x => match (t.mem x).parent with
    | none => some t
    | some p =>
      let t := t.setRed x true
      if (t.mem p).red = false then some t
      else (t.mem p).parent.bind fun g =>
        let s := if (t.mem g).left = some p then Side.left else Side.right
        let y := (t.mem g).child s.other
        if t.isRed y = false then rbtInsertRotate t s x
        else rbtInsertLoop fuel ((t.setRed p false).setBlack y) g

/-- The part of `RBT_INSERT` that hangs `node` in the tree, with the node it hangs under. -/
def rbtAttach (t : RbTree ι π) (node : ι) (par : Option ι) : Option (RbTree ι π × Option ι) :=
  match par with
  | none =>
    let t := t.modify node fun n => { n with anchor := .root }
    some ({ t with head :=
      { t.head with root := some node, rightmost := some node, leftmost := some node } }, none)
  | some y =>
    let value := (t.mem node).rbtValue
    -- equal values with both sons: behind the last of the left subtree
    if value = (t.mem y).rbtValue ∧ (t.mem y).next ≠ none ∧ (t.mem y).left ≠ none then
      (t.mem y).left.bind fun l =>
        (t.extreme .right (t.head.rbtNumNode + 1) l).map fun y =>
          let t := t.modify y fun n => { n with next := some node }
          (t.modify node fun n => { n with anchor := .child .right y }, some y)
    -- to the right, or behind an equal value without a right son
    else if value > (t.mem y).rbtValue ∨ value = (t.mem y).rbtValue ∧ (t.mem y).left ≠ none then
      let t := t.modify y fun n => { n with next := some node }
      let t := t.modify node fun n => { n with anchor := .child .right y }
      let rightmost := if some y = t.head.rightmost then some node else t.head.rightmost
      some ({ t with head := { t.head with rightmost := rightmost } }, some y)
    else
      let t := t.modify y fun n => { n with left := some node }
      let t := t.modify node fun n => { n with anchor := .child .left y }
      let leftmost := if some y = t.head.leftmost then some node else t.head.leftmost
      some ({ t with head := { t.head with leftmost := leftmost } }, some y)

def rbtInsert (t : RbTree ι π) (node : ι) (par : Option ι) : Option (RbTree ι π) :=
  let t := { t with head := { t.head with rbtNumNode := t.head.rbtNumNode + 1 } }
  (rbtAttach t node par).bind fun (t, y) =>
    let t := t.modify node fun n => { n with red := false, parent := y, left := none, next := none }
    rbtInsertLoop (t.head.rbtNumNode + 1) t node

/-! ## RBT_UNLINK -/

/-- The exchange of the colours of two nodes: both bits are flipped when they differ. -/
def RbTree.swapRed (t : RbTree ι π) (i y : ι) : RbTree ι π :=
  if (t.mem i).red ≠ (t.mem y).red then
    (t.setRed i !(t.mem i).red).setRed y !(t.mem y).red else t

/-- `RBT_UNLINK` of a node with the children `l` and `r`: its successor takes its place. Gives the
tree, `x` and `z`. -/
def rbtUnlinkTwo (t : RbTree ι π) (fuel : ℕ) (node l r : ι) : Option (RbTree ι π × Option ι × Option ι) :=
  -- the successor of the node
  (t.extreme .left fuel r).bind fun y =>
    let t := t.swapRed node y
    let x := (t.mem y).next
    let t := t.modify l fun n => { n with parent := some y, anchor := .child .left y }
    let t := t.modify y fun n => { n with left := some l }
    -- the successor is the right son itself
    (if y = r then some (t, y)
      else (t.mem y).parent.map fun z =>
        let t := t.reparent x (some z) (.child .left z)
        let t := t.modify z fun n => { n with left := x }
        let t := t.modify y fun n => { n with next := some r }
        (t.modify r fun n => { n with parent := some y, anchor := .child .right y }, z)).map
    fun (t, z) =>
      let t := t.modify y fun n =>
        { n with parent := (t.mem node).parent, anchor := (t.mem node).anchor }
      (t.writeLink (t.mem node).anchor (some y), x, some z)

/-- One end of the tree after the removal of `node`: `x` replaces `node` under `z`. -/
def RbTree.newEnd (t : RbTree ι π) (s : Side) (fuel : ℕ) (node : ι) (cur x z : Option ι) :
    Option (Option ι) :=
  if cur = some node then
    match x with
    | some x => (t.extreme s fuel x).map some
    | none => some z
  else some cur

/-- `RBT_UNLINK` of a node with at most one child, which takes its place. Gives the tree, `x` and
`z`. -/
def rbtUnlinkOne (t : RbTree ι π) (fuel : ℕ) (node : ι) : Option (RbTree ι π × Option ι × Option ι) :=
  let z := (t.mem node).parent
  let x := if (t.mem node).next = none then (t.mem node).left else (t.mem node).next
  let t := t.reparent x z (t.mem node).anchor
  (t.newEnd .left fuel node t.head.leftmost x z).bind fun leftmost =>
    let t := { t with head := { t.head with leftmost := leftmost } }
    (t.newEnd .right fuel node t.head.rightmost x z).map fun rightmost =>
      let t := { t with head := { t.head with rightmost := rightmost } }
      (t.writeLink (t.mem node).anchor x, x, z)

/-- The first case of the loop of `RBT_UNLINK`: a red sibling `y` of `x` is made the parent of `z`.
Gives the tree and the sibling of `x` after that. -/
def rbtUnlinkRedSibling (t : RbTree ι π) (s : Side) (z y : ι) : Option (RbTree ι π × ι) :=
  if (t.mem y).red then
    (((t.setRed y false).setRed z true).rotate s z).bind fun t =>
      ((t.mem z).child s.other).map fun y => (t, y)
  else some (t, y)

/-- The last case of the loop of `RBT_UNLINK`: `y`, the sibling of `x`, is black and has a red
child. -/
def rbtUnlinkRotate (t : RbTree ι π) (s : Side) (z y : ι) : Option (RbTree ι π) :=
  (if t.isRed ((t.mem y).child s.other) = false then
      let t := (t.setBlack ((t.mem y).child s)).setRed y true
      (t.rotate s.other y).bind fun t => ((t.mem z).child s.other).map fun y => (t, y)
    else some (t, y)).bind fun (t, y) =>
      let t := (t.setRed y (t.mem z).red).setRed z false
      (t.setBlack ((t.mem y).child s.other)).rotate s z

/-- The loop of `RBT_UNLINK` and the line after it. -/
def rbtUnlinkLoop : ℕ → RbTree ι π → Option ι → Option ι → Option (RbTree ι π)
  | 0, _, _, _ => none
  | _ + 1, t, x, none => some (t.setBlack x)
  | fuel + 1, t, x, some z =>
    if t.isRed x then some (t.setBlack x)
    else
      let s := if x = (t.mem z).left then Side.left else Side.right
      ((t.mem z).child s.other).bind fun y =>
        (rbtUnlinkRedSibling t s z y).bind fun (t, y) =>
          if t.isRed (t.mem y).left = false ∧ t.isRed (t.mem y).next = false then
            let t := t.setRed y true
            rbtUnlinkLoop fuel t (some z) (t.mem z).parent
          else (rbtUnlinkRotate t s z y).map fun t => t.setBlack x

/-- The part of `RBT_UNLINK` before its loop. -/
def rbtTakeOut (t : RbTree ι π) (fuel : ℕ) (node : ι) : Option (RbTree ι π × Option ι × Option ι) :=
  match (t.mem node).left, (t.mem node).next with
  | some l, some r => rbtUnlinkTwo t fuel node l r
  | _, _ => rbtUnlinkOne t fuel node

def rbtUnlink (t : RbTree ι π) (node : ι) : Option (RbTree ι π) :=
  let fuel := t.head.rbtNumNode + 1
  let t := { t with head := { t.head with rbtNumNode := t.head.rbtNumNode - 1 } }
  (rbtTakeOut t fuel node).bind fun (t, x, z) =>
    if (t.mem node).red then some t else rbtUnlinkLoop fuel t x z

end Writing

end Ganesha.Rbt
