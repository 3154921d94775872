import Ganesha.Library.Transition
import Ganesha.Rbt.Unlink

/-!
# Runs of insertions and removals

A user of the tree inserts a node by setting its value, finding the father with `RBT_FIND` and
calling `RBT_INSERT`, and takes it out with `RBT_UNLINK`. Along every run the tree stays well-formed
and its sequence is that of the nodes put in and not taken out, in an order that later calls do not
change (`wf_of_admissible`). The number of nodes is taken to be below 2^32, the range of
`rbt_num_node`.
-/

namespace Ganesha.Rbt
open Library.RedBlack Library.Transition

variable {ι π : Type} [DecidableEq ι]

/-- The calls of a user of the tree. -/
inductive Op (ι : Type)
  | insert (node : ι) (val : ℤ)
  | unlink (node : ι)

/-- One call. -/
def step (t : RbTree ι π) : Op ι → Option (RbTree ι π)
  | .insert node val => (rbtFind t val).bind fun par =>
    rbtInsert (t.modify node fun n => { n with rbtValue := val }) node par
  | .unlink node => rbtUnlink t node

/-- The nodes in the tree after one more call. -/
def Op.members (nodes : List ι) : Op ι → List ι
  | .insert node _ => node :: nodes
  | .unlink node => nodes.erase node

/-- A node that is inserted is not in the tree, a node that is unlinked is. -/
def Op.Admissible (nodes : List ι) : Op ι → Prop
  | .insert node _ => node ∉ nodes
  | .unlink node => node ∈ nodes

/-- The nodes inserted and not unlinked by a sequence of calls, from `nodes` on. -/
def members (nodes : List ι) (ops : List (Op ι)) : List ι := ops.foldl Op.members nodes

/-- Every call is admissible for the nodes left by the calls before it. -/
def Admissible : List ι → List (Op ι) → Prop
  | _, [] => True
  | nodes, op :: ops => op.Admissible nodes ∧ Admissible (op.members nodes) ops

/-- The nodes that a sequence of calls unlinks. -/
def unlinked : List (Op ι) → List ι
  | [] => []
  | .insert _ _ :: ops => unlinked ops
  | .unlink node :: ops => node :: unlinked ops

instance (nodes : List ι) (op : Op ι) : Decidable (op.Admissible nodes) :=
  match op with
  | .insert node _ => inferInstanceAs (Decidable (node ∉ nodes))
  | .unlink node => inferInstanceAs (Decidable (node ∈ nodes))

instance Admissible.decidable : (nodes : List ι) → (ops : List (Op ι)) →
    Decidable (Admissible nodes ops)
  | _, [] => .isTrue trivial
  | nodes, op :: ops =>
    have := Admissible.decidable (op.members nodes) ops
    inferInstanceAs (Decidable (_ ∧ _))

/-- What one call does to the sequence. -/
inductive Edited (op : Op ι) (l l' : List ι) : Prop
  | insert (node : ι) (val : ℤ) (l₁ l₂ : List ι) (hop : op = .insert node val)
      (hl : l = l₁ ++ l₂) (hl' : l' = l₁ ++ node :: l₂)
  | unlink (node : ι) (l₁ l₂ : List ι) (hop : op = .unlink node)
      (hl : l = l₁ ++ node :: l₂) (hl' : l' = l₁ ++ l₂)

/-- An admissible operation keeps the tree and edits its list. -/
lemma wf_step {t : RbTree ι π} {tree : CTree ι} {op : Op ι} (h : Wf t tree)
    (hop : op.Admissible tree.toList) :
    ∃ t' tree', step t op = some t' ∧ Wf t' tree' ∧ Edited op tree.toList tree'.toList := by
  cases op with
  | insert node val =>
    obtain ⟨par, hfind, t', tree', l₁, l₂, hins, hwf, hl, hl', -⟩ :=
      rbtFind_rbtInsert_spec h hop (fun n => { n with rbtValue := val }) val rfl
    refine ⟨t', tree', ?_, hwf, .insert node val l₁ l₂ rfl hl hl'⟩
    simp only [step, hfind, Option.bind_some]
    exact hins
  | unlink node =>
    obtain ⟨t', tree', l₁, l₂, hunlink, hwf, hl, hl', -⟩ := rbtUnlink_spec h hop
    exact ⟨t', tree', hunlink, hwf, .unlink node l₁ l₂ rfl hl hl'⟩

/-- The nodes of the tree after one operation. -/
lemma Edited.perm {op : Op ι} {l l' nodes : List ι} (h : Edited op l l') (hl : l.Perm nodes) :
    l'.Perm (op.members nodes) := by
  cases h with
  | insert node val l₁ l₂ hop hl₁ hl' =>
    subst hop hl₁ hl'
    exact List.perm_middle.trans (hl.cons node)
  | unlink node l₁ l₂ hop hl₁ hl' =>
    subst hop hl₁ hl'
    have herase := (List.perm_middle.symm.trans hl).erase node
    rw [List.erase_cons_head] at herase
    exact herase

/-- Nodes that stay keep their order. -/
lemma Edited.sublist {op : Op ι} {ops : List (Op ι)} {l l' : List ι} (h : Edited op l l') :
    (l.filter (· ∉ unlinked (op :: ops))).Sublist (l'.filter (· ∉ unlinked ops)) := by
  cases h with
  | insert node val l₁ l₂ hop hl hl' =>
    subst hop hl hl'
    have hsub : (l₁ ++ l₂).Sublist (l₁ ++ node :: l₂) :=
      (List.sublist_cons_self node l₂).append_left l₁
    exact hsub.filter _
  | unlink node l₁ l₂ hop hl hl' =>
    subst hop hl hl'
    have hsub : ∀ k : List ι, (k.filter (· ∉ unlinked (.unlink node :: ops))).Sublist
        (k.filter (· ∉ unlinked ops)) := fun k => by
      refine List.monotone_filter_right k fun i hi => ?_
      simp only [unlinked, List.mem_cons, not_or, decide_eq_true_eq] at hi ⊢
      exact hi.2
    have hnode : (node :: l₂).filter (· ∉ unlinked (.unlink node :: ops)) =
        l₂.filter (· ∉ unlinked (.unlink node :: ops)) :=
      List.filter_cons_of_neg (by simp [unlinked])
    rw [List.filter_append, hnode, ← List.filter_append]
    exact hsub (l₁ ++ l₂)

lemma admissible_append {nodes : List ι} {ops₁ ops₂ : List (Op ι)} :
    Admissible nodes (ops₁ ++ ops₂) ↔
      Admissible nodes ops₁ ∧ Admissible (members nodes ops₁) ops₂ := by
  induction ops₁ generalizing nodes with
  | nil => exact (true_and _).symm.to_iff
  | cons op ops₁ ih =>
    simp only [List.cons_append, Admissible, ih, and_assoc]
    rfl

/-- All the operations of a run. -/
lemma wf_execute {t : RbTree ι π} {tree : CTree ι} {nodes : List ι} {ops : List (Op ι)}
    (h : Wf t tree) (hnodes : tree.toList.Perm nodes) (hops : Admissible nodes ops) :
    ∃ t' tree', execute step t ops = some t' ∧ Wf t' tree' ∧
      tree'.toList.Perm (members nodes ops) ∧
      (tree.toList.filter (· ∉ unlinked ops)).Sublist tree'.toList := by
  induction ops generalizing t tree nodes with
  | nil => exact ⟨t, tree, rfl, h, hnodes, List.filter_sublist⟩
  | cons op ops ih =>
    rcases hops with ⟨hop, hops⟩
    have hop' : op.Admissible tree.toList := by
      cases op with
      | insert node val => exact fun hmem => hop (hnodes.mem_iff.mp hmem)
      | unlink node => exact hnodes.mem_iff.mpr hop
    obtain ⟨t₁, tree₁, hstep, hwf₁, hedit⟩ := wf_step h hop'
    obtain ⟨t', tree', hrun, hwf', hperm, hsub⟩ := ih hwf₁ (hedit.perm hnodes) hops
    refine ⟨t', tree', ?_, hwf', hperm, hedit.sublist.trans hsub⟩
    simp only [execute, hstep, Option.bind_some]
    exact hrun

/-- Along every sequence of insertions and removals, whatever the values, no `NULL` is dereferenced
and every loop ends; the tree is well-formed, `RBT_LOOP` visits exactly the nodes inserted and not
unlinked, and the nodes of an earlier state that have not been unlinked since are visited in the
same order. -/
theorem wf_of_admissible (mem : ι → RbtNode ι π) (ops : List (Op ι)) (h : Admissible [] ops) :
    ∃ t tree, execute step ⟨rbtHeadInit, mem⟩ ops = some t ∧ Wf t tree ∧
      rbtLoop t = some tree.toList ∧ tree.toList.Perm (members [] ops) ∧
      ∀ ops₁ ops₂ t₁ l₁, ops = ops₁ ++ ops₂ → execute step ⟨rbtHeadInit, mem⟩ ops₁ = some t₁ →
        rbtLoop t₁ = some l₁ → (l₁.filter (· ∉ unlinked ops₂)).Sublist tree.toList := by
  obtain ⟨t, tree, hrun, hwf, hperm, -⟩ := wf_execute (wf_rbtHeadInit mem) (.refl _) h
  refine ⟨t, tree, hrun, hwf, rbtLoop_spec hwf, hperm, ?_⟩
  intro ops₁ ops₂ t₁ l₁ hops hrun₁ hloop
  subst hops
  obtain ⟨hops₁, hops₂⟩ := admissible_append.mp h
  obtain ⟨t₁', tree₁, hrun₁', hwf₁, hperm₁, -⟩ := wf_execute (wf_rbtHeadInit mem) (.refl _) hops₁
  obtain rfl : t₁ = t₁' := Option.some.inj (hrun₁.symm.trans hrun₁')
  obtain rfl : tree₁.toList = l₁ := Option.some.inj ((rbtLoop_spec hwf₁).symm.trans hloop)
  obtain ⟨t', tree', hrun', hwf', -, hsub⟩ := wf_execute hwf₁ hperm₁ hops₂
  obtain rfl : t = t' := by
    rw [execute_append, hrun₁, Option.bind_some, hrun'] at hrun
    exact (Option.some.inj hrun).symm
  have hsame : tree'.toList = tree.toList :=
    Option.some.inj ((rbtLoop_spec hwf').symm.trans (rbtLoop_spec hwf))
  rw [← hsame]
  exact hsub

/-- Nodes with equal values, one of them unlinked with two children and inserted again. -/
theorem wf_after_equal_values :
    ∃ (t : RbTree (Fin 4) Unit) (tree : CTree (Fin 4)),
      execute step ⟨rbtHeadInit, fun _ => ⟨false, .root, none, none, none, 0, ()⟩⟩
        [.insert 0 5, .insert 1 5, .insert 2 5, .insert 3 5, .unlink 1, .insert 1 4] = some t ∧
      Wf t tree ∧ rbtLoop t = some [1, 3, 0, 2] := by
  have hadm : Admissible [] [.insert 0 5, .insert 1 5, .insert 2 5, .insert 3 5, .unlink 1,
      .insert (1 : Fin 4) 4] := by decide
  obtain ⟨t, tree, hrun, hwf, -⟩ :=
    wf_of_admissible (fun _ => ⟨false, .root, none, none, none, 0, ()⟩) _ hadm
  refine ⟨t, tree, hrun, hwf, ?_⟩
  have hloop : (execute step (⟨rbtHeadInit, fun _ => ⟨false, .root, none, none, none, 0, ()⟩⟩ :
      RbTree (Fin 4) Unit) [.insert 0 5, .insert 1 5, .insert 2 5, .insert 3 5, .unlink 1,
      .insert 1 4]).bind rbtLoop = some [1, 3, 0, 2] := by decide
  rw [hrun, Option.bind_some] at hloop
  exact hloop

end Ganesha.Rbt
