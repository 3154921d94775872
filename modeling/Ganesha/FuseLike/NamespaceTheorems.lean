import Ganesha.FuseLike.Namespace

/-!
# The namespace manager of FUSELIKE, theorems

Over every run in which an object loses its last name only when it has no children, the two tables, the
lists of names and the counts agree, no freed node is referenced and no assertion fails
(`inv_of_guaranteed`).
-/

namespace Ganesha.FuseLike
open Library Library.Transition

variable {s s' : State} {k k' : Key} {p q x pparent : ℕ} {n n' nparent : Fsnode}

/-- The entries of the lookup table with a parent. -/
def children (t : Finmap fun _ : Key => ℕ × ℕ) (i : Ino) : Finset Key :=
  t.keys.filter fun k => k.parent = i

/-- What holds between the calls. The root is at the first address. -/
structure Inv (s : State) : Prop where
  /-- The nodes of the inode table are the nodes in use. -/
  nodes : ∀ i p, s.nodesHash.lookup i = some p ↔ ∃ n, s.nodes.cell p = some n ∧ n.inode.ino = i
  /-- The entries of the lookup table are the elements of the lists of the nodes in use. -/
  bound : ∀ k q p, s.lookupHash.lookup k = some (q, p) ↔
    ∃ n e, s.nodes.cell p = some n ∧ q ∈ n.parentList ∧ s.peers.cell q = some e ∧ e.key = k
  peers : ∀ p n, s.nodes.cell p = some n → ∀ q ∈ n.parentList, ∃ e, s.peers.cell q = some e
  nodup : ∀ p n, s.nodes.cell p = some n → n.parentList.Nodup
  nLookup : ∀ p n, s.nodes.cell p = some n → n.nLookup = n.parentList.length + if p = 0 then 1 else 0
  nChildren : ∀ p n, s.nodes.cell p = some n → n.nChildren = (children s.lookupHash n.inode.ino).card
  parents : ∀ k v, s.lookupHash.lookup k = some v → ∃ p, s.nodesHash.lookup k.parent = some p
  root : ∃ n, s.nodes.cell 0 = some n

/-! ## Children -/

variable {t : Finmap fun _ : Key => ℕ × ℕ} {i : Ino}

lemma mem_children : k ∈ children t i ↔ k ∈ t ∧ k.parent = i := by
  rw [children, Finset.mem_filter, Finmap.mem_keys]

/-- The children of each node after one binding more. -/
lemma card_children_insert {v : ℕ × ℕ} (h : t.lookup k = none) :
    (children (t.insert k v) i).card = (children t i).card + if k.parent = i then 1 else 0 := by
  have hnot : k ∉ t := Finmap.lookup_eq_none.mp h
  split_ifs with hi
  · have hinsert : children (t.insert k v) i = insert k (children t i) := by
      ext k'
      rw [mem_children, Finmap.mem_insert, Finset.mem_insert, mem_children]
      constructor
      · rintro ⟨rfl | hk', hi'⟩
        · exact .inl rfl
        · exact .inr ⟨hk', hi'⟩
      · rintro (rfl | ⟨hk', hi'⟩)
        · exact ⟨.inl rfl, hi⟩
        · exact ⟨.inr hk', hi'⟩
    rw [hinsert, Finset.card_insert_of_notMem fun hk => hnot (mem_children.mp hk).1]
  · have hsame : children (t.insert k v) i = children t i := by
      ext k'
      rw [mem_children, Finmap.mem_insert, mem_children]
      constructor
      · rintro ⟨rfl | hk', hi'⟩
        · exact absurd hi' hi
        · exact ⟨hk', hi'⟩
      · rintro ⟨hk', hi'⟩
        exact ⟨.inr hk', hi'⟩
    rw [hsame, Nat.add_zero]

lemma children_erase : children (t.erase k) i = (children t i).erase k := by
  ext k'
  rw [mem_children, Finmap.mem_erase, Finset.mem_erase, mem_children, and_assoc]

lemma card_children_erase {v : ℕ × ℕ} (h : t.lookup k = some v) :
    (children (t.erase k) i).card = (children t i).card - if k.parent = i then 1 else 0 := by
  have hmem : k ∈ t := Finmap.mem_of_lookup_eq_some h
  rw [children_erase]
  split_ifs with hi
  · exact Finset.card_erase_of_mem (mem_children.mpr ⟨hmem, hi⟩)
  · rw [Finset.erase_eq_of_notMem fun hk => hi (mem_children.mp hk).2, Nat.sub_zero]

/-! ## The helpers -/

/-- The invariant reads tables and cells, not the counters of the pools. -/
lemma Inv.of_cells (h : Inv s) (hlookup : s'.lookupHash = s.lookupHash)
    (hnodes : s'.nodesHash = s.nodesHash) (hcell : s'.nodes.cell = s.nodes.cell)
    (hpeer : s'.peers.cell = s.peers.cell) : Inv s' := by
  refine ⟨?_, ?_, ?_, ?_, ?_, ?_, ?_, ?_⟩
  · rw [hnodes, hcell]
    exact h.nodes
  · rw [hlookup, hcell, hpeer]
    exact h.bound
  · rw [hcell, hpeer]
    exact h.peers
  · rw [hcell]
    exact h.nodup
  · rw [hcell]
    exact h.nLookup
  · rw [hcell, hlookup]
    exact h.nChildren
  · rw [hlookup, hnodes]
    exact h.parents
  · rw [hcell]
    exact h.root

lemma Inv.eq_of_ino (h : Inv s) (hp : s.nodes.cell p = some n) (hx : s.nodes.cell x = some n')
    (hino : n.inode.ino = n'.inode.ino) : p = x := by
  have hp' := (h.nodes n'.inode.ino p).mpr ⟨n, hp, hino⟩
  have hx' := (h.nodes n'.inode.ino x).mpr ⟨n', hx, rfl⟩
  exact Option.some.inj (hp'.symm.trans hx')

/-- What a new name of `p` below `pparent` makes of the node at `x`. -/
def Fsnode.bind (n : Fsnode) (x p pparent q : ℕ) : Fsnode :=
  { n with
    nLookup := n.nLookup + if x = p then 1 else 0
    nChildren := n.nChildren + if x = pparent then 1 else 0
    parentList := if x = p then q :: n.parentList else n.parentList }

/-- The nodes after a binding. -/
lemma cell_bind {m : Pool Fsnode} : ((m.modify p fun n =>
      { n with nLookup := n.nLookup + 1, parentList := q :: n.parentList }).modify pparent fun n =>
      { n with nChildren := n.nChildren + 1 }).cell x = (m.cell x).map fun n => n.bind x p pparent q := by
  rw [Pool.cell_modify, Pool.cell_modify]
  by_cases hp : x = p
  · by_cases hpp : x = pparent
    · rw [if_pos hpp, if_pos hp, Option.map_map]
      refine congrArg (fun f => Option.map f _) (funext fun n => ?_)
      simp only [Fsnode.bind, if_pos hp, if_pos hpp, Function.comp_apply]
    · rw [if_neg hpp, if_pos hp]
      refine congrArg (fun f => Option.map f _) (funext fun n => ?_)
      simp only [Fsnode.bind, if_pos hp, if_neg hpp, Nat.add_zero]
  · by_cases hpp : x = pparent
    · rw [if_pos hpp, if_neg hp]
      refine congrArg (fun f => Option.map f _) (funext fun n => ?_)
      simp only [Fsnode.bind, if_neg hp, if_pos hpp, Nat.add_zero]
    · rw [if_neg hpp, if_neg hp]
      have hid : (fun n : Fsnode => n.bind x p pparent q) = id := by
        funext n
        simp only [Fsnode.bind, if_neg hp, if_neg hpp, Nat.add_zero, id]
      rw [hid, Option.map_id]
      rfl

/-- A new binding: one link for the child, one child for the parent. -/
lemma Inv.bind {e : LookupPeer} (h : Inv s) (hparent : s.nodes.cell pparent = some nparent)
    (hino : nparent.inode.ino = e.key.parent) (hp : s.nodes.cell p = some n)
    (hkey : s.lookupHash.lookup e.key = none)
    (hlookup : s'.lookupHash = s.lookupHash.insert e.key (s.peers.next, p))
    (hnodes : s'.nodesHash = s.nodesHash)
    (hcell : ∀ x, s'.nodes.cell x = (s.nodes.cell x).map fun n => n.bind x p pparent s.peers.next)
    (hpeer : ∀ x, s'.peers.cell x = if x = s.peers.next then some e else s.peers.cell x) : Inv s' := by
  -- the new peer is in no list
  have hfresh : ∀ x n', s.nodes.cell x = some n' → s.peers.next ∉ n'.parentList := by
    intro x n' hx hmem
    obtain ⟨e', he'⟩ := h.peers x n' hx _ hmem
    rw [Pool.cell_next] at he'
    cases he'
  have hlist : ∀ x n' q', s.nodes.cell x = some n' → (q' ∈ (n'.bind x p pparent s.peers.next).parentList ↔
      q' ∈ n'.parentList ∨ x = p ∧ q' = s.peers.next) := by
    intro x n' q' _
    simp only [Fsnode.bind]
    split_ifs with hx
    · rw [List.mem_cons, or_comm]
      exact ⟨fun hq => hq.imp id fun hq => ⟨hx, hq⟩, fun hq => hq.imp id And.right⟩
    · exact ⟨.inl, fun hq => hq.elim id fun hq => absurd hq.1 hx⟩
  have hold : ∀ q', q' ≠ s.peers.next → s'.peers.cell q' = s.peers.cell q' := by
    intro q' hq'
    rw [hpeer, if_neg hq']
  have hnew : s'.peers.cell s.peers.next = some e := by rw [hpeer, if_pos rfl]
  refine ⟨fun i x => ?_, fun k' q' x => ?_, fun x m hx q' hq' => ?_, fun x m hx => ?_, fun x m hx => ?_,
    fun x m hx => ?_, fun k' v hv => ?_, ?_⟩
  · rw [hnodes, h.nodes, hcell]
    simp only [Option.map_eq_some_iff]
    constructor
    · rintro ⟨n', hx, hi⟩
      exact ⟨_, ⟨n', hx, rfl⟩, hi⟩
    · rintro ⟨m, ⟨n', hx, rfl⟩, hi⟩
      exact ⟨n', hx, hi⟩
  · rw [hlookup, hcell]
    simp only [Option.map_eq_some_iff]
    constructor
    · intro hk'
      by_cases hkk : k' = e.key
      · rw [hkk, Finmap.lookup_insert] at hk'
        obtain ⟨rfl, rfl⟩ := Prod.mk.inj (Option.some.inj hk')
        exact ⟨_, e, ⟨n, hp, rfl⟩, (hlist p n _ hp).mpr (.inr ⟨rfl, rfl⟩), hnew, hkk.symm⟩
      · rw [Finmap.lookup_insert_of_ne _ hkk] at hk'
        obtain ⟨n', e', hx, hq', he', hkey'⟩ := (h.bound k' q' x).mp hk'
        have hne : q' ≠ s.peers.next := fun heq => hfresh x n' hx (heq ▸ hq')
        exact ⟨_, e', ⟨n', hx, rfl⟩, (hlist x n' q' hx).mpr (.inl hq'), (hold q' hne).trans he', hkey'⟩
    · rintro ⟨m, e', ⟨n', hx, rfl⟩, hq', he', hkey'⟩
      rcases (hlist x n' q' hx).mp hq' with hq' | ⟨rfl, rfl⟩
      · have hne : q' ≠ s.peers.next := fun heq => hfresh x n' hx (heq ▸ hq')
        have hk' := (h.bound k' q' x).mpr ⟨n', e', hx, hq', (hold q' hne).symm.trans he', hkey'⟩
        rw [Finmap.lookup_insert_of_ne, hk']
        rintro rfl
        rw [hkey] at hk'
        cases hk'
      · rw [hnew] at he'
        rw [← hkey', ← Option.some.inj he', Finmap.lookup_insert]
  · rw [hcell, Option.map_eq_some_iff] at hx
    obtain ⟨n', hx, rfl⟩ := hx
    rcases (hlist x n' q' hx).mp hq' with hq' | ⟨rfl, rfl⟩
    · have hne : q' ≠ s.peers.next := fun heq => hfresh x n' hx (heq ▸ hq')
      rw [hold q' hne]
      exact h.peers x n' hx q' hq'
    · exact ⟨e, hnew⟩
  · rw [hcell, Option.map_eq_some_iff] at hx
    obtain ⟨n', hx, rfl⟩ := hx
    simp only [Fsnode.bind]
    split_ifs
    · exact List.nodup_cons.mpr ⟨hfresh x n' hx, h.nodup x n' hx⟩
    · exact h.nodup x n' hx
  · rw [hcell, Option.map_eq_some_iff] at hx
    obtain ⟨n', hx, rfl⟩ := hx
    have hn' := h.nLookup x n' hx
    simp only [Fsnode.bind]
    by_cases hxp : x = p
    · rw [if_pos hxp, if_pos hxp, List.length_cons, hn']
      omega
    · rw [if_neg hxp, if_neg hxp, hn', Nat.add_zero]
  · rw [hcell, Option.map_eq_some_iff] at hx
    obtain ⟨n', hx, rfl⟩ := hx
    have hiff : x = pparent ↔ e.key.parent = n'.inode.ino := by
      constructor
      · rintro rfl
        rw [← hino, Option.some.inj (hparent.symm.trans hx)]
      · intro hi
        exact h.eq_of_ino hx hparent (hi.symm.trans hino.symm)
    rw [hlookup]
    simp only [Fsnode.bind]
    rw [card_children_insert hkey, h.nChildren x n' hx, if_congr hiff rfl rfl]
  · rw [hnodes]
    rw [hlookup] at hv
    by_cases hkk : k' = e.key
    · rw [hkk]
      exact ⟨pparent, (h.nodes _ _).mpr ⟨nparent, hparent, hino⟩⟩
    · rw [Finmap.lookup_insert_of_ne _ hkk] at hv
      exact h.parents k' v hv
  · obtain ⟨n', hn'⟩ := h.root
    rw [hcell, hn']
    exact ⟨_, rfl⟩

/-- What the removal of a name of `p` below `pparent` makes of the node at `x`. -/
def Fsnode.unbind (n : Fsnode) (x p pparent q : ℕ) : Fsnode :=
  { n with
    nLookup := n.nLookup - if x = p then 1 else 0
    nChildren := n.nChildren - if x = pparent then 1 else 0
    parentList := if x = p then n.parentList.erase q else n.parentList }

/-- The nodes after a binding was taken away. -/
lemma cell_unbind {m : Pool Fsnode} : ((m.modify p fun n =>
      { n with nLookup := n.nLookup - 1, parentList := n.parentList.erase q }).modify pparent fun n =>
      { n with nChildren := n.nChildren - 1 }).cell x =
    (m.cell x).map fun n => n.unbind x p pparent q := by
  rw [Pool.cell_modify, Pool.cell_modify]
  by_cases hp : x = p
  · by_cases hpp : x = pparent
    · rw [if_pos hpp, if_pos hp, Option.map_map]
      refine congrArg (fun f => Option.map f _) (funext fun n => ?_)
      simp only [Fsnode.unbind, if_pos hp, if_pos hpp, Function.comp_apply]
    · rw [if_neg hpp, if_pos hp]
      refine congrArg (fun f => Option.map f _) (funext fun n => ?_)
      simp only [Fsnode.unbind, if_pos hp, if_neg hpp, Nat.sub_zero]
  · by_cases hpp : x = pparent
    · rw [if_pos hpp, if_neg hp]
      refine congrArg (fun f => Option.map f _) (funext fun n => ?_)
      simp only [Fsnode.unbind, if_neg hp, if_pos hpp, Nat.sub_zero]
    · rw [if_neg hpp, if_neg hp]
      have hid : (fun n : Fsnode => n.unbind x p pparent q) = id := by
        funext n
        simp only [Fsnode.unbind, if_neg hp, if_neg hpp, Nat.sub_zero, id]
      rw [hid, Option.map_id]
      rfl

lemma Inv.eq_of_mem (h : Inv s) (hkey : s.lookupHash.lookup k = some (q, p))
    (hx : s.nodes.cell x = some n') (hq : q ∈ n'.parentList) : x = p := by
  obtain ⟨n, e, -, -, he, hek⟩ := (h.bound k q p).mp hkey
  have hx' := (h.bound k q x).mpr ⟨n', e, hx, hq, he, hek⟩
  exact (Prod.mk.inj (Option.some.inj (hx'.symm.trans hkey))).2

/-- A binding is taken away. -/
lemma Inv.unbind (h : Inv s) (hparent : s.nodes.cell pparent = some nparent)
    (hino : nparent.inode.ino = k.parent) (hkey : s.lookupHash.lookup k = some (q, p))
    (hlookup : s'.lookupHash = s.lookupHash.erase k) (hnodes : s'.nodesHash = s.nodesHash)
    (hcell : ∀ x, s'.nodes.cell x = (s.nodes.cell x).map fun n => n.unbind x p pparent q)
    (hpeer : ∀ x, s'.peers.cell x = if x = q then none else s.peers.cell x) : Inv s' := by
  obtain ⟨n, e, hp, hq, he, hek⟩ := (h.bound k q p).mp hkey
  -- the peer was in the list of the node and in no other one
  have hlist : ∀ x n' q', s.nodes.cell x = some n' →
      (q' ∈ (n'.unbind x p pparent q).parentList ↔ q' ∈ n'.parentList ∧ q' ≠ q) := by
    intro x n' q' hx
    simp only [Fsnode.unbind]
    split_ifs with hxp
    · rw [(h.nodup x n' hx).mem_erase_iff, and_comm]
    · refine ⟨fun hq' => ⟨hq', ?_⟩, And.left⟩
      rintro rfl
      exact hxp (h.eq_of_mem hkey hx hq')
  have hold : ∀ q', q' ≠ q → s'.peers.cell q' = s.peers.cell q' := by
    intro q' hq'
    rw [hpeer, if_neg hq']
  refine ⟨fun i x => ?_, fun k' q' x => ?_, fun x m hx q' hq' => ?_, fun x m hx => ?_, fun x m hx => ?_,
    fun x m hx => ?_, fun k' v hv => ?_, ?_⟩
  · rw [hnodes, h.nodes, hcell]
    simp only [Option.map_eq_some_iff]
    constructor
    · rintro ⟨n', hx, hi⟩
      exact ⟨_, ⟨n', hx, rfl⟩, hi⟩
    · rintro ⟨m, ⟨n', hx, rfl⟩, hi⟩
      exact ⟨n', hx, hi⟩
  · rw [hlookup, hcell]
    simp only [Option.map_eq_some_iff]
    constructor
    · intro hk'
      have hkk : k' ≠ k := by
        rintro rfl
        rw [Finmap.lookup_erase] at hk'
        cases hk'
      rw [Finmap.lookup_erase_ne hkk] at hk'
      obtain ⟨n', e', hx, hq', he', hkey'⟩ := (h.bound k' q' x).mp hk'
      have hne : q' ≠ q := by
        rintro rfl
        rw [he] at he'
        exact hkk (hkey'.symm.trans (Option.some.inj he' ▸ hek))
      exact ⟨_, e', ⟨n', hx, rfl⟩, (hlist x n' q' hx).mpr ⟨hq', hne⟩, (hold q' hne).trans he', hkey'⟩
    · rintro ⟨m, e', ⟨n', hx, rfl⟩, hq', he', hkey'⟩
      obtain ⟨hq', hne⟩ := (hlist x n' q' hx).mp hq'
      have hk' := (h.bound k' q' x).mpr ⟨n', e', hx, hq', (hold q' hne).symm.trans he', hkey'⟩
      have hkk : k' ≠ k := by
        rintro rfl
        exact hne (Prod.mk.inj (Option.some.inj (hk'.symm.trans hkey))).1
      rw [Finmap.lookup_erase_ne hkk, hk']
  · rw [hcell, Option.map_eq_some_iff] at hx
    obtain ⟨n', hx, rfl⟩ := hx
    obtain ⟨hq', hne⟩ := (hlist x n' q' hx).mp hq'
    rw [hold q' hne]
    exact h.peers x n' hx q' hq'
  · rw [hcell, Option.map_eq_some_iff] at hx
    obtain ⟨n', hx, rfl⟩ := hx
    simp only [Fsnode.unbind]
    split_ifs
    · exact (h.nodup x n' hx).erase q
    · exact h.nodup x n' hx
  · rw [hcell, Option.map_eq_some_iff] at hx
    obtain ⟨n', hx, rfl⟩ := hx
    have hn' := h.nLookup x n' hx
    simp only [Fsnode.unbind]
    by_cases hxp : x = p
    · have hmem : q ∈ n'.parentList := by
        rw [hxp, hp] at hx
        rw [← Option.some.inj hx]
        exact hq
      have hpos := List.length_pos_of_mem hmem
      rw [if_pos hxp, if_pos hxp, List.length_erase_of_mem hmem, hn']
      omega
    · rw [if_neg hxp, if_neg hxp, hn', Nat.sub_zero]
  · rw [hcell, Option.map_eq_some_iff] at hx
    obtain ⟨n', hx, rfl⟩ := hx
    have hiff : x = pparent ↔ k.parent = n'.inode.ino := by
      constructor
      · rintro rfl
        rw [← hino, Option.some.inj (hparent.symm.trans hx)]
      · intro hi
        exact h.eq_of_ino hx hparent (hi.symm.trans hino.symm)
    rw [hlookup]
    simp only [Fsnode.unbind]
    rw [card_children_erase hkey, h.nChildren x n' hx, if_congr hiff rfl rfl]
  · rw [hnodes]
    rw [hlookup] at hv
    have hkk : k' ≠ k := by
      rintro rfl
      rw [Finmap.lookup_erase] at hv
      cases hv
    rw [Finmap.lookup_erase_ne hkk] at hv
    exact h.parents k' v hv
  · obtain ⟨n', hn'⟩ := h.root
    rw [hcell, hn']
    exact ⟨_, rfl⟩

/-- A node without links and children is freed. -/
lemma Inv.free (h : Inv s) (hp : s.nodes.cell p = some n) (hnLookup : n.nLookup = 0)
    (hnChildren : n.nChildren = 0) :
    Inv { s with nodesHash := s.nodesHash.erase n.inode.ino, nodes := s.nodes.release p } := by
  have hcell : ∀ x m, (s.nodes.release p).cell x = some m ↔ x ≠ p ∧ s.nodes.cell x = some m := by
    intro x m
    rw [Pool.cell_release]
    split_ifs with hx
    · exact ⟨fun hm => (by cases hm), fun hm => absurd hx hm.1⟩
    · exact ⟨fun hm => ⟨hx, hm⟩, And.right⟩
  have hcount := h.nLookup p n hp
  -- a node without links has no peers
  have hlist : n.parentList = [] := List.eq_nil_of_length_eq_zero (by omega)
  -- the root has a link of its own
  have hroot : p ≠ 0 := by
    rintro rfl
    rw [hnLookup, if_pos rfl] at hcount
    omega
  refine ⟨fun i x => ?_, fun k' q' x => ?_, fun x m hx q' hq' => ?_, fun x m hx => ?_, fun x m hx => ?_,
    fun x m hx => ?_, fun k' v hv => ?_, ?_⟩
  · simp only [hcell]
    by_cases hi : i = n.inode.ino
    · rw [hi, Finmap.lookup_erase]
      refine ⟨fun hx => (by cases hx), ?_⟩
      rintro ⟨m, ⟨hx, hm⟩, hmi⟩
      exact absurd (h.eq_of_ino hm hp hmi) hx
    · rw [Finmap.lookup_erase_ne hi, h.nodes]
      constructor
      · rintro ⟨m, hm, hmi⟩
        refine ⟨m, ⟨?_, hm⟩, hmi⟩
        rintro rfl
        rw [hp] at hm
        rw [← Option.some.inj hm] at hmi
        exact hi hmi.symm
      · rintro ⟨m, ⟨-, hm⟩, hmi⟩
        exact ⟨m, hm, hmi⟩
  · simp only [hcell]
    rw [h.bound]
    constructor
    · rintro ⟨m, e, hm, hq', he, hek⟩
      refine ⟨m, e, ⟨?_, hm⟩, hq', he, hek⟩
      rintro rfl
      rw [hp] at hm
      rw [← Option.some.inj hm, hlist] at hq'
      cases hq'
    · rintro ⟨m, e, ⟨-, hm⟩, hq', he, hek⟩
      exact ⟨m, e, hm, hq', he, hek⟩
  · exact h.peers x m ((hcell x m).mp hx).2 q' hq'
  · exact h.nodup x m ((hcell x m).mp hx).2
  · exact h.nLookup x m ((hcell x m).mp hx).2
  · exact h.nChildren x m ((hcell x m).mp hx).2
  · obtain ⟨x, hx⟩ := h.parents k' v hv
    refine ⟨x, ?_⟩
    have hne : k'.parent ≠ n.inode.ino := by
      intro hk'
      have hcard := h.nChildren p n hp
      rw [hnChildren, eq_comm, Finset.card_eq_zero] at hcard
      have hmem : k' ∈ children s.lookupHash n.inode.ino :=
        mem_children.mpr ⟨Finmap.mem_of_lookup_eq_some hv, hk'⟩
      rw [hcard] at hmem
      exact absurd hmem (Finset.notMem_empty k')
    rw [Finmap.lookup_erase_ne hne, hx]
  · obtain ⟨m, hm⟩ := h.root
    exact ⟨m, (hcell 0 m).mpr ⟨hroot.symm, hm⟩⟩

/-! ## `NamespaceAdd_nl` -/

/-- The nodes in use stay in use, with their inodes. -/
def Keeps (s s' : State) : Prop :=
  ∀ x n, s.nodes.cell x = some n → ∃ n', s'.nodes.cell x = some n' ∧ n'.inode = n.inode

lemma Keeps.refl : Keeps s s := fun _ n hn => ⟨n, hn, rfl⟩

variable {s₁ : State}

lemma Keeps.trans (h : Keeps s s₁) (h' : Keeps s₁ s') : Keeps s s' := by
  intro x n hn
  obtain ⟨n₁, hn₁, hino₁⟩ := h x n hn
  obtain ⟨n', hn', hino'⟩ := h' x n₁ hn₁
  exact ⟨n', hn', hino'.trans hino₁⟩

lemma Keeps.nodesHash_eq (h : Keeps s s') (hinv : Inv s) (hinv' : Inv s') (hp : s.nodesHash.lookup i = some p) :
    s'.nodesHash.lookup i = some p := by
  obtain ⟨n, hn, hi⟩ := (hinv.nodes i p).mp hp
  obtain ⟨n', hn', hino⟩ := h p n hn
  exact (hinv'.nodes i p).mpr ⟨n', hn', by rw [hino, hi]⟩

variable {gen : ℕ}

/-- A node that is new, still without a link. -/
lemma Inv.newNode (h : Inv s) (hi : s.nodesHash.lookup i = none) :
    Inv { s with nodes := s.nodes.alloc ⟨⟨i, gen⟩, 0, 0, []⟩, nodesHash := s.nodesHash.insert i s.nodes.next } := by
  have hcell : ∀ x m, (s.nodes.alloc ⟨⟨i, gen⟩, 0, 0, []⟩).cell x = some m ↔
      x = s.nodes.next ∧ m = ⟨⟨i, gen⟩, 0, 0, []⟩ ∨ s.nodes.cell x = some m := by
    intro x m
    rw [Pool.cell_alloc]
    split_ifs with hx
    · constructor
      · intro hm
        exact .inl ⟨hx, (Option.some.inj hm).symm⟩
      · rintro (⟨-, rfl⟩ | hm)
        · rfl
        · rw [hx, Pool.cell_next] at hm
          cases hm
    · exact ⟨.inr, fun hm => hm.resolve_left fun hnew => hx hnew.1⟩
  have hnext : s.nodes.next ≠ 0 := by
    intro hzero
    obtain ⟨n, hn⟩ := h.root
    rw [← hzero, Pool.cell_next] at hn
    cases hn
  -- an entry below the new inode would have had a node for its parent
  have hnone : ∀ k', k'.parent = i → s.lookupHash.lookup k' = none := by
    intro k' hk'
    cases hv : s.lookupHash.lookup k' with
    | none => rfl
    | some v =>
      obtain ⟨x, hx⟩ := h.parents k' v hv
      rw [hk', hi] at hx
      cases hx
  refine ⟨fun i' x => ?_, fun k' q' x => ?_, fun x m hx q' hq' => ?_, fun x m hx => ?_, fun x m hx => ?_,
    fun x m hx => ?_, fun k' v hv => ?_, ?_⟩
  · simp only [hcell]
    by_cases hii : i' = i
    · rw [hii, Finmap.lookup_insert]
      constructor
      · intro hx
        exact ⟨_, .inl ⟨(Option.some.inj hx).symm, rfl⟩, rfl⟩
      · rintro ⟨m, ⟨rfl, -⟩ | hm, hmi⟩
        · rfl
        · have hx := (h.nodes i x).mpr ⟨m, hm, hmi⟩
          rw [hi] at hx
          cases hx
    · rw [Finmap.lookup_insert_of_ne _ hii, h.nodes]
      constructor
      · rintro ⟨m, hm, hmi⟩
        exact ⟨m, .inr hm, hmi⟩
      · rintro ⟨m, ⟨-, rfl⟩ | hm, hmi⟩
        · exact absurd hmi.symm hii
        · exact ⟨m, hm, hmi⟩
  · simp only [hcell]
    rw [h.bound]
    constructor
    · rintro ⟨m, e, hm, hrest⟩
      exact ⟨m, e, .inr hm, hrest⟩
    · rintro ⟨m, e, ⟨-, rfl⟩ | hm, hrest⟩
      · cases hrest.1
      · exact ⟨m, e, hm, hrest⟩
  · rcases (hcell x m).mp hx with ⟨-, rfl⟩ | hm
    · cases hq'
    · exact h.peers x m hm q' hq'
  · rcases (hcell x m).mp hx with ⟨-, rfl⟩ | hm
    · exact List.nodup_nil
    · exact h.nodup x m hm
  · rcases (hcell x m).mp hx with ⟨rfl, rfl⟩ | hm
    · rw [if_neg hnext]
      rfl
    · exact h.nLookup x m hm
  · rcases (hcell x m).mp hx with ⟨-, rfl⟩ | hm
    · rw [eq_comm, Finset.card_eq_zero, Finset.eq_empty_iff_forall_notMem]
      intro k' hk'
      obtain ⟨hmem, hparent⟩ := mem_children.mp hk'
      exact Finmap.lookup_eq_none.mp (hnone k' hparent) hmem
    · exact h.nChildren x m hm
  · obtain ⟨x, hx⟩ := h.parents k' v hv
    refine ⟨x, ?_⟩
    rw [Finmap.lookup_insert_of_ne, hx]
    rintro hk'
    rw [hnone k' hk'] at hv
    cases hv
  · obtain ⟨m, hm⟩ := h.root
    exact ⟨m, (hcell 0 m).mpr (.inr hm)⟩

/-- What binding a name does. -/
structure Added (s s' : State) (k : Key) (p : ℕ) (rc : Errno) : Prop where
  inv : Inv s'
  keeps : Keeps s s'
  failed : rc ≠ .ok → s'.lookupHash = s.lookupHash
  added : rc = .ok → (∀ k', k' ≠ k → s'.lookupHash.lookup k' = s.lookupHash.lookup k') ∧
    ∃ q, s'.lookupHash.lookup k = some (q, p)

variable {parent : Inode} {name : String}

/-- The binding is made or the key was taken. -/
lemma addLookup_spec {err : Errno} (h : Inv s) (hparent : s.nodes.cell pparent = some nparent)
    (hino : nparent.inode.ino = parent.ino) (hp : s.nodes.cell p = some n) (herr : err ≠ .ok) :
    Added s (addLookup s parent name pparent p err).1 ⟨parent.ino, name⟩ p
        (addLookup s parent name pparent p err).2 ∧
      ((addLookup s parent name pparent p err).2 = .ok ∨ (addLookup s parent name pparent p err).2 = err) := by
  cases hkey : s.lookupHash.lookup ⟨parent.ino, name⟩ with
  | some v =>
    have hcell : ((s.peers.alloc ⟨parent, name⟩).release s.peers.next).cell = s.peers.cell := by
      funext x
      rw [Pool.cell_release, Pool.cell_alloc]
      split_ifs with hx
      · rw [hx, Pool.cell_next]
      · rfl
    simp only [addLookup, hInsertNewLookup, hkey]
    exact ⟨⟨h.of_cells rfl rfl rfl hcell, Keeps.refl, fun _ => rfl, fun hok => absurd hok herr⟩,
      .inr trivial⟩
  | none =>
    simp only [addLookup, hInsertNewLookup, hkey]
    refine ⟨⟨?_, ?_, fun hok => absurd rfl hok, fun _ => ⟨fun k' hk' => ?_, s.peers.next, ?_⟩⟩, .inl trivial⟩
    · exact h.bind (e := ⟨parent, name⟩) hparent hino hp hkey rfl rfl (fun x => cell_bind)
        fun x => Pool.cell_alloc _
    · intro x m hm
      refine ⟨m.bind x p pparent s.peers.next, ?_, rfl⟩
      rw [cell_bind, hm]
      rfl
    · exact Finmap.lookup_insert_of_ne _ hk'
    · exact Finmap.lookup_insert _

/-- `NamespaceAdd_nl` does not fail. It returns `EEXIST` if the name is bound to another inode, and
nothing has changed then. -/
lemma add_spec {entry : Ino} {newGen : ℕ} (h : Inv s) :
    ∃ s' p rc, namespaceAddNl s parent name entry newGen = some (s', rc) ∧
      Added s s' ⟨parent.ino, name⟩ p rc ∧ (rc = .ok → s'.nodesHash.lookup entry = some p) ∧
      (rc = .eexist → s' = s ∧ ∃ q p', s.lookupHash.lookup ⟨parent.ino, name⟩ = some (q, p') ∧
        s.nodesHash.lookup entry ≠ some p') := by
  have hsame : ∀ rc, rc ≠ .ok → Added s s ⟨parent.ino, name⟩ 0 rc := fun rc hrc =>
    ⟨h, Keeps.refl, fun _ => rfl, fun hok => absurd hok hrc⟩
  cases hparent : s.nodesHash.lookup parent.ino with
  | none =>
    refine ⟨s, 0, .enoent, by simp only [namespaceAddNl, hparent], hsame _ (by decide), ?_, ?_⟩
    · exact fun hok => by cases hok
    · exact fun hexist => by cases hexist
  | some pparent =>
    -- the parent is known, and so is its node
    obtain ⟨nparent, hnparent, hino⟩ := (h.nodes _ _).mp hparent
    by_cases hgen : nparent.inode.generation = parent.generation
    · cases hentry : s.nodesHash.lookup entry with
      | some p =>
        obtain ⟨n, hn, hni⟩ := (h.nodes _ _).mp hentry
        cases hkey : s.lookupHash.lookup ⟨parent.ino, name⟩ with
        | none =>
          obtain ⟨hadded, hrc⟩ := @addLookup_spec s p pparent n nparent parent name .efault h hnparent hino
            hn (by decide)
          refine ⟨_, p, _, by simp only [namespaceAddNl, hparent, hnparent, hgen, hentry, hkey, ne_eq,
            not_true, if_false], hadded, fun _ => ?_, fun hexist => ?_⟩
          · exact hadded.keeps.nodesHash_eq h hadded.inv hentry
          · rcases hrc with hrc | hrc
            · rw [hrc] at hexist
              cases hexist
            · rw [hrc] at hexist
              cases hexist
        | some v =>
          obtain ⟨q, pexist⟩ := v
          obtain ⟨nexist, e, hnexist, -⟩ := (h.bound _ _ _).mp hkey
          by_cases hsameEntry : nexist.inode.ino = entry
          · have hp : pexist = p := by
              refine h.eq_of_ino hnexist hn ?_
              rw [hsameEntry, hni]
            refine ⟨s, p, .ok, by simp only [namespaceAddNl, hparent, hnparent, hgen, hentry, hkey,
              hnexist, hsameEntry, ne_eq, not_true, if_false, if_true], ?_, fun _ => hentry, ?_⟩
            · refine ⟨h, Keeps.refl, fun hok => absurd rfl hok, fun _ => ⟨fun _ _ => rfl, q, ?_⟩⟩
              rw [hkey, hp]
            · exact fun hexist => by cases hexist
          · refine ⟨s, 0, .eexist, by simp only [namespaceAddNl, hparent, hnparent, hgen, hentry, hkey,
              hnexist, hsameEntry, ne_eq, not_true, if_false], hsame _ (by decide), ?_, ?_⟩
            · exact fun hok => by cases hok
            · refine fun _ => ⟨rfl, q, pexist, rfl, fun hp => ?_⟩
              obtain rfl : p = pexist := Option.some.inj hp
              rw [hn] at hnexist
              exact hsameEntry (Option.some.inj hnexist ▸ hni)
      | none =>
        have hnew := @Inv.newNode s entry newGen h hentry
        have hkeeps : Keeps s { s with
            nodes := s.nodes.alloc ⟨⟨entry, newGen⟩, 0, 0, []⟩
            nodesHash := s.nodesHash.insert entry s.nodes.next } := by
          intro x m hm
          refine ⟨m, ?_, rfl⟩
          rw [Pool.cell_alloc, if_neg, hm]
          rintro rfl
          rw [Pool.cell_next] at hm
          cases hm
        obtain ⟨nparent', hnparent', hino'⟩ := hkeeps pparent nparent hnparent
        have hn := (hnew.nodes entry s.nodes.next).mp (Finmap.lookup_insert _)
        obtain ⟨n, hn, -⟩ := hn
        obtain ⟨hadded, hrc⟩ := @addLookup_spec _ s.nodes.next pparent n nparent' parent name .enomem hnew
          hnparent' (by rw [hino', hino]) hn (by decide)
        refine ⟨_, s.nodes.next, _, by simp only [namespaceAddNl, hparent, hnparent, hgen, hentry,
          hInsertNewNode, ne_eq, not_true, if_false], ⟨hadded.inv, hkeeps.trans hadded.keeps, hadded.failed,
          hadded.added⟩, fun _ => ?_, fun hexist => ?_⟩
        · exact hadded.keeps.nodesHash_eq hnew hadded.inv (Finmap.lookup_insert _)
        · rcases hrc with hrc | hrc
          · rw [hrc] at hexist
            cases hexist
          · rw [hrc] at hexist
            cases hexist
    · refine ⟨s, 0, .estale, by simp only [namespaceAddNl, hparent, hnparent, ne_eq, hgen, not_false_eq_true,
        if_true], hsame _ (by decide), ?_, ?_⟩
      · exact fun hok => by cases hok
      · exact fun hexist => by cases hexist

/-! ## `NamespaceRemove_nl` -/

/-- The inode is in the namespace, with this generation. -/
def Known (s : State) (i : Inode) : Prop :=
  ∃ p n, s.nodesHash.lookup i.ino = some p ∧ s.nodes.cell p = some n ∧ n.inode.generation = i.generation

/-- The object that the name is bound to has no children if this is its last name, except for the name
itself. -/
def LastNameChildless (s : State) (k : Key) : Prop :=
  ∀ q p n, s.lookupHash.lookup k = some (q, p) → s.nodes.cell p = some n → n.nLookup = 1 →
    children s.lookupHash n.inode.ino ⊆ {k}

/-- What the removal of a name does. -/
structure Removed (s s' : State) (k : Key) (rc : Errno) : Prop where
  inv : Inv s'
  keeps : ∀ x n', s'.nodes.cell x = some n' → ∃ n, s.nodes.cell x = some n ∧ n'.inode = n.inode
  failed : rc ≠ .ok → s' = s
  removed : rc = .ok → s'.lookupHash.lookup k = none ∧
    ∀ k', k' ≠ k → s'.lookupHash.lookup k' = s.lookupHash.lookup k'

/-- A node is released if nothing refers to it. -/
lemma removeNode_spec (h : Inv s) (hp : s.nodes.cell p = some n)
    (hchildren : n.nLookup = 0 → n.nChildren = 0) :
    ∃ s', removeNode s p = some (s', .ok) ∧ Inv s' ∧ s'.lookupHash = s.lookupHash ∧
      ∀ x n', s'.nodes.cell x = some n' → s.nodes.cell x = some n' := by
  by_cases hzero : n.nLookup = 0
  · have hnode := (h.nodes n.inode.ino p).mpr ⟨n, hp, rfl⟩
    refine ⟨_, by simp only [removeNode, hp, hzero, hchildren hzero, hnode, if_true], h.free hp hzero
      (hchildren hzero), rfl, fun x n' hx => ?_⟩
    rw [Pool.cell_release] at hx
    split_ifs at hx
    exact hx
  · exact ⟨s, by simp only [removeNode, hp, hzero, if_false], h, rfl, fun x n' hx => hx⟩

/-- The state after the removal of a name of `p` below `pparent`, before the node is freed. -/
def unbound (s : State) (k : Key) (q p pparent : ℕ) : State :=
  { s with
    lookupHash := s.lookupHash.erase k
    nodes := (s.nodes.modify p fun n =>
      { n with nLookup := n.nLookup - 1, parentList := n.parentList.erase q }).modify pparent fun n =>
      { n with nChildren := n.nChildren - 1 }
    peers := s.peers.release q }

/-- A removal is the unbinding and perhaps a release. -/
lemma namespaceRemoveNl_eq (h : Inv s) (hparent : s.nodesHash.lookup parent.ino = some pparent)
    (hnparent : s.nodes.cell pparent = some nparent) (hino : nparent.inode.ino = parent.ino)
    (hgen : nparent.inode.generation = parent.generation)
    (hkey : s.lookupHash.lookup ⟨parent.ino, name⟩ = some (q, p)) :
    namespaceRemoveNl s parent name = removeNode (unbound s ⟨parent.ino, name⟩ q p pparent) p := by
  obtain ⟨n, e, hn, hq, -, -⟩ := (h.bound _ _ _).mp hkey
  have hpos : 0 < n.nLookup := by
    have hlength := List.length_pos_of_mem hq
    have hcount := h.nLookup p n hn
    omega
  have hchild : 0 < nparent.nChildren := by
    rw [h.nChildren pparent nparent hnparent, hino]
    exact Finset.card_pos.mpr ⟨_, mem_children.mpr ⟨Finmap.mem_of_lookup_eq_some hkey, rfl⟩⟩
  have hcell : ∃ nparent', (s.nodes.modify p fun n =>
      { n with nLookup := n.nLookup - 1, parentList := n.parentList.erase q }).cell pparent = some nparent' ∧
        0 < nparent'.nChildren := by
    rw [Pool.cell_modify, hnparent]
    split_ifs
    · exact ⟨_, rfl, hchild⟩
    · exact ⟨_, rfl, hchild⟩
  obtain ⟨nparent', hnparent', hchild'⟩ := hcell
  simp only [namespaceRemoveNl, hparent, hnparent, hgen, hDelLookup, hkey, hn, hpos, hq, hnparent', hchild',
    ne_eq, not_true, if_false, if_true, unbound]

lemma inv_unbound (h : Inv s) (hnparent : s.nodes.cell pparent = some nparent)
    (hino : nparent.inode.ino = k.parent) (hkey : s.lookupHash.lookup k = some (q, p)) :
    Inv (unbound s k q p pparent) :=
  h.unbind hnparent hino hkey rfl rfl (fun _ => cell_unbind) fun _ => Pool.cell_release _

/-- What a removal does, in one of its three ways. -/
lemma remove_spec (h : Inv s) (hlast : Known s parent → LastNameChildless s ⟨parent.ino, name⟩) :
    ∃ s' rc, namespaceRemoveNl s parent name = some (s', rc) ∧ Removed s s' ⟨parent.ino, name⟩ rc := by
  have hsame : ∀ rc, (rc = .ok → s.lookupHash.lookup ⟨parent.ino, name⟩ = none) →
      Removed s s ⟨parent.ino, name⟩ rc := fun rc hrc =>
    ⟨h, fun x n' hn' => ⟨n', hn', rfl⟩, fun _ => rfl, fun hok => ⟨hrc hok, fun _ _ => rfl⟩⟩
  cases hparent : s.nodesHash.lookup parent.ino with
  | none =>
    refine ⟨s, .enoent, by simp only [namespaceRemoveNl, hparent], hsame _ fun hok => ?_⟩
    cases hok
  | some pparent =>
    obtain ⟨nparent, hnparent, hino⟩ := (h.nodes _ _).mp hparent
    by_cases hgen : nparent.inode.generation = parent.generation
    · cases hkey : s.lookupHash.lookup ⟨parent.ino, name⟩ with
      | none =>
        refine ⟨s, .ok, by simp only [namespaceRemoveNl, hparent, hnparent, hgen, hDelLookup, hkey, ne_eq,
          not_true, if_false], hsame _ fun _ => hkey⟩
      | some v =>
        obtain ⟨q, p⟩ := v
        obtain ⟨n, e, hn, hq, -, -⟩ := (h.bound _ _ _).mp hkey
        have hinv := inv_unbound h hnparent hino hkey
        have hcell : (unbound s ⟨parent.ino, name⟩ q p pparent).nodes.cell p =
            some (n.unbind p p pparent q) := by
          rw [unbound, cell_unbind, hn]
          rfl
        -- without the name the children of a node that loses its last name are gone
        have hchildren : (n.unbind p p pparent q).nLookup = 0 →
            (n.unbind p p pparent q).nChildren = 0 := by
          intro hzero
          have hlength := List.length_pos_of_mem hq
          have hcount := h.nLookup p n hn
          simp only [Fsnode.unbind, if_true] at hzero
          have hknown : Known s parent := ⟨pparent, nparent, hparent, hnparent, hgen⟩
          have hsub := hlast hknown q p n hkey hn (by omega)
          rw [hinv.nChildren p _ hcell, Finset.card_eq_zero]
          show children (s.lookupHash.erase _) n.inode.ino = ∅
          rw [children_erase, Finset.eq_empty_iff_forall_notMem]
          intro k' hk'
          obtain ⟨hne, hk'⟩ := Finset.mem_erase.mp hk'
          exact hne (Finset.mem_singleton.mp (hsub hk'))
        obtain ⟨s', hs', hinv', hlookup, hcells⟩ := removeNode_spec hinv hcell hchildren
        refine ⟨s', .ok, ?_, hinv', fun x n' hn' => ?_, fun hok => absurd rfl hok, fun _ => ?_⟩
        · rw [namespaceRemoveNl_eq h hparent hnparent hino hgen hkey, hs']
        · have hx := hcells x n' hn'
          rw [unbound, cell_unbind, Option.map_eq_some_iff] at hx
          obtain ⟨m, hm, rfl⟩ := hx
          exact ⟨m, hm, rfl⟩
        · rw [hlookup]
          exact ⟨Finmap.lookup_erase _ _, fun k' hk' => Finmap.lookup_erase_ne hk'⟩
    · refine ⟨s, .estale, by simp only [namespaceRemoveNl, hparent, hnparent, ne_eq, hgen,
        not_false_eq_true, if_true], hsame _ fun hok => ?_⟩
      cases hok

/-! ## `NamespaceRename` -/

/-- The object that a name is bound to. -/
def binding (s : State) (k : Key) : Option Inode :=
  (s.lookupHash.lookup k).bind fun v => (s.nodes.cell v.2).map Fsnode.inode

lemma binding_eq (hlookup : s.lookupHash.lookup k = some (q, p)) (hp : s.nodes.cell p = some n) :
    binding s k = some n.inode := by
  rw [binding, hlookup, Option.bind_some, hp]
  rfl

lemma binding_eq_none (hlookup : s.lookupHash.lookup k = none) : binding s k = none := by
  rw [binding, hlookup]
  rfl

variable {rc : Errno}

/-- Other names keep their nodes. -/
lemma Added.binding_eq (h : Added s s' k p rc) (hinv : Inv s)
    (hk' : s'.lookupHash.lookup k' = s.lookupHash.lookup k') : binding s' k' = binding s k' := by
  cases hv : s.lookupHash.lookup k' with
  | none => rw [binding_eq_none hv, binding_eq_none (hk'.trans hv)]
  | some v =>
    obtain ⟨q', x⟩ := v
    obtain ⟨m, e, hm, -⟩ := (hinv.bound _ _ _).mp hv
    obtain ⟨m', hm', hinode⟩ := h.keeps x m hm
    rw [FuseLike.binding_eq hv hm, FuseLike.binding_eq (hk'.trans hv) hm', hinode]

/-- Other names keep their nodes. -/
lemma Removed.binding_eq (h : Removed s s' k rc) (hk' : s'.lookupHash.lookup k' = s.lookupHash.lookup k') :
    binding s' k' = binding s k' := by
  cases hv : s.lookupHash.lookup k' with
  | none => rw [binding_eq_none hv, binding_eq_none (hk'.trans hv)]
  | some v =>
    obtain ⟨q', x⟩ := v
    obtain ⟨m', e, hm', -⟩ := (h.inv.bound _ _ _).mp (hk'.trans hv)
    obtain ⟨m, hm, hinode⟩ := h.keeps x m' hm'
    rw [FuseLike.binding_eq hv hm, FuseLike.binding_eq (hk'.trans hv) hm', hinode]

/-- Two names make a count of two at least. -/
lemma Inv.two_le_nLookup {q' : ℕ} (h : Inv s) (hk : s.lookupHash.lookup k = some (q, p))
    (hk' : s.lookupHash.lookup k' = some (q', p)) (hne : k ≠ k') (hp : s.nodes.cell p = some n) :
    2 ≤ n.nLookup := by
  obtain ⟨m, e, hm, hq, he, hek⟩ := (h.bound _ _ _).mp hk
  obtain ⟨m', e', hm', hq', he', hek'⟩ := (h.bound _ _ _).mp hk'
  obtain rfl : m = n := Option.some.inj (hm.symm.trans hp)
  obtain rfl : m' = m := Option.some.inj (hm'.symm.trans hp)
  have hqq : q ≠ q' := by
    rintro rfl
    rw [he] at he'
    exact hne (hek.symm.trans (Option.some.inj he' ▸ hek'))
  have hsub : [q, q'] ⊆ m'.parentList := by
    intro x hx
    rcases List.mem_cons.mp hx with rfl | hx
    · exact hq
    · rw [List.mem_singleton.mp hx]
      exact hq'
  have hlength := (List.subperm_of_subset (List.nodup_cons.mpr
    ⟨fun hmem => hqq (List.mem_singleton.mp hmem), List.nodup_singleton q'⟩) hsub).length_le
  have hcount := h.nLookup p m' hp
  simp only [List.length_cons, List.length_nil] at hlength
  omega

/-- The target has the object of the source, the source has none, and the others are as before. -/
structure Renamed (s s' : State) (src tgt : Key) : Prop where
  target : binding s' tgt = binding s src
  source : binding s' src = none
  other : ∀ k, k ≠ src → k ≠ tgt → binding s' k = binding s k

variable {src : Inode} {nameSrc : String}

/-- After the new name is bound the old one can go. -/
lemma renameSource_spec {tgt : Key} (h : Inv s) (hadded : Added s s₁ tgt p rc)
    (hsrc : s.lookupHash.lookup ⟨src.ino, nameSrc⟩ = some (q, p)) (hne : (⟨src.ino, nameSrc⟩ : Key) ≠ tgt) :
    ∃ s' rc', renameSource (some (s₁, rc)) src nameSrc = some (s', rc') ∧ Inv s' ∧
      (rc' = .ok → Renamed s s' ⟨src.ino, nameSrc⟩ tgt) := by
  by_cases hok : rc = .ok
  · obtain ⟨hother, q', htgt⟩ := hadded.added hok
    have hsrc₁ := (hother _ hne).trans hsrc
    -- the object has both names, so this is not its last one
    have hlast : LastNameChildless s₁ ⟨src.ino, nameSrc⟩ := by
      intro q₁ p₁ n hlookup hn hone
      rw [hsrc₁] at hlookup
      obtain ⟨rfl, rfl⟩ := Prod.mk.inj (Option.some.inj hlookup)
      have htwo := hadded.inv.two_le_nLookup hsrc₁ htgt hne hn
      omega
    obtain ⟨s', rc', hs', hremoved⟩ := remove_spec hadded.inv fun _ => hlast
    refine ⟨s', rc', ?_, hremoved.inv, fun hok' => ?_⟩
    · simp only [renameSource, hok, ne_eq, not_true, if_false, hs']
    · obtain ⟨hgone, hother'⟩ := hremoved.removed hok'
      refine ⟨?_, binding_eq_none hgone, fun k hks hkt => ?_⟩
      · obtain ⟨n₁, e, hn₁, -⟩ := (hadded.inv.bound _ _ _).mp htgt
        rw [hremoved.binding_eq (hother' tgt hne.symm), binding_eq htgt hn₁, ← hadded.binding_eq h (hother _ hne),
          binding_eq hsrc₁ hn₁]
      · rw [hremoved.binding_eq (hother' k hks), hadded.binding_eq h (hother k hkt)]
  · refine ⟨s₁, rc, ?_, hadded.inv, fun hok' => absurd hok' hok⟩
    simp only [renameSource, hok, ne_eq, not_false_eq_true, if_true]

/-- The new name of a rename. -/
lemma addRename_spec {tgt : Inode} {nameTgt : String} {p' : ℕ} (h : Inv s) (hn : s.nodes.cell p = some n)
    (hsrc : s.lookupHash.lookup ⟨src.ino, nameSrc⟩ = some (q, p))
    (hne : (⟨src.ino, nameSrc⟩ : Key) ≠ ⟨tgt.ino, nameTgt⟩) (hadded : Added s s₁ ⟨tgt.ino, nameTgt⟩ p' rc)
    (hnode : rc = .ok → s₁.nodesHash.lookup n.inode.ino = some p') :
    ∃ s' rc', renameSource (some (s₁, rc)) src nameSrc = some (s', rc') ∧ Inv s' ∧
      (rc' = .ok → Renamed s s' ⟨src.ino, nameSrc⟩ ⟨tgt.ino, nameTgt⟩) := by
  have hp : Added s s₁ ⟨tgt.ino, nameTgt⟩ p rc := by
    refine ⟨hadded.inv, hadded.keeps, hadded.failed, fun hok => ?_⟩
    have hsame := hadded.keeps.nodesHash_eq h hadded.inv ((h.nodes n.inode.ino p).mpr ⟨n, hn, rfl⟩)
    rw [hnode hok] at hsame
    rw [← Option.some.inj hsame]
    exact hadded.added hok
  exact renameSource_spec h hp hsrc hne

/-- `NamespaceRename` fails no assertion, and if it returns 0 it has renamed, unless the two names are
the same. -/
lemma rename_spec {tgt : Inode} {nameTgt : String} (h : Inv s)
    (hlast : Known s tgt → ∀ q p q' p', s.lookupHash.lookup ⟨src.ino, nameSrc⟩ = some (q, p) →
      s.lookupHash.lookup ⟨tgt.ino, nameTgt⟩ = some (q', p') → p' ≠ p →
      LastNameChildless s ⟨tgt.ino, nameTgt⟩) :
    ∃ s' rc, namespaceRename s src nameSrc tgt nameTgt = some (s', rc) ∧ Inv s' ∧
      (rc = .ok → if (⟨src.ino, nameSrc⟩ : Key) = ⟨tgt.ino, nameTgt⟩ then s' = s
        else Renamed s s' ⟨src.ino, nameSrc⟩ ⟨tgt.ino, nameTgt⟩) := by
  cases hsrc : s.lookupHash.lookup ⟨src.ino, nameSrc⟩ with
  | none =>
    refine ⟨s, .noSuchKey, by simp only [namespaceRename, hsrc], h, fun hok => ?_⟩
    cases hok
  | some v =>
    obtain ⟨q, p⟩ := v
    obtain ⟨n, e, hn, -⟩ := (h.bound _ _ _).mp hsrc
    -- a rename to the same name
    by_cases heq : src.ino = tgt.ino ∧ nameSrc = nameTgt
    · refine ⟨s, .ok, by simp only [namespaceRename, hsrc, heq, if_true, and_self], h, fun _ => ?_⟩
      rw [if_pos (by rw [heq.1, heq.2])]
    · have hne : (⟨src.ino, nameSrc⟩ : Key) ≠ ⟨tgt.ino, nameTgt⟩ := fun hkey => heq (Key.mk.inj hkey)
      simp only [if_neg hne]
      obtain ⟨s₁, p₁, rc₁, hs₁, hadded₁, hnode₁, hexist⟩ :=
        @add_spec s tgt nameTgt n.inode.ino n.inode.generation h
      by_cases hrc₁ : rc₁ = .eexist
      · obtain ⟨rfl, q', p', htgt, hother⟩ := hexist hrc₁
        have hpp : p' ≠ p := by
          rintro rfl
          exact hother ((h.nodes _ _).mpr ⟨n, hn, rfl⟩)
        obtain ⟨s₂, rc₂, hs₂, hremoved⟩ := remove_spec h fun hknown => hlast hknown q p q' p' hsrc htgt hpp
        by_cases hrc₂ : rc₂ = .ok
        · -- the source is still bound to its node
          obtain ⟨hgone, hkept⟩ := hremoved.removed hrc₂
          have hsrc₂ := (hkept _ hne).trans hsrc
          obtain ⟨n₂, e₂, hn₂, -⟩ := (hremoved.inv.bound _ _ _).mp hsrc₂
          obtain ⟨s₃, p₃, rc₃, hs₃, hadded₃, hnode₃, -⟩ :=
            @add_spec s₂ tgt nameTgt n₂.inode.ino n₂.inode.generation hremoved.inv
          obtain ⟨s', rc', hs', hinv', hrenamed⟩ :=
            addRename_spec hremoved.inv hn₂ hsrc₂ hne hadded₃ hnode₃
          refine ⟨s', rc', ?_, hinv', fun hok => ?_⟩
          · simp only [namespaceRename, hsrc, heq, if_false, hn, hs₁, hrc₁, hs₂, hrc₂, hn₂, hs₃, hs']
          · have hr := hrenamed hok
            refine ⟨?_, hr.source, fun k hks hkt => ?_⟩
            · rw [hr.target, hremoved.binding_eq (hkept _ hne)]
            · rw [hr.other k hks hkt, hremoved.binding_eq (hkept k hkt)]
        · refine ⟨s₂, rc₂, ?_, hremoved.inv, fun hok => absurd hok hrc₂⟩
          cases rc₂ with
          | ok => exact absurd rfl hrc₂
          | _ => simp only [namespaceRename, hsrc, heq, if_false, hn, hs₁, hrc₁, hs₂]
      · obtain ⟨s', rc', hs', hinv', hrenamed⟩ := addRename_spec h hn hsrc hne hadded₁ hnode₁
        refine ⟨s', rc', ?_, hinv', hrenamed⟩
        cases rc₁ with
        | eexist => exact absurd rfl hrc₁
        | _ => simp only [namespaceRename, hsrc, heq, if_false, hn, hs₁, hs']

/-! ## Runs -/

/-- What the mirrored file system guarantees: an object loses its last name only when it has no
children. A call for a parent that is not known, or has another generation, takes no name away. -/
def Guaranteed (s : State) : Call → Prop
  | .add _ _ _ _ => True
  | .remove parent name => Known s parent → LastNameChildless s ⟨parent.ino, name⟩
  | .rename src nameSrc tgt nameTgt => Known s tgt → ∀ q p q' p',
    s.lookupHash.lookup ⟨src.ino, nameSrc⟩ = some (q, p) →
    s.lookupHash.lookup ⟨tgt.ino, nameTgt⟩ = some (q', p') → p' ≠ p →
    LastNameChildless s ⟨tgt.ino, nameTgt⟩

/-- The namespace with the root alone. -/
lemma inv_namespaceInit {root : Ino} : Inv (namespaceInit root gen) := by
  have hcell : ∀ x m, (namespaceInit root gen).nodes.cell x = some m ↔
      x = 0 ∧ m = ⟨⟨root, gen⟩, 1, 0, []⟩ := by
    intro x m
    have hnext : (Pool.empty : Pool Fsnode).next = 0 := rfl
    rw [namespaceInit, Pool.cell_alloc, hnext]
    split_ifs with hx
    · exact ⟨fun hm => ⟨hx, (Option.some.inj hm).symm⟩, fun hm => by rw [hm.2]⟩
    · exact ⟨fun hm => (by cases hm), fun hm => absurd hm.1 hx⟩
  refine ⟨fun i x => ?_, fun k q x => ?_, fun x m hx q hq => ?_, fun x m hx => ?_, fun x m hx => ?_,
    fun x m hx => ?_, fun k v hv => ?_, ⟨_, (hcell 0 _).mpr ⟨rfl, rfl⟩⟩⟩
  · simp only [hcell]
    constructor
    · intro hi
      have hmem : i ∈ Finmap.singleton root 0 := Finmap.mem_of_lookup_eq_some hi
      obtain rfl : i = root := (Finmap.mem_singleton _ _ _).mp hmem
      refine ⟨_, ⟨?_, rfl⟩, rfl⟩
      exact (Option.some.inj (Finmap.lookup_singleton_eq.symm.trans hi)).symm
    · rintro ⟨m, ⟨rfl, rfl⟩, rfl⟩
      exact Finmap.lookup_singleton_eq
  · constructor
    · intro hk
      rw [show (namespaceInit root gen).lookupHash = ∅ from rfl, Finmap.lookup_empty] at hk
      cases hk
    · rintro ⟨m, e, hm, hq, -⟩
      obtain ⟨-, rfl⟩ := (hcell x m).mp hm
      cases hq
  · obtain ⟨-, rfl⟩ := (hcell x m).mp hx
    cases hq
  · obtain ⟨-, rfl⟩ := (hcell x m).mp hx
    exact List.nodup_nil
  · obtain ⟨rfl, rfl⟩ := (hcell x m).mp hx
    rfl
  · obtain ⟨-, rfl⟩ := (hcell x m).mp hx
    rfl
  · rw [show (namespaceInit root gen).lookupHash = ∅ from rfl, Finmap.lookup_empty] at hv
    cases hv

/-- Every guaranteed call ends and keeps the invariant. -/
lemma Inv.call (h : Inv s) {c : Call} (hc : Guaranteed s c) :
    ∃ s' rc, call s c = some (s', rc) ∧ Inv s' := by
  cases c with
  | add parent name entry newGen =>
    obtain ⟨s', p, rc, hs', hadded, -⟩ := @add_spec s parent name entry newGen h
    exact ⟨s', rc, hs', hadded.inv⟩
  | remove parent name =>
    obtain ⟨s', rc, hs', hremoved⟩ := remove_spec h hc
    exact ⟨s', rc, hs', hremoved.inv⟩
  | rename src nameSrc tgt nameTgt =>
    obtain ⟨s', rc, hs', hinv, -⟩ := rename_spec h hc
    exact ⟨s', rc, hs', hinv⟩

lemma inv_of_reachable {root : Ino} (h : ReachableBy step Guaranteed (namespaceInit root gen) s) : Inv s := by
  refine h.invariant inv_namespaceInit fun s c s' hs hc hstep => ?_
  obtain ⟨s₁, rc, hs₁, hinv⟩ := hs.call hc
  rw [step, hs₁] at hstep
  rw [← Option.some.inj hstep]
  exact hinv

/-- In every run with the guarantee of the mirrored file system the tables, the lists and the counts
agree, every call returns, and a `NamespaceRename` that returns 0 has bound the target to the object of
the source and unbound the source and nothing else. With the same source and target it has changed
nothing. -/
theorem inv_of_guaranteed (root : Ino) (gen : ℕ) (s : State)
    (h : ReachableBy step Guaranteed (namespaceInit root gen) s) :
    Inv s ∧ (∀ c, Guaranteed s c → (call s c).isSome = true) ∧
    ∀ src nameSrc tgt nameTgt s', Guaranteed s (.rename src nameSrc tgt nameTgt) →
      namespaceRename s src nameSrc tgt nameTgt = some (s', .ok) →
      if (⟨src.ino, nameSrc⟩ : Key) = ⟨tgt.ino, nameTgt⟩ then s' = s
      else Renamed s s' ⟨src.ino, nameSrc⟩ ⟨tgt.ino, nameTgt⟩ := by
  have hinv := inv_of_reachable h
  refine ⟨hinv, fun c hc => ?_, fun src nameSrc tgt nameTgt s' hc hs' => ?_⟩
  · obtain ⟨s', rc, hs', -⟩ := hinv.call hc
    rw [hs']
    rfl
  · obtain ⟨s₁, rc, hs₁, -, hrenamed⟩ := rename_spec hinv hc
    rw [hs'] at hs₁
    obtain ⟨rfl, rfl⟩ := Prod.mk.inj (Option.some.inj hs₁)
    exact hrenamed rfl

/-! ## Sample runs -/

/-- The inode of a root. -/
def sampleRoot : Ino := ⟨2, 1⟩

/-- A file with two names and another file. -/
def sampleCalls : List Call :=
  [.add ⟨sampleRoot, 0⟩ "a" ⟨3, 1⟩ 7, .add ⟨sampleRoot, 0⟩ "b" ⟨3, 1⟩ 7, .add ⟨sampleRoot, 0⟩ "c" ⟨4, 1⟩ 8]

lemma meets_sampleCalls : Meets step Guaranteed (namespaceInit sampleRoot 0) sampleCalls :=
  And.intro trivial (And.intro trivial (And.intro trivial trivial))

/-- One name of the first file is renamed over the second file, which loses its only name. -/
theorem inv_of_guaranteed_replaced :
    ∃ s s', execute step (namespaceInit sampleRoot 0) sampleCalls = some s ∧ Inv s ∧
      namespaceRename s ⟨sampleRoot, 0⟩ "a" ⟨sampleRoot, 0⟩ "c" = some (s', .ok) ∧
      Renamed s s' ⟨sampleRoot, "a"⟩ ⟨sampleRoot, "c"⟩ := by
  have hrun : ((execute step (namespaceInit sampleRoot 0) sampleCalls).any fun s =>
      s.lookupHash.lookup ⟨sampleRoot, "c"⟩ = some (2, 2) ∧
      s.nodes.cell 2 = some ⟨⟨⟨4, 1⟩, 8⟩, 1, 0, [2]⟩ ∧ children s.lookupHash ⟨4, 1⟩ = ∅ ∧
      (namespaceRename s ⟨sampleRoot, 0⟩ "a" ⟨sampleRoot, 0⟩ "c").any (fun r => r.2 = .ok) = true) = true := by
    decide +kernel
  rw [Option.any_eq_true] at hrun
  obtain ⟨s, hs, hfinal⟩ := hrun
  obtain ⟨hc, hcell, hchildren, hrename⟩ := of_decide_eq_true hfinal
  rw [Option.any_eq_true] at hrename
  obtain ⟨⟨s', rc⟩, hs', hrc⟩ := hrename
  obtain rfl : rc = .ok := of_decide_eq_true hrc
  obtain ⟨hinv, -, hrenamed⟩ := inv_of_guaranteed sampleRoot 0 s (reachableBy_of_execute hs meets_sampleCalls)
  refine ⟨s, s', hs, hinv, hs', ?_⟩
  have hguaranteed : Guaranteed s (.rename ⟨sampleRoot, 0⟩ "a" ⟨sampleRoot, 0⟩ "c") := by
    intro _ _ _ _ _ _ _ _ q p n hlookup hn _
    rw [hc] at hlookup
    obtain ⟨rfl, rfl⟩ := Prod.mk.inj (Option.some.inj hlookup)
    rw [hcell] at hn
    rw [← Option.some.inj hn, hchildren]
    exact Finset.empty_subset _
  have hresult := hrenamed _ _ _ _ _ hguaranteed hs'
  rw [if_neg (by decide)] at hresult
  exact hresult

/-- A `NamespaceRename` to the same name returns 0 and leaves the name bound. -/
theorem not_renamed_of_same_name :
    ¬ ∀ s src nameSrc tgt nameTgt s', ReachableBy step Guaranteed (namespaceInit sampleRoot 0) s →
      Guaranteed s (.rename src nameSrc tgt nameTgt) →
      namespaceRename s src nameSrc tgt nameTgt = some (s', .ok) →
      Renamed s s' ⟨src.ino, nameSrc⟩ ⟨tgt.ino, nameTgt⟩ := by
  intro h
  have hrun : ((execute step (namespaceInit sampleRoot 0) sampleCalls).any fun s =>
      (namespaceRename s ⟨sampleRoot, 0⟩ "a" ⟨sampleRoot, 0⟩ "a").any (fun r =>
        r.2 = .ok ∧ binding r.1 ⟨sampleRoot, "a"⟩ = some ⟨⟨3, 1⟩, 7⟩) = true) = true := by
    decide +kernel
  rw [Option.any_eq_true] at hrun
  obtain ⟨s, hs, hrename⟩ := hrun
  rw [decide_eq_true_eq, Option.any_eq_true] at hrename
  obtain ⟨⟨s', rc⟩, hs', hfinal⟩ := hrename
  obtain ⟨hrc, hbinding⟩ := of_decide_eq_true hfinal
  obtain rfl : rc = .ok := hrc
  have hguaranteed : Guaranteed s (.rename ⟨sampleRoot, 0⟩ "a" ⟨sampleRoot, 0⟩ "a") := by
    intro _ q p q' p' hlookup hlookup' hne
    rw [hlookup] at hlookup'
    exact absurd (Prod.mk.inj (Option.some.inj hlookup')).2.symm hne
  have hsource := (h s _ _ _ _ s' (reachableBy_of_execute hs meets_sampleCalls) hguaranteed hs').source
  rw [hbinding] at hsource
  cases hsource

end Ganesha.FuseLike
