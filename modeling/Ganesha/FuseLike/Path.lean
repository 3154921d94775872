import Mathlib.Order.Preorder.Finite
import Mathlib.Order.WellFounded
import Ganesha.FuseLike.Atomicity

/-!
# Paths of inodes

`NamespacePath` of `FSAL/FSAL_FUSELIKE/namespace.c`, which builds a path of an inode backwards along the
first parent of each node.
-/

namespace Ganesha.FuseLike
open Library Library.Transition Relation

variable {s s' : State} {k : Key} {p q x pparent : ℕ} {n n' : Fsnode} {parent : Inode} {name : String}
  {entry : Ino} {newGen : ℕ} {root : Ino}

/-! ## The function -/

/-- `FSAL_MAX_NAME_LEN`, which is `NAME_MAX`. -/
def fsalMaxNameLen : ℕ := 255

/-- `FSAL_MAX_PATH_LEN`, which is `PATH_MAX`. -/
def fsalMaxPathLen : ℕ := 4096

/-- What `NamespacePath` returns. -/
inductive PathRc
  | ok
  | enoent
  | estale
  | eloop
  deriving DecidableEq

/-- What `NamespacePath` returns, with the path and the number of readers that hold the lock. -/
structure PathResult where
  rc : PathRc
  path : List Char
  readers : ℕ
  deriving DecidableEq

/-- What `snprintf` writes to a buffer of this size. -/
def snprintf (size : ℕ) (text : List Char) : List Char := text.take (size - 1)

/-- The loop of `NamespacePath`. The two buffers are strings, with a character for a byte. There is no result
if the fuel is used up, or a node that was freed is used. -/
def pathLoop (s : State) : ℕ → Inode → List Char → List Char → ℕ → Option PathResult
  | 0, _, _, _, _ => none
  | fuel + 1, curr, path, tmpPath, readers =>
    match s.nodesHash.lookup curr.ino with
    | none => some ⟨.enoent, path, readers - 1⟩
    | some p =>
      match s.nodes.cell p with
      | none => none
      | some n =>
        if n.inode.generation ≠ curr.generation then some ⟨.estale, path, readers - 1⟩
        else
          match n.parentList with
          | [] => some ⟨.ok, snprintf fsalMaxPathLen ('/' :: tmpPath), readers - 1⟩
          | q :: _ =>
            match s.peers.cell q with
            | none => none
            | some e =>
              if path = [] then
                -- `strncpy`
                let path := e.name.toList.take fsalMaxNameLen
                pathLoop s fuel e.parent path path readers
              else
                let path := snprintf fsalMaxPathLen (e.name.toList ++ '/' :: tmpPath)
                if curr.ino = e.parent.ino then some ⟨.eloop, path, readers - 1⟩
                else pathLoop s fuel e.parent path path readers

def namespacePath (s : State) (fuel : ℕ) (entry : Inode) (readers : ℕ) : Option PathResult :=
  pathLoop s fuel entry [] [] (readers + 1)

/-! ## What the property is about -/

/-- A call that returns 0. -/
def stepOk (s : State) (c : Call) : Option State :=
  match call s c with
  | some (s', .ok) => some s'
  | _ => none

/-- The inode `i` has a name in `j`. -/
def ParentOf (s : State) (i j : Ino) : Prop :=
  ∃ name q p n, s.lookupHash.lookup ⟨j, name⟩ = some (q, p) ∧ s.nodes.cell p = some n ∧ n.inode.ino = i

/-- The parent links contain no cycle. -/
def Acyclic (s : State) : Prop := ∀ i, ¬ TransGen (ParentOf s) i i

/-- A name that is not empty, is shorter than the limit, and has no separator. -/
structure NameOk (name : String) : Prop where
  nonempty : name.toList ≠ []
  short : name.toList.length < fsalMaxNameLen
  separator : '/' ∉ name.toList

/-- The inode that names lead to from an inode, looked up one after the other. -/
def walk (s : State) : Ino → List String → Option Ino
  | i, [] => some i
  | i, name :: names =>
    match s.lookupHash.lookup ⟨i, name⟩ with
    | none => none
    | some (_, p) =>
      match s.nodes.cell p with
      | none => none
      | some n => walk s n.inode.ino names

/-- The names, separated. -/
def joined (names : List String) : List Char := List.intercalate ['/'] (names.map String.toList)

/-- The absolute path of the names. -/
def pathOf (names : List String) : List Char := '/' :: joined names

/-- The components of a path. -/
def components (path : List Char) : List String :=
  ((path.splitOn '/').filter fun c => c ≠ []).map String.ofList

/-- What `NamespacePath` does for an inode whose node is `n`. -/
structure Resolves (s : State) (root : Ino) (n : Fsnode) (entry : Inode) : Prop where
  /-- The path is absolute, and leads back to the inode. -/
  path : n.inode.generation = entry.generation → ∃ m path, (∀ fuel readers, m ≤ fuel →
    namespacePath s fuel entry readers = some ⟨.ok, path, readers⟩) ∧
      path.head? = some '/' ∧ walk s root (components path) = some entry.ino
  stale : n.inode.generation ≠ entry.generation → ∃ m path, ∀ fuel readers, m ≤ fuel →
    namespacePath s fuel entry readers = some ⟨.estale, path, readers⟩
  /-- The lock is released on every exit. -/
  released : ∀ fuel readers r, namespacePath s fuel entry readers = some r → r.readers = readers

/-! ## Calls that return 0 -/

/-- What holds after calls that return 0. -/
structure Rooted (root : Ino) (s : State) : Prop where
  inv : Inv s
  root : ∃ n, s.nodes.cell 0 = some n ∧ n.inode.ino = root
  /-- Every node has a name. -/
  named : ∀ p n, s.nodes.cell p = some n → n.nLookup ≠ 0
  /-- The generation in a peer is that of the parent. -/
  peers : ∀ k q p e, s.lookupHash.lookup k = some (q, p) → s.peers.cell q = some e → Known s e.parent

/-- In the first state only the root is there. -/
lemma Rooted.init {gen : ℕ} : Rooted root (namespaceInit root gen) := by
  have hcell : ∀ p n, (namespaceInit root gen).nodes.cell p = some n → n = ⟨⟨root, gen⟩, 1, 0, []⟩ := by
    intro p n hn
    have hn : (Pool.empty.alloc (⟨⟨root, gen⟩, 1, 0, []⟩ : Fsnode)).cell p = some n := hn
    rw [Pool.cell_alloc] at hn
    split_ifs at hn
    · exact (Option.some.inj hn).symm
    · cases hn
  refine ⟨inv_namespaceInit, ⟨⟨⟨root, gen⟩, 1, 0, []⟩, rfl, rfl⟩, fun p n hn => ?_, fun k q p e hk => ?_⟩
  · rw [hcell p n hn]
    exact Nat.one_ne_zero
  · cases hk

/-- The state after a name of `p` was added below `pparent`. -/
def bindName (s : State) (parent : Inode) (name : String) (pparent p : ℕ) : State :=
  { s with
    peers := s.peers.alloc ⟨parent, name⟩
    lookupHash := s.lookupHash.insert ⟨parent.ino, name⟩ (s.peers.next, p)
    nodes := (s.nodes.modify p fun n =>
      { n with nLookup := n.nLookup + 1, parentList := s.peers.next :: n.parentList }).modify pparent fun n =>
      { n with nChildren := n.nChildren + 1 } }

lemma addLookup_eq {err : Errno} (hkey : s.lookupHash.lookup ⟨parent.ino, name⟩ = none) :
    addLookup s parent name pparent p err = (bindName s parent name pparent p, .ok) := by
  simp only [addLookup, hInsertNewLookup, hkey, bindName]

lemma nLookup_bindName (hx : (bindName s parent name pparent p).nodes.cell x = some n') :
    ∃ n, s.nodes.cell x = some n ∧ n'.nLookup = n.nLookup + if x = p then 1 else 0 := by
  rw [bindName, cell_bind, Option.map_eq_some_iff] at hx
  obtain ⟨n, hn, rfl⟩ := hx
  exact ⟨n, hn, rfl⟩

/-- What an addition that succeeded has done. -/
lemma add_ok (h : Inv s) (hs' : namespaceAddNl s parent name entry newGen = some (s', .ok)) :
    Known s parent ∧ Keeps s s' ∧ Inv s' ∧ (s' = s ∨
      ∃ p, s'.lookupHash = s.lookupHash.insert (⟨parent.ino, name⟩ : Key) (s.peers.next, p) ∧
        s'.peers = s.peers.alloc ⟨parent, name⟩ ∧
        ∀ x n', s'.nodes.cell x = some n' → n'.nLookup ≠ 0 ∨ s.nodes.cell x ≠ none ∧
          ∀ n, s.nodes.cell x = some n → n'.nLookup = n.nLookup) := by
  by_cases hknown : Known s parent
  swap
  · obtain ⟨rc, hrc, hok, -⟩ := @add_unknown s parent name entry newGen h hknown
    rw [hrc] at hs'
    cases hs'
    exact absurd rfl hok
  obtain ⟨s₁, p₁, rc, hs₁, hadded, -⟩ := @add_spec s parent name entry newGen h
  rw [hs₁] at hs'
  cases hs'
  refine ⟨hknown, hadded.keeps, hadded.inv, ?_⟩
  obtain ⟨pparent, nparent, hparent, hnparent, hgen⟩ := id hknown
  cases hentry : s.nodesHash.lookup entry with
  | some p =>
    cases hkey : s.lookupHash.lookup ⟨parent.ino, name⟩ with
    | some v =>
      obtain ⟨q, p'⟩ := v
      rw [(@add_known s p parent name entry newGen h hknown hentry).2 q p' hkey] at hs₁
      have hsame := congrArg Prod.fst (Option.some.inj hs₁)
      exact .inl hsame.symm
    | none =>
      have heq : namespaceAddNl s parent name entry newGen = some (bindName s parent name pparent p, .ok) := by
        simp only [namespaceAddNl, hparent, hnparent, hgen, hentry, hkey, addLookup_eq hkey, ne_eq, not_true,
          if_false]
      rw [heq] at hs₁
      cases hs₁
      refine .inr ⟨p, rfl, rfl, fun x n' hx => ?_⟩
      obtain ⟨n, hn, hcount⟩ := nLookup_bindName hx
      by_cases hxp : x = p
      · rw [if_pos hxp] at hcount
        exact .inl (by omega)
      · rw [if_neg hxp] at hcount
        refine .inr ⟨by rw [hn]; exact Option.some_ne_none n, fun m hm => ?_⟩
        rw [hn] at hm
        cases hm
        omega
  | none =>
    have hnew := @add_new s parent name entry newGen hknown hentry
    cases hkey : s.lookupHash.lookup ⟨parent.ino, name⟩ with
    | some v =>
      rw [hkey, if_neg (Option.some_ne_none v)] at hnew
      obtain ⟨s₂, hs₂, -⟩ := hnew
      rw [hs₁] at hs₂
      cases hs₂
    | none =>
      have heq : namespaceAddNl s parent name entry newGen = some (bindName { s with
          nodes := s.nodes.alloc ⟨⟨entry, newGen⟩, 0, 0, []⟩
          nodesHash := s.nodesHash.insert entry s.nodes.next } parent name pparent s.nodes.next, .ok) := by
        simp only [namespaceAddNl, hparent, hnparent, hgen, hentry, hInsertNewNode, ne_eq, not_true, if_false]
        exact congrArg some (addLookup_eq hkey)
      rw [heq] at hs₁
      cases hs₁
      refine .inr ⟨s.nodes.next, rfl, rfl, fun x n' hx => ?_⟩
      obtain ⟨n, hn, hcount⟩ := nLookup_bindName hx
      by_cases hxp : x = s.nodes.next
      · rw [if_pos hxp] at hcount
        exact .inl (by omega)
      · rw [if_neg hxp] at hcount
        have hn : (s.nodes.alloc ⟨⟨entry, newGen⟩, 0, 0, []⟩).cell x = some n := hn
        rw [Pool.cell_alloc, if_neg hxp] at hn
        refine .inr ⟨by rw [hn]; exact Option.some_ne_none n, fun m hm => ?_⟩
        rw [hn] at hm
        cases hm
        omega

/-- An addition keeps every node below the root. -/
lemma Rooted.add (h : Rooted root s) (hs' : namespaceAddNl s parent name entry newGen = some (s', .ok)) :
    Rooted root s' := by
  obtain ⟨hknown, hkeeps, hinv, hcases⟩ := add_ok h.inv hs'
  have hkept : ∀ i, Known s i → Known s' i := by
    rintro i ⟨p, n, hp, hn, hgen⟩
    obtain ⟨n', hn', hinode⟩ := hkeeps p n hn
    exact ⟨p, n', hkeeps.nodesHash_eq h.inv hinv hp, hn', by rw [hinode, hgen]⟩
  rcases hcases with rfl | ⟨p, hlookup, hpeers, hnames⟩
  · exact h
  refine ⟨hinv, ?_, fun x n' hx => ?_, fun k q x e hk he => ?_⟩
  · obtain ⟨n, hn, hino⟩ := h.root
    obtain ⟨n', hn', hinode⟩ := hkeeps 0 n hn
    exact ⟨n', hn', by rw [hinode, hino]⟩
  · rcases hnames x n' hx with hcount | ⟨hold, hcount⟩
    · exact hcount
    · obtain ⟨n, hn⟩ := Option.ne_none_iff_exists'.mp hold
      rw [hcount n hn]
      exact h.named x n hn
  · apply hkept
    rw [hpeers, Pool.cell_alloc] at he
    by_cases hkk : k = ⟨parent.ino, name⟩
    · rw [hlookup, hkk, Finmap.lookup_insert] at hk
      cases hk
      rw [if_pos rfl] at he
      cases he
      exact hknown
    · rw [hlookup, Finmap.lookup_insert_of_ne _ hkk] at hk
      -- the new peer is not the one of an old name
      obtain ⟨m, e', -, -, he', -⟩ := (h.inv.bound _ _ _).mp hk
      have hne : q ≠ s.peers.next := by
        rintro rfl
        rw [Pool.cell_next] at he'
        cases he'
      rw [if_neg hne] at he
      exact h.peers k q x e hk he

/-- The release of a node touches no other. -/
lemma removeNode_ok (hs' : removeNode s p = some (s', .ok)) : s'.peers = s.peers ∧
    ∀ x n, s'.nodes.cell x = some n → s.nodes.cell x = some n ∧ (x = p → n.nLookup ≠ 0) := by
  unfold removeNode at hs'
  cases hp : s.nodes.cell p with
  | none =>
    rw [hp] at hs'
    cases hs'
  | some n =>
    simp only [hp] at hs'
    by_cases hzero : n.nLookup = 0
    · rw [if_pos hzero] at hs'
      by_cases hchildren : n.nChildren = 0
      · rw [if_pos hchildren] at hs'
        cases hnode : s.nodesHash.lookup n.inode.ino with
        | none =>
          rw [hnode] at hs'
          cases hs'
        | some y =>
          rw [hnode] at hs'
          cases hs'
          refine ⟨rfl, fun x m hx => ?_⟩
          have hx : (s.nodes.release p).cell x = some m := hx
          rw [Pool.cell_release] at hx
          by_cases hxp : x = p
          · rw [if_pos hxp] at hx
            cases hx
          · rw [if_neg hxp] at hx
            exact ⟨hx, fun heq => absurd heq hxp⟩
      · rw [if_neg hchildren] at hs'
        cases hs'
    · rw [if_neg hzero] at hs'
      cases hs'
      refine ⟨rfl, fun x m hx => ⟨hx, ?_⟩⟩
      rintro rfl
      rw [hp] at hx
      cases hx
      exact hzero

/-- The parents that are left after a removal. -/
lemma Removed.parent_eq {rc : Errno} {i : Ino} (hremoved : Removed s s' k rc)
    (hhash : s'.nodesHash = if n.nLookup = 1 then s.nodesHash.erase n.inode.ino else s.nodesHash)
    {k' : Key} {v : ℕ × ℕ} (hk' : s'.lookupHash.lookup k' = some v) (hi : k'.parent = i) :
    s'.nodesHash.lookup i = s.nodesHash.lookup i := by
  obtain ⟨x, hx⟩ := hremoved.inv.parents k' v hk'
  rw [hi, hhash] at hx
  rw [hhash]
  by_cases hone : n.nLookup = 1
  · rw [if_pos hone] at hx ⊢
    have hne : i ≠ n.inode.ino := by
      rintro rfl
      rw [Finmap.lookup_erase] at hx
      cases hx
    exact Finmap.lookup_erase_ne hne
  · rw [if_neg hone]

/-- A removal keeps every other node below the root. -/
lemma Rooted.remove (h : Rooted root s) (hs' : namespaceRemoveNl s parent name = some (s', .ok)) :
    Rooted root s' := by
  by_cases hknown : Known s parent
  swap
  · obtain ⟨rc, hrc, hok⟩ : ∃ rc, namespaceRemoveNl s parent name = some (s, rc) ∧ rc ≠ .ok :=
      remove_unknown h.inv hknown
    rw [hrc] at hs'
    cases hs'
    exact absurd rfl hok
  cases hkey : s.lookupHash.lookup ⟨parent.ino, name⟩ with
  | none =>
    rw [remove_unbound hknown hkey] at hs'
    cases hs'
    exact h
  | some v =>
    obtain ⟨q, p⟩ := v
    obtain ⟨n, -, hn, -⟩ := (h.inv.bound _ _ _).mp hkey
    obtain ⟨hreturns, haborts⟩ := remove_bound h.inv hknown hkey hn
    by_cases hlast : LastNameChildless s ⟨parent.ino, name⟩
    swap
    · rw [haborts hlast] at hs'
      cases hs'
    obtain ⟨s₁, hs₁, hremoved, hhash⟩ := hreturns hlast
    rw [hs₁] at hs'
    cases hs'
    obtain ⟨pparent, nparent, hparent, hnparent, hgen⟩ := id hknown
    obtain ⟨m, hm, hino⟩ := (h.inv.nodes _ _).mp hparent
    rw [hnparent] at hm
    cases hm
    rw [namespaceRemoveNl_eq h.inv hparent hnparent hino hgen hkey] at hs₁
    obtain ⟨hpeers, hcells⟩ := removeNode_ok hs₁
    refine ⟨hremoved.inv, ?_, fun x n' hx => ?_, fun k q' x e hk he => ?_⟩
    · obtain ⟨n₀, hn₀⟩ := hremoved.inv.root
      obtain ⟨m, hm, hinode⟩ := hremoved.keeps 0 n₀ hn₀
      obtain ⟨m', hm', hroot⟩ := h.root
      rw [hm] at hm'
      cases hm'
      exact ⟨n₀, hn₀, by rw [hinode, hroot]⟩
    · obtain ⟨hx', hcount⟩ := hcells x n' hx
      by_cases hxp : x = p
      · exact hcount hxp
      · rw [unbound, cell_unbind, Option.map_eq_some_iff] at hx'
        obtain ⟨m, hm, rfl⟩ := hx'
        show m.nLookup - (if x = p then 1 else 0) ≠ 0
        rw [if_neg hxp]
        exact h.named x m hm
    · have hne : k ≠ ⟨parent.ino, name⟩ := by
        rintro rfl
        rw [(hremoved.removed rfl).1] at hk
        cases hk
      have hold := ((hremoved.removed rfl).2 k hne).symm.trans hk
      rw [hpeers] at he
      have he : (s.peers.release q).cell q' = some e := he
      rw [Pool.cell_release] at he
      by_cases hqq : q' = q
      · rw [if_pos hqq] at he
        cases he
      rw [if_neg hqq] at he
      have hknown' := h.peers k q' x e hold he
      obtain ⟨m, e', -, -, he', hkey'⟩ := (h.inv.bound _ _ _).mp hold
      rw [he] at he'
      cases he'
      exact (hremoved.known h.inv (hremoved.parent_eq hhash hk (by rw [← hkey']; rfl))).mpr hknown'

/-- A rename keeps every node below the root. -/
lemma Rooted.rename {src tgt : Inode} {nameSrc nameTgt : String} (h : Rooted root s)
    (hs' : namespaceRename s src nameSrc tgt nameTgt = some (s', .ok)) : Rooted root s' := by
  -- the second half of the rename
  have hsource : ∀ s₁ rc, (rc = .ok → Rooted root s₁) →
      renameSource (some (s₁, rc)) src nameSrc = some (s', .ok) → Rooted root s' := by
    intro s₁ rc hs₁ hr
    by_cases hok : rc = .ok
    · subst hok
      exact Rooted.remove (hs₁ rfl) hr
    · rw [renameSource, if_pos hok] at hr
      cases hr
      exact absurd rfl hok
  -- the first half of the rename
  have hadd : ∀ s₁, Rooted root s₁ → ∀ parent name entry newGen s₂ rc,
      namespaceAddNl s₁ parent name entry newGen = some (s₂, rc) → rc = .ok → Rooted root s₂ := by
    rintro s₁ hs₁ parent name entry newGen s₂ rc hr rfl
    exact hs₁.add hr
  unfold namespaceRename at hs'
  cases hsrc : s.lookupHash.lookup ⟨src.ino, nameSrc⟩ with
  | none =>
    rw [hsrc] at hs'
    cases hs'
  | some v =>
    obtain ⟨q, p⟩ := v
    simp only [hsrc] at hs'
    by_cases heq : src.ino = tgt.ino ∧ nameSrc = nameTgt
    · rw [if_pos heq] at hs'
      cases hs'
      exact h
    rw [if_neg heq] at hs'
    cases hp : s.nodes.cell p with
    | none =>
      rw [hp] at hs'
      cases hs'
    | some n =>
      simp only [hp] at hs'
      obtain ⟨s₁, p₁, rc, hs₁, -, -, hexist⟩ :=
        @add_spec s tgt nameTgt n.inode.ino n.inode.generation h.inv
      rw [hs₁] at hs'
      by_cases hrc : rc = .eexist
      · subst hrc
        obtain ⟨rfl, -⟩ := hexist rfl
        dsimp only at hs'
        cases hr : namespaceRemoveNl s₁ tgt nameTgt with
        | none =>
          rw [hr] at hs'
          cases hs'
        | some v₂ =>
          obtain ⟨s₂, rc₂⟩ := v₂
          rw [hr] at hs'
          by_cases hok : rc₂ = .ok
          · subst hok
            have hs₂ := h.remove hr
            dsimp only at hs'
            cases hp₂ : s₂.nodes.cell p with
            | none =>
              rw [hp₂] at hs'
              cases hs'
            | some n₂ =>
              simp only [hp₂] at hs'
              obtain ⟨s₃, p₃, rc₃, hs₃, -⟩ :=
                @add_spec s₂ tgt nameTgt n₂.inode.ino n₂.inode.generation hs₂.inv
              rw [hs₃] at hs'
              exact hsource s₃ rc₃ (hadd s₂ hs₂ _ _ _ _ _ _ hs₃) hs'
          · cases rc₂ with
            | ok => exact absurd rfl hok
            | _ => cases hs'
      · have hrest : renameSource (some (s₁, rc)) src nameSrc = some (s', .ok) := by
          cases rc with
          | eexist => exact absurd rfl hrc
          | _ => exact hs'
        exact hsource s₁ rc (hadd s h _ _ _ _ _ _ hs₁) hrest

/-- Every state the calls reach is rooted. -/
lemma Rooted.of_run {gen : ℕ} (h : Reachable stepOk (namespaceInit root gen) s) : Rooted root s := by
  refine h.invariant Rooted.init fun s c s' hs _ hstep => ?_
  unfold stepOk at hstep
  cases hr : call s c with
  | none =>
    rw [hr] at hstep
    cases hstep
  | some v =>
    obtain ⟨s₁, rc⟩ := v
    rw [hr] at hstep
    by_cases hok : rc = .ok
    · subst hok
      cases hstep
      cases c with
      | add parent name entry newGen => exact hs.add hr
      | remove parent name => exact hs.remove hr
      | rename src nameSrc tgt nameTgt => exact hs.rename hr
    · cases rc with
      | ok => exact absurd rfl hok
      | _ => cases hstep

/-! ## Chains of parents -/

/-- A finite relation without cycles can be walked up to its end. -/
lemma wellFounded_of_acyclic {α : Type*} {r : α → α → Prop} (hfinite : {a | ∃ b, r b a}.Finite)
    (hacyclic : ∀ a, ¬ TransGen r a a) : WellFounded fun a b => r b a := by
  rw [wellFounded_iff_isEmpty_descending_chain]
  constructor
  rintro ⟨f, hf⟩
  have hchain : ∀ a k, TransGen r (f a) (f (a + k + 1)) := by
    intro a k
    induction k with
    | zero => exact .single (hf a)
    | succ k ih => exact ih.tail (hf (a + k + 1))
  have hmem : ∀ n, f (n + 1) ∈ {a | ∃ b, r b a} := fun n => ⟨f n, hf n⟩
  obtain ⟨a, b, hlt, heq⟩ := Set.Finite.exists_lt_map_eq_of_forall_mem hmem hfinite
  have hcycle := hchain (a + 1) (b - a - 1)
  rw [show a + 1 + (b - a - 1) + 1 = b + 1 by omega] at hcycle
  have heq : f (a + 1) = f (b + 1) := heq
  rw [← heq] at hcycle
  exact hacyclic _ hcycle

lemma parents_finite : {j | ∃ i, ParentOf s i j}.Finite := by
  refine (s.lookupHash.keys.image Key.parent).finite_toSet.subset ?_
  rintro j ⟨i, name, q, p, n, hlookup, -⟩
  exact Finset.mem_coe.mpr (Finset.mem_image.mpr
    ⟨⟨j, name⟩, Finmap.mem_keys.mpr (Finmap.mem_of_lookup_eq_some hlookup), rfl⟩)

variable {names : List String}

lemma walk_bound {i : Ino} (hk : s.lookupHash.lookup ⟨i, name⟩ = some (q, p)) (hn : s.nodes.cell p = some n) :
    walk s i (name :: names) = walk s n.inode.ino names := by
  simp only [walk, hk, hn]

/-- A walk in two parts. -/
lemma walk_append (i : Ino) (ups comps : List String) :
    walk s i (ups ++ comps) = (walk s i ups).bind fun j => walk s j comps := by
  induction ups generalizing i with
  | nil => rfl
  | cons name ups ih =>
    rw [List.cons_append]
    cases hk : s.lookupHash.lookup ⟨i, name⟩ with
    | none =>
      have hnone : ∀ names, walk s i (name :: names) = none := fun names => by simp only [walk, hk]
      rw [hnone, hnone, Option.bind_none]
    | some v =>
      obtain ⟨q, p⟩ := v
      cases hn : s.nodes.cell p with
      | none =>
        have hnone : ∀ names, walk s i (name :: names) = none := fun names => by simp only [walk, hk, hn]
        rw [hnone, hnone, Option.bind_none]
      | some n => rw [walk_bound hk hn, walk_bound hk hn, ih]

/-! ## Paths as text -/

lemma joined_cons (name : String) (hne : names ≠ []) :
    joined (name :: names) = name.toList ++ '/' :: joined names := by
  have hmap : names.map String.toList ≠ [] := fun hnil => hne (List.map_eq_nil_iff.mp hnil)
  rw [joined, List.map_cons, List.intercalate_cons_of_ne_nil hmap, List.append_assoc]
  rfl

lemma joined_singleton (name : String) : joined [name] = name.toList := by
  rw [joined, List.map_cons, List.map_nil, List.intercalate_singleton]

/-- A path with a name in it is not empty. -/
lemma joined_ne_nil (hnames : ∀ c ∈ names, NameOk c) (hne : names ≠ []) : joined names ≠ [] := by
  cases names with
  | nil => exact absurd rfl hne
  | cons name names =>
    have hname := (hnames name List.mem_cons_self).nonempty
    by_cases hnil : names = []
    · rw [hnil, joined_singleton]
      exact hname
    · rw [joined_cons name hnil]
      exact List.append_ne_nil_of_left_ne_nil hname _

/-- A path is no longer than one that contains it. -/
lemma length_joined_le (ups comps : List String) : (joined comps).length ≤ (joined (ups ++ comps)).length := by
  induction ups with
  | nil => exact Nat.le_refl _
  | cons name ups ih =>
    by_cases hnil : ups ++ comps = []
    · rw [(List.append_eq_nil_iff.mp hnil).2]
      exact Nat.zero_le _
    · rw [List.cons_append, joined_cons name hnil, List.length_append, List.length_cons]
      omega

/-- The path printed splits into its names again. -/
lemma components_pathOf (hnames : ∀ c ∈ names, NameOk c) : components (pathOf names) = names := by
  by_cases hne : names = []
  · rw [hne]
    decide
  have hmap : names.map String.toList ≠ [] := fun hnil => hne (List.map_eq_nil_iff.mp hnil)
  have hsplit : (pathOf names).splitOn '/' = [] :: names.map String.toList := by
    have hpath : pathOf names = List.intercalate ['/'] ([] :: names.map String.toList) := by
      rw [List.intercalate_cons_of_ne_nil hmap]
      rfl
    rw [hpath]
    refine List.splitOn_intercalate '/' ?_ (List.cons_ne_nil _ _)
    intro l hl
    rcases List.mem_cons.mp hl with rfl | hl
    · exact List.not_mem_nil
    · obtain ⟨c, hc, rfl⟩ := List.mem_map.mp hl
      exact (hnames c hc).separator
  have hfilter : (names.map String.toList).filter (fun c => c ≠ []) = names.map String.toList := by
    rw [List.filter_eq_self]
    intro l hl
    obtain ⟨c, hc, rfl⟩ := List.mem_map.mp hl
    exact decide_eq_true (hnames c hc).nonempty
  rw [components, hsplit, List.filter_cons_of_neg (by decide), hfilter, List.map_map]
  have hid : String.ofList ∘ String.toList = id := funext fun c => String.ofList_toList
  rw [hid, List.map_id]

lemma snprintf_eq {text : List Char} {size : ℕ} (h : text.length < size) : snprintf size text = text := by
  rw [snprintf, List.take_of_length_le]
  omega

/-! ## The loop -/

/-- The loop gives its read lock back. -/
lemma readers_of_pathLoop {fuel readers : ℕ} {curr : Inode} {path tmpPath : List Char} {r : PathResult}
    (h : pathLoop s fuel curr path tmpPath readers = some r) : r.readers = readers - 1 := by
  induction fuel generalizing curr path tmpPath with
  | zero => cases h
  | succ fuel ih =>
    unfold pathLoop at h
    cases hp : s.nodesHash.lookup curr.ino with
    | none =>
      rw [hp] at h
      cases h
      rfl
    | some p =>
      simp only [hp] at h
      cases hn : s.nodes.cell p with
      | none =>
        rw [hn] at h
        cases h
      | some n =>
        simp only [hn] at h
        by_cases hgen : n.inode.generation ≠ curr.generation
        · rw [if_pos hgen] at h
          cases h
          rfl
        rw [if_neg hgen] at h
        cases hlist : n.parentList with
        | nil =>
          rw [hlist] at h
          cases h
          rfl
        | cons q rest =>
          simp only [hlist] at h
          cases he : s.peers.cell q with
          | none =>
            rw [he] at h
            cases h
          | some e =>
            simp only [he] at h
            by_cases hpath : path = []
            · rw [if_pos hpath] at h
              exact ih h
            rw [if_neg hpath] at h
            by_cases hloop : curr.ino = e.parent.ino
            · rw [if_pos hloop] at h
              cases h
              rfl
            · rw [if_neg hloop] at h
              exact ih h

/-- The loop goes up to the root. The induction is on the chain of the parents: `comps` are the names that
lead from where the loop is to the inode, and both buffers hold them. -/
lemma pathLoop_spec {target : Ino} (h : Rooted root s) (hacyclic : Acyclic s)
    (hnames : ∀ k ∈ s.lookupHash, NameOk k.name)
    (hshort : ∀ names, walk s root names = some target → (pathOf names).length < fsalMaxPathLen) (i : Ino) :
    ∀ curr comps, curr.ino = i → Known s curr → walk s i comps = some target → (∀ c ∈ comps, NameOk c) →
      ∃ m ups, (∀ c ∈ ups, NameOk c) ∧ walk s root ups = some i ∧ ∀ fuel readers, m ≤ fuel →
        pathLoop s fuel curr (joined comps) (joined comps) readers =
          some ⟨.ok, pathOf (ups ++ comps), readers - 1⟩ := by
  induction i using (wellFounded_of_acyclic parents_finite hacyclic).induction with
  | _ i ih =>
  rintro curr comps rfl ⟨p, n, hp, hn, hgen⟩ hwalk hcomps
  obtain ⟨m, hm, hino⟩ := (h.inv.nodes _ _).mp hp
  rw [hn] at hm
  cases hm
  cases hlist : n.parentList with
  | nil =>
    -- a node without a parent is the root
    have hroot : curr.ino = root := by
      have hcount := h.inv.nLookup p n hn
      have hnamed := h.named p n hn
      rw [hlist] at hcount
      by_cases hzero : p = 0
      · obtain ⟨n₀, hn₀, hino₀⟩ := h.root
        rw [hzero, hn₀] at hn
        cases hn
        rw [← hino, hino₀]
      · rw [if_neg hzero] at hcount
        exact absurd hcount hnamed
    refine ⟨1, [], fun c hc => (by cases hc), by rw [hroot]; rfl, fun fuel readers hfuel => ?_⟩
    obtain ⟨fuel, rfl⟩ := Nat.exists_eq_add_of_le' hfuel
    have hlen := hshort comps (hroot ▸ hwalk)
    simp only [pathLoop, hp, hn, hgen, hlist, ne_eq, not_true, if_false]
    exact congrArg (fun path => some (PathResult.mk .ok path (readers - 1))) (snprintf_eq hlen)
  | cons q rest =>
    have hq : q ∈ n.parentList := by
      rw [hlist]
      exact List.mem_cons_self
    obtain ⟨e, he⟩ := h.inv.peers p n hn q hq
    have hlookup := (h.inv.bound e.key q p).mpr ⟨n, e, hn, hq, he, rfl⟩
    have hparent : ParentOf s curr.ino e.parent.ino := ⟨e.name, q, p, n, hlookup, hn, hino⟩
    have hname : NameOk e.name := hnames e.key (Finmap.mem_of_lookup_eq_some hlookup)
    have hne : curr.ino ≠ e.parent.ino := by
      intro heq
      rw [← heq] at hparent
      exact hacyclic curr.ino (.single hparent)
    have hup : walk s e.parent.ino (e.name :: comps) = some target := by
      rw [walk_bound hlookup hn, hino]
      exact hwalk
    have hcomps' : ∀ c ∈ e.name :: comps, NameOk c := by
      intro c hc
      rcases List.mem_cons.mp hc with rfl | hc
      · exact hname
      · exact hcomps c hc
    obtain ⟨m, ups, hups, hroot, hloop⟩ := ih e.parent.ino hparent e.parent (e.name :: comps) rfl
      (h.peers _ _ _ _ hlookup he) hup hcomps'
    have happend : ups ++ [e.name] ++ comps = ups ++ e.name :: comps := by
      rw [List.append_assoc]
      rfl
    refine ⟨m + 1, ups ++ [e.name], ?_, ?_, fun fuel readers hfuel => ?_⟩
    · intro c hc
      rcases List.mem_append.mp hc with hc | hc
      · exact hups c hc
      · rw [List.mem_singleton.mp hc]
        exact hname
    · rw [walk_append, hroot, Option.bind_some]
      rw [walk_bound hlookup hn, hino]
      rfl
    · obtain ⟨fuel, rfl⟩ := Nat.exists_eq_add_of_le' (Nat.le_of_add_left_le hfuel)
      rw [happend, ← hloop fuel readers (by omega)]
      by_cases hnil : comps = []
      · subst hnil
        have hpath : (joined [] : List Char) = [] := rfl
        simp only [pathLoop, hp, hn, hgen, hlist, he, hpath, ne_eq, not_true, if_false, if_true]
        rw [joined_singleton, List.take_of_length_le (Nat.le_of_lt hname.short)]
      · have hpath := joined_ne_nil hcomps hnil
        have hlen : (joined (e.name :: comps)).length < fsalMaxPathLen := by
          have hle := length_joined_le ups (e.name :: comps)
          have htotal := hshort (ups ++ e.name :: comps) (by rw [walk_append, hroot]; exact hup)
          rw [pathOf, List.length_cons] at htotal
          omega
        simp only [pathLoop, hp, hn, hgen, hlist, he, hpath, hne, ne_eq, not_true, if_false]
        rw [← joined_cons e.name hnil, snprintf_eq hlen]

/-- After calls that return 0, in a namespace without a cycle, the path of an inode leads back to it. -/
theorem resolves_of_acyclic {gen : ℕ} (h : Reachable stepOk (namespaceInit root gen) s) (hacyclic : Acyclic s)
    (hnames : ∀ k ∈ s.lookupHash, NameOk k.name) {entry : Inode} {n : Fsnode}
    (hp : s.nodesHash.lookup entry.ino = some p) (hn : s.nodes.cell p = some n)
    (hshort : ∀ names, walk s root names = some entry.ino → (pathOf names).length < fsalMaxPathLen) :
    Resolves s root n entry := by
  have hrooted := Rooted.of_run h
  refine ⟨fun hgen => ?_, fun hgen => ?_, fun fuel readers r hr => ?_⟩
  · obtain ⟨m, ups, hups, hwalk, hloop⟩ := pathLoop_spec hrooted hacyclic hnames hshort entry.ino entry [] rfl
      ⟨p, n, hp, hn, hgen⟩ rfl fun c hc => by cases hc
    rw [List.append_nil] at hloop
    refine ⟨m, pathOf ups, fun fuel readers hfuel => ?_, rfl, ?_⟩
    · exact hloop fuel (readers + 1) hfuel
    · rw [components_pathOf hups, hwalk]
  · refine ⟨1, [], fun fuel readers hfuel => ?_⟩
    obtain ⟨fuel, rfl⟩ := Nat.exists_eq_add_of_le' hfuel
    simp only [namespacePath, pathLoop, hp, hn, hgen, ne_eq, not_false_eq_true, if_true, Nat.add_sub_cancel]
  · exact readers_of_pathLoop hr

/-- A name below the root. -/
theorem resolves_of_acyclic_named : ∃ s n, stepOk (namespaceInit sampleRoot 0) (.add ⟨sampleRoot, 0⟩ "a" ⟨3, 1⟩ 7) =
    some s ∧ Resolves s sampleRoot n ⟨⟨3, 1⟩, 7⟩ := by
  have hinv : Inv (namespaceInit sampleRoot 0) := inv_namespaceInit
  have hrun : ((stepOk (namespaceInit sampleRoot 0) (.add ⟨sampleRoot, 0⟩ "a" ⟨3, 1⟩ 7)).any fun s =>
      s.nodesHash.lookup ⟨3, 1⟩ = some 1 ∧ (s.nodes.cell 1).isSome = true ∧
        s.lookupHash.keys = {⟨sampleRoot, "a"⟩} ∧ (s.lookupHash.lookup ⟨sampleRoot, "a"⟩).map Prod.snd = some 1 ∧
        (s.nodes.cell 1).map (fun n => n.inode) = some ⟨⟨3, 1⟩, 7⟩) = true := by decide +kernel
  rw [Option.any_eq_true] at hrun
  obtain ⟨s, hs, hfacts⟩ := hrun
  obtain ⟨hnode, hcell, hkeys, hlookup, hinode⟩ := of_decide_eq_true hfacts
  obtain ⟨n, hn⟩ := Option.isSome_iff_exists.mp hcell
  rw [hn, Option.map_some, Option.some.injEq] at hinode
  have hkey : ∀ k v, s.lookupHash.lookup k = some v → k = ⟨sampleRoot, "a"⟩ ∧ v.2 = 1 := by
    intro k v hk
    have hmem : k ∈ s.lookupHash.keys := Finmap.mem_keys.mpr (Finmap.mem_of_lookup_eq_some hk)
    rw [hkeys, Finset.mem_singleton] at hmem
    subst hmem
    rw [hk, Option.map_some] at hlookup
    exact ⟨rfl, Option.some.inj hlookup⟩
  have hlink : ∀ i j, ParentOf s i j → i = ⟨3, 1⟩ ∧ j = sampleRoot := by
    rintro i j ⟨name, q, p, m, hk, hm, rfl⟩
    obtain ⟨hparent, hp⟩ := hkey _ _ hk
    have hp : p = 1 := hp
    rw [hp, hn] at hm
    cases hm
    exact ⟨by rw [hinode], congrArg Key.parent hparent⟩
  refine ⟨s, n, hs, resolves_of_acyclic (.next .init trivial hs) ?_ ?_ hnode hn ?_⟩
  · intro i hcycle
    obtain ⟨j, hij, -⟩ := TransGen.head'_iff.mp hcycle
    obtain ⟨j', -, hji⟩ := TransGen.tail'_iff.mp hcycle
    have hhead := (hlink _ _ hij).1
    have htail := (hlink _ _ hji).2
    rw [hhead] at htail
    cases htail
  · intro k hk
    obtain ⟨v, hv⟩ := Finmap.mem_iff.mp hk
    rw [(hkey k v hv).1]
    exact ⟨by decide, by decide, by decide⟩
  · intro names hwalk
    -- the only path is `/a`
    have hshort : ∀ i names, walk s i names = some ⟨3, 1⟩ → names.length ≤ 1 ∧ ∀ c ∈ names, c = "a" := by
      intro i names hwalk
      cases names with
      | nil => exact ⟨Nat.zero_le _, fun c hc => by cases hc⟩
      | cons name names =>
        cases hk : s.lookupHash.lookup ⟨i, name⟩ with
        | none =>
          simp only [walk, hk] at hwalk
          cases hwalk
        | some v =>
          obtain ⟨hparent, hp⟩ := hkey _ _ hk
          have hbound : s.lookupHash.lookup ⟨i, name⟩ = some (v.1, 1) := by rw [hk, ← hp]
          rw [walk_bound hbound hn, hinode] at hwalk
          have hnil : names = [] := by
            cases names with
            | nil => rfl
            | cons name' names =>
              cases hk' : s.lookupHash.lookup ⟨⟨3, 1⟩, name'⟩ with
              | none =>
                simp only [walk, hk'] at hwalk
                cases hwalk
              | some v' =>
                have hroot := congrArg Key.parent (hkey _ _ hk').1
                cases hroot
          have hname : name = "a" := congrArg Key.name hparent
          rw [hnil, hname]
          exact ⟨Nat.le_refl _, fun c hc => List.mem_singleton.mp hc⟩
    obtain ⟨hlength, hmem⟩ := hshort _ _ hwalk
    have hcases : names = [] ∨ names = ["a"] := by
      cases names with
      | nil => exact .inl rfl
      | cons name rest =>
        have hrest : rest = [] := List.length_eq_zero_iff.mp (by rw [List.length_cons] at hlength; omega)
        rw [hrest, hmem name List.mem_cons_self]
        exact .inr rfl
    rcases hcases with rfl | rfl
    · decide
    · decide

end Ganesha.FuseLike
