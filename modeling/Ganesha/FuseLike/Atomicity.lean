import Ganesha.FuseLike.NamespaceTheorems

/-!
# Errors of the namespace manager

What the three calls return in a state, and when a call that returns an error has changed nothing.
-/

namespace Ganesha.FuseLike
open Library Library.Transition

variable {s s' : State} {k k' : Key} {p q x pparent : ℕ} {n n' nparent : Fsnode} {parent : Inode}
  {name : String} {entry : Ino} {newGen : ℕ} {rc : Errno}

/-! ## What the properties are about -/

/-- The tables and the nodes, with their counts and their lists, are the same. -/
structure Same (s s' : State) : Prop where
  lookupHash : s'.lookupHash = s.lookupHash
  nodesHash : s'.nodesHash = s.nodesHash
  nodes : s'.nodes.cell = s.nodes.cell
  peers : s'.peers.cell = s.peers.cell

lemma Same.refl : Same s s := ⟨rfl, rfl, rfl, rfl⟩

/-- An error changes nothing, and a name that is bound is reported for a new inode. -/
structure Lawful (s : State) (c : Call) : Prop where
  atomic : ∀ s' rc, call s c = some (s', rc) → rc ≠ .ok → Same s s'
  reports : ∀ parent name entry newGen, c = .add parent name entry newGen → Known s parent →
    s.nodesHash.lookup entry = none → s.lookupHash.lookup ⟨parent.ino, name⟩ ≠ none →
    ∃ s', call s c = some (s', .eexist)

/-- A name that is bound is not given to a new inode. A rename that changes something has the generation of
its source, and does not remove the last name of the parent of its target. -/
def Clean (s : State) : Call → Prop
  | .add parent name entry _ => Known s parent → s.nodesHash.lookup entry = none →
    s.lookupHash.lookup ⟨parent.ino, name⟩ = none
  | .remove _ _ => True
  | .rename src nameSrc tgt nameTgt => ∀ q p, s.lookupHash.lookup ⟨src.ino, nameSrc⟩ = some (q, p) →
    (⟨src.ino, nameSrc⟩ : Key) ≠ ⟨tgt.ino, nameTgt⟩ → Known s tgt →
    (s.lookupHash.lookup ⟨tgt.ino, nameTgt⟩ = none → Known s src) ∧
      ∀ q' p' n', s.lookupHash.lookup ⟨tgt.ino, nameTgt⟩ = some (q', p') → p' ≠ p →
        s.nodes.cell p' = some n' → LastNameChildless s ⟨tgt.ino, nameTgt⟩ →
        Known s src ∧ ¬ (n'.nLookup = 1 ∧ n'.inode.ino = tgt.ino)

/-! ## `NamespaceAdd_nl` -/

/-- A parent is known by its number and its generation. -/
lemma Inv.known_iff (h : Inv s) (hp : s.nodesHash.lookup parent.ino = some pparent) :
    Known s parent ↔ ∃ n, s.nodes.cell pparent = some n ∧ n.inode.ino = parent.ino ∧
      n.inode.generation = parent.generation := by
  obtain ⟨n, hn, hino⟩ := (h.nodes _ _).mp hp
  constructor
  · rintro ⟨p', n', hp', hn', hgen⟩
    rw [hp] at hp'
    cases hp'
    rw [hn] at hn'
    cases hn'
    exact ⟨n, hn, hino, hgen⟩
  · rintro ⟨n', hn', -, hgen⟩
    exact ⟨pparent, n', hp, hn', hgen⟩

/-- An unknown parent is refused and nothing changes. -/
lemma add_unknown (h : Inv s) (hunknown : ¬ Known s parent) :
    ∃ rc, namespaceAddNl s parent name entry newGen = some (s, rc) ∧ rc ≠ .ok ∧ rc ≠ .eexist := by
  cases hparent : s.nodesHash.lookup parent.ino with
  | none => exact ⟨.enoent, by simp only [namespaceAddNl, hparent], by decide, by decide⟩
  | some pparent =>
    obtain ⟨nparent, hnparent, hino⟩ := (h.nodes _ _).mp hparent
    have hgen : nparent.inode.generation ≠ parent.generation := by
      intro hgen
      exact hunknown ⟨pparent, nparent, hparent, hnparent, hgen⟩
    refine ⟨.estale, ?_, by decide, by decide⟩
    simp only [namespaceAddNl, hparent, hnparent, ne_eq, hgen, not_false_eq_true, if_true]

/-- An entry for a node that is there already. -/
lemma add_known (h : Inv s) (hknown : Known s parent) (hentry : s.nodesHash.lookup entry = some p) :
    (s.lookupHash.lookup ⟨parent.ino, name⟩ = none →
      ∃ s', namespaceAddNl s parent name entry newGen = some (s', .ok) ∧ Added s s' ⟨parent.ino, name⟩ p .ok) ∧
    ∀ q p', s.lookupHash.lookup ⟨parent.ino, name⟩ = some (q, p') →
      namespaceAddNl s parent name entry newGen = some (s, if p' = p then .ok else .eexist) := by
  obtain ⟨pparent, nparent, hparent, hnparent, hgen⟩ := hknown
  obtain ⟨n, hn, hni⟩ := (h.nodes _ _).mp hentry
  have hino : nparent.inode.ino = parent.ino := by
    obtain ⟨m, hm, hmi⟩ := (h.nodes _ _).mp hparent
    rw [hnparent] at hm
    cases hm
    exact hmi
  constructor
  · intro hkey
    obtain ⟨hadded, -⟩ := @addLookup_spec s p pparent n nparent parent name .efault h hnparent hino hn
      (by decide)
    have hok : (addLookup s parent name pparent p .efault).2 = .ok := by
      simp only [addLookup, hInsertNewLookup, hkey]
    refine ⟨(addLookup s parent name pparent p .efault).1, ?_, hok ▸ hadded⟩
    simp only [namespaceAddNl, hparent, hnparent, hgen, hentry, hkey, ne_eq, not_true, if_false]
    rw [← hok]
  · intro q pexist hkey
    obtain ⟨nexist, e, hnexist, -⟩ := (h.bound _ _ _).mp hkey
    have hiff : nexist.inode.ino = entry ↔ pexist = p := by
      constructor
      · intro hsame
        exact h.eq_of_ino hnexist hn (by rw [hsame, hni])
      · rintro rfl
        rw [hn] at hnexist
        cases hnexist
        exact hni
    simp only [namespaceAddNl, hparent, hnparent, hgen, hentry, hkey, hnexist, hiff, ne_eq, not_true, if_false]

/-- An entry for a node that is new. -/
lemma add_new (hknown : Known s parent) (hentry : s.nodesHash.lookup entry = none) :
    if s.lookupHash.lookup ⟨parent.ino, name⟩ = none then
      ∃ s', namespaceAddNl s parent name entry newGen = some (s', .ok)
    else ∃ s', namespaceAddNl s parent name entry newGen = some (s', .enomem) ∧
      s'.nodesHash.lookup entry ≠ none := by
  obtain ⟨pparent, nparent, hparent, hnparent, hgen⟩ := hknown
  cases hkey : s.lookupHash.lookup ⟨parent.ino, name⟩ with
  | none =>
    rw [if_pos rfl]
    refine ⟨(addLookup { s with
      nodes := s.nodes.alloc ⟨⟨entry, newGen⟩, 0, 0, []⟩
      nodesHash := s.nodesHash.insert entry s.nodes.next } parent name pparent s.nodes.next .enomem).1, ?_⟩
    simp only [namespaceAddNl, hparent, hnparent, hgen, hentry, hInsertNewNode, addLookup, hInsertNewLookup, hkey,
      ne_eq, not_true, if_false]
  | some v =>
    rw [if_neg (Option.some_ne_none v)]
    refine ⟨{ s with
      nodes := s.nodes.alloc ⟨⟨entry, newGen⟩, 0, 0, []⟩
      nodesHash := s.nodesHash.insert entry s.nodes.next
      peers := (s.peers.alloc ⟨parent, name⟩).release s.peers.next }, ?_, ?_⟩
    · simp only [namespaceAddNl, hparent, hnparent, hgen, hentry, hInsertNewNode, addLookup, hInsertNewLookup,
        hkey, ne_eq, not_true, if_false]
    · rw [Finmap.lookup_insert]
      exact Option.some_ne_none _

/-! ## `NamespaceRemove_nl` -/

/-- Removal below an unknown parent changes nothing. -/
lemma remove_unknown (h : Inv s) (hunknown : ¬ Known s parent) :
    ∃ rc, namespaceRemoveNl s parent name = some (s, rc) ∧ rc ≠ .ok := by
  cases hparent : s.nodesHash.lookup parent.ino with
  | none => exact ⟨.enoent, by simp only [namespaceRemoveNl, hparent], by decide⟩
  | some pparent =>
    obtain ⟨nparent, hnparent, hino⟩ := (h.nodes _ _).mp hparent
    have hgen : nparent.inode.generation ≠ parent.generation := by
      intro hgen
      exact hunknown ⟨pparent, nparent, hparent, hnparent, hgen⟩
    refine ⟨.estale, ?_, by decide⟩
    simp only [namespaceRemoveNl, hparent, hnparent, ne_eq, hgen, not_false_eq_true, if_true]

/-- What a removal leaves of the node itself. -/
lemma unbound_node (h : Inv s) (hnparent : s.nodes.cell pparent = some nparent)
    (hino : nparent.inode.ino = k.parent) (hkey : s.lookupHash.lookup k = some (q, p))
    (hn : s.nodes.cell p = some n) :
    (unbound s k q p pparent).nodes.cell p = some (n.unbind p p pparent q) ∧
      ((n.unbind p p pparent q).nLookup = 0 ↔ n.nLookup = 1) ∧
      ((n.unbind p p pparent q).nChildren = 0 ↔ children s.lookupHash n.inode.ino ⊆ {k}) := by
  obtain ⟨m, e, hm, hq, -, -⟩ := (h.bound _ _ _).mp hkey
  rw [hn] at hm
  cases hm
  have hcell : (unbound s k q p pparent).nodes.cell p = some (n.unbind p p pparent q) := by
    rw [unbound, cell_unbind, hn]
    rfl
  have hlength := List.length_pos_of_mem hq
  have hcount := h.nLookup p n hn
  refine ⟨hcell, ?_, ?_⟩
  · show n.nLookup - (if p = p then 1 else 0) = 0 ↔ _
    rw [if_pos rfl]
    omega
  · rw [(inv_unbound h hnparent hino hkey).nChildren p _ hcell, Finset.card_eq_zero]
    show children (s.lookupHash.erase k) n.inode.ino = ∅ ↔ _
    rw [children_erase, Finset.erase_eq_empty_iff, Finset.subset_singleton_iff]

/-- What the call returns for a name that is bound: it fails an assertion if a node that loses its last name
has children. -/
lemma remove_bound (h : Inv s) (hknown : Known s parent)
    (hkey : s.lookupHash.lookup ⟨parent.ino, name⟩ = some (q, p)) (hn : s.nodes.cell p = some n) :
    (LastNameChildless s ⟨parent.ino, name⟩ →
      ∃ s', namespaceRemoveNl s parent name = some (s', .ok) ∧ Removed s s' ⟨parent.ino, name⟩ .ok ∧
        s'.nodesHash = if n.nLookup = 1 then s.nodesHash.erase n.inode.ino else s.nodesHash) ∧
    (¬ LastNameChildless s ⟨parent.ino, name⟩ → namespaceRemoveNl s parent name = none) := by
  obtain ⟨pparent, nparent, hparent, hnparent, hgen⟩ := hknown
  -- the node of the parent has the number asked for
  have hino : nparent.inode.ino = parent.ino := by
    obtain ⟨m, hm, hmi⟩ := (h.nodes _ _).mp hparent
    rw [hnparent] at hm
    cases hm
    exact hmi
  have heq := namespaceRemoveNl_eq h hparent hnparent hino hgen hkey
  obtain ⟨hcell, hlast, hchildren⟩ := unbound_node (k := ⟨parent.ino, name⟩) h hnparent hino hkey hn
  have hnode : (unbound s ⟨parent.ino, name⟩ q p pparent).nodesHash.lookup (n.unbind p p pparent q).inode.ino =
      some p := (h.nodes _ _).mpr ⟨n, hn, rfl⟩
  constructor
  · intro hchildless
    obtain ⟨s', rc, hs', hremoved⟩ := remove_spec h fun _ => hchildless
    have hresult : ∃ s', namespaceRemoveNl s parent name = some (s', .ok) ∧
        s'.nodesHash = if n.nLookup = 1 then s.nodesHash.erase n.inode.ino else s.nodesHash := by
      rw [heq]
      by_cases hone : n.nLookup = 1
      · rw [if_pos hone]
        have hzero := hchildren.mpr (hchildless q p n hkey hn hone)
        refine ⟨{ unbound s ⟨parent.ino, name⟩ q p pparent with
          nodesHash := s.nodesHash.erase n.inode.ino
          nodes := (unbound s ⟨parent.ino, name⟩ q p pparent).nodes.release p }, ?_, rfl⟩
        simp only [removeNode, hcell, hlast.mpr hone, hzero, hnode, if_true]
        rfl
      · rw [if_neg hone]
        refine ⟨unbound s ⟨parent.ino, name⟩ q p pparent, ?_, rfl⟩
        simp only [removeNode, hcell, mt hlast.mp hone, if_false]
    obtain ⟨s₁, hs₁, hhash⟩ := hresult
    rw [hs₁] at hs'
    cases hs'
    exact ⟨_, hs₁, hremoved, hhash⟩
  · intro hnot
    unfold LastNameChildless at hnot
    push Not at hnot
    obtain ⟨q', p', m, hkey', hm, hone, hsub⟩ := hnot
    rw [hkey] at hkey'
    cases hkey'
    rw [hn] at hm
    cases hm
    rw [heq]
    simp only [removeNode, hcell, hlast.mpr hone, mt hchildren.mp hsub, if_true, if_false]

lemma remove_unbound (hknown : Known s parent)
    (hkey : s.lookupHash.lookup ⟨parent.ino, name⟩ = none) :
    namespaceRemoveNl s parent name = some (s, .ok) := by
  obtain ⟨pparent, nparent, hparent, hnparent, hgen⟩ := hknown
  simp only [namespaceRemoveNl, hparent, hnparent, hgen, hDelLookup, hkey, ne_eq, not_true, if_false]

/-- A removal keeps the invariant, and a refused one everything. -/
lemma Inv.remove (h : Inv s) (hs' : namespaceRemoveNl s parent name = some (s', rc)) :
    Inv s' ∧ (rc ≠ .ok → s' = s) := by
  by_cases hknown : Known s parent
  · cases hkey : s.lookupHash.lookup ⟨parent.ino, name⟩ with
    | none =>
      rw [remove_unbound hknown hkey] at hs'
      cases hs'
      exact ⟨h, fun _ => rfl⟩
    | some v =>
      obtain ⟨q, p⟩ := v
      obtain ⟨n, e, hn, -⟩ := (h.bound _ _ _).mp hkey
      obtain ⟨hreturns, haborts⟩ := remove_bound h hknown hkey hn
      by_cases hchildless : LastNameChildless s ⟨parent.ino, name⟩
      · obtain ⟨s₁, hs₁, hremoved, -⟩ := hreturns hchildless
        rw [hs₁] at hs'
        cases hs'
        exact ⟨hremoved.inv, fun hrc => absurd rfl hrc⟩
      · rw [haborts hchildless] at hs'
        cases hs'
  · obtain ⟨rc', hrc', -⟩ : ∃ rc, namespaceRemoveNl s parent name = some (s, rc) ∧ rc ≠ .ok :=
      remove_unknown h hknown
    rw [hrc'] at hs'
    cases hs'
    exact ⟨h, fun _ => rfl⟩

/-! ## `NamespaceRename` -/

/-- Whether a parent is known depends on its node alone. -/
lemma Inv.known_congr (h : Inv s) (h' : Inv s')
    (hcells : ∀ x n n', s.nodes.cell x = some n → s'.nodes.cell x = some n' → n'.inode = n.inode)
    (hlookup : s'.nodesHash.lookup parent.ino = s.nodesHash.lookup parent.ino) : Known s' parent ↔ Known s parent := by
  cases hp : s.nodesHash.lookup parent.ino with
  | none =>
    constructor
    · rintro ⟨p, n, hp', -⟩
      rw [hlookup, hp] at hp'
      cases hp'
    · rintro ⟨p, n, hp', -⟩
      rw [hp] at hp'
      cases hp'
  | some p =>
    obtain ⟨n, hn, hino⟩ := (h.nodes _ _).mp hp
    obtain ⟨n', hn', hino'⟩ := (h'.nodes _ _).mp (hlookup.trans hp)
    have hsame := hcells p n n' hn hn'
    rw [h.known_iff hp, h'.known_iff (hlookup.trans hp)]
    constructor
    · rintro ⟨m, hm, -, hgen⟩
      rw [hn'] at hm
      cases hm
      exact ⟨n, hn, hino, by rw [← hsame, hgen]⟩
    · rintro ⟨m, hm, -, hgen⟩
      rw [hn] at hm
      cases hm
      exact ⟨n', hn', hino', by rw [hsame, hgen]⟩

/-- A parent is known as before. -/
lemma Added.known (hadded : Added s s' k p rc) (h : Inv s) (hin : s.nodesHash.lookup parent.ino ≠ none) :
    Known s' parent ↔ Known s parent := by
  refine h.known_congr hadded.inv (fun x n n' hn hn' => ?_) ?_
  · obtain ⟨m, hm, hino⟩ := hadded.keeps x n hn
    rw [hn'] at hm
    cases hm
    exact hino
  · obtain ⟨p, hp⟩ := Option.ne_none_iff_exists'.mp hin
    rw [hp]
    exact hadded.keeps.nodesHash_eq h hadded.inv hp

lemma Removed.known (hremoved : Removed s s' k rc) (h : Inv s)
    (hlookup : s'.nodesHash.lookup parent.ino = s.nodesHash.lookup parent.ino) : Known s' parent ↔ Known s parent := by
  refine h.known_congr hremoved.inv (fun x n n' hn hn' => ?_) hlookup
  obtain ⟨m, hm, hino⟩ := hremoved.keeps x n' hn'
  rw [hn] at hm
  cases hm
  exact hino

/-- The answer of the second half of a rename. -/
lemma renameSource_result {src : Inode} {nameSrc : String} {tgt : Key} {q' : ℕ} (h : Inv s)
    (hsrc : s.lookupHash.lookup ⟨src.ino, nameSrc⟩ = some (q, p)) (htgt : s.lookupHash.lookup tgt = some (q', p))
    (hne : (⟨src.ino, nameSrc⟩ : Key) ≠ tgt) :
    (Known s src → ∃ s', renameSource (some (s, .ok)) src nameSrc = some (s', .ok) ∧ Inv s') ∧
      (¬ Known s src → ∃ rc, renameSource (some (s, .ok)) src nameSrc = some (s, rc) ∧ rc ≠ .ok) := by
  have heq : renameSource (some (s, .ok)) src nameSrc = namespaceRemoveNl s src nameSrc := rfl
  rw [heq]
  constructor
  · intro hknown
    obtain ⟨n, e, hn, -⟩ := (h.bound _ _ _).mp hsrc
    -- the object has both names
    have hlast : LastNameChildless s ⟨src.ino, nameSrc⟩ := by
      intro q₁ p₁ n₁ hlookup hn₁ hone
      rw [hsrc] at hlookup
      cases hlookup
      have htwo := h.two_le_nLookup hsrc htgt hne hn₁
      omega
    obtain ⟨s', hs', hremoved, -⟩ := (remove_bound h hknown hsrc hn).1 hlast
    exact ⟨s', hs', hremoved.inv⟩
  · exact fun hunknown => remove_unknown h hunknown

/-- A call that has done its work, that has changed nothing, or that fails an assertion. -/
def Whole (s : State) (r : Option (State × Errno)) : Prop :=
  (∃ s', r = some (s', .ok) ∧ Inv s') ∨ (∃ rc, r = some (s, rc) ∧ rc ≠ .ok) ∨ r = none

/-- A call that returns an error and has changed something. -/
def Half (s : State) (r : Option (State × Errno)) : Prop :=
  ∃ s' rc, r = some (s', rc) ∧ rc ≠ .ok ∧ Inv s' ∧ ¬ Same s s'

/-- The second half succeeds or leaves both names. -/
lemma renameSource_cases {src : Inode} {nameSrc : String} {tgt : Key} {s₁ : State} {q' : ℕ} (h : Inv s₁)
    (hsrc : s₁.lookupHash.lookup ⟨src.ino, nameSrc⟩ = some (q, p))
    (htgt : s₁.lookupHash.lookup tgt = some (q', p)) (hne : (⟨src.ino, nameSrc⟩ : Key) ≠ tgt)
    (hnew : s.lookupHash.lookup tgt ≠ some (q', p)) :
    (Known s₁ src → Whole s (renameSource (some (s₁, .ok)) src nameSrc)) ∧
      (¬ Known s₁ src → Half s (renameSource (some (s₁, .ok)) src nameSrc)) := by
  obtain ⟨hreturns, hfails⟩ := renameSource_result h hsrc htgt hne
  constructor
  · intro hknown
    exact .inl (hreturns hknown)
  · intro hunknown
    obtain ⟨rc, hr, hrc⟩ := hfails hunknown
    refine ⟨s₁, rc, hr, hrc, h, fun hsame => ?_⟩
    rw [← hsame.lookupHash] at hnew
    exact hnew htgt

/-- A rename to a name that is free. -/
lemma rename_unbound {s₀ : State} {src tgt : Inode} {nameSrc nameTgt : String} (h : Inv s)
    (hsrc : s.lookupHash.lookup ⟨src.ino, nameSrc⟩ = some (q, p))
    (hne : (⟨src.ino, nameSrc⟩ : Key) ≠ ⟨tgt.ino, nameTgt⟩) (hknown : Known s tgt)
    (hn : s.nodes.cell p = some n) (htgt : s.lookupHash.lookup ⟨tgt.ino, nameTgt⟩ = none)
    (hnew : ∀ q', s₀.lookupHash.lookup ⟨tgt.ino, nameTgt⟩ ≠ some (q', p)) :
    (Known s src → Whole s₀ (renameSource (namespaceAddNl s tgt nameTgt n.inode.ino newGen) src nameSrc)) ∧
      (¬ Known s src → Half s₀ (renameSource (namespaceAddNl s tgt nameTgt n.inode.ino newGen) src nameSrc)) := by
  have hnode := (h.nodes _ _).mpr ⟨n, hn, rfl⟩
  obtain ⟨s₁, hs₁, hadded⟩ := (@add_known s p tgt nameTgt n.inode.ino newGen h hknown hnode).1 htgt
  obtain ⟨hother, q', htgt₁⟩ := hadded.added rfl
  have hparent : s.nodesHash.lookup src.ino ≠ none := by
    obtain ⟨x, hx⟩ := h.parents _ _ hsrc
    rw [hx]
    exact Option.some_ne_none x
  rw [hs₁, ← hadded.known h hparent]
  exact renameSource_cases hadded.inv ((hother _ hne).trans hsrc) htgt₁ hne (hnew q')

/-- A rename over a name that is taken. -/
lemma rename_replaced {src tgt : Inode} {nameSrc nameTgt : String} {q' p' : ℕ} (h : Inv s)
    (hsrc : s.lookupHash.lookup ⟨src.ino, nameSrc⟩ = some (q, p))
    (hne : (⟨src.ino, nameSrc⟩ : Key) ≠ ⟨tgt.ino, nameTgt⟩) (hknown : Known s tgt)
    (htgt : s.lookupHash.lookup ⟨tgt.ino, nameTgt⟩ = some (q', p')) (hpp : p' ≠ p)
    (hn' : s.nodes.cell p' = some n') (hlast : LastNameChildless s ⟨tgt.ino, nameTgt⟩) :
    (Known s src ∧ ¬ (n'.nLookup = 1 ∧ n'.inode.ino = tgt.ino) →
      Whole s (namespaceRename s src nameSrc tgt nameTgt)) ∧
      (¬ (Known s src ∧ ¬ (n'.nLookup = 1 ∧ n'.inode.ino = tgt.ino)) →
        Half s (namespaceRename s src nameSrc tgt nameTgt)) := by
  obtain ⟨n, e, hn, -⟩ := (h.bound _ _ _).mp hsrc
  have hnode := (h.nodes _ _).mpr ⟨n, hn, rfl⟩
  have heq : ¬ (src.ino = tgt.ino ∧ nameSrc = nameTgt) := by
    rintro ⟨hino, rfl⟩
    rw [hino] at hne
    exact hne rfl
  have hadd := (@add_known s p tgt nameTgt n.inode.ino n.inode.generation h hknown hnode).2 q' p' htgt
  rw [if_neg hpp] at hadd
  obtain ⟨s₂, hs₂, hremoved, hhash⟩ := (remove_bound h hknown htgt hn').1 hlast
  obtain ⟨hgone, hkept⟩ := hremoved.removed rfl
  have hsrc₂ := (hkept _ hne).trans hsrc
  obtain ⟨n₂, e₂, hn₂, -⟩ := (hremoved.inv.bound _ _ _).mp hsrc₂
  have hrename : namespaceRename s src nameSrc tgt nameTgt =
      renameSource (namespaceAddNl s₂ tgt nameTgt n₂.inode.ino n₂.inode.generation) src nameSrc := by
    simp only [namespaceRename, hsrc, heq, if_false, hn, hadd, hs₂, hn₂]
  rw [hrename]
  -- the parent of the source is still there, and that of the target unless it was the node
  have hsrcKnown : Known s₂ src ↔ Known s src := by
    refine hremoved.known h ?_
    obtain ⟨x, hx⟩ := hremoved.inv.parents _ _ hsrc₂
    rw [hhash] at hx ⊢
    split_ifs at hx ⊢ with hone
    · have hother : src.ino ≠ n'.inode.ino := by
        intro hsame
        have hx : (s.nodesHash.erase n'.inode.ino).lookup src.ino = some x := hx
        rw [hsame, Finmap.lookup_erase] at hx
        cases hx
      rw [Finmap.lookup_erase_ne hother]
    · rfl
  have hnew : ∀ q'', s.lookupHash.lookup ⟨tgt.ino, nameTgt⟩ ≠ some (q'', p) := by
    intro q'' hq''
    rw [htgt] at hq''
    cases hq''
    exact hpp rfl
  by_cases hself : n'.nLookup = 1 ∧ n'.inode.ino = tgt.ino
  · -- the parent of the target is gone
    have hunknown : ¬ Known s₂ tgt := by
      rintro ⟨x, m, hx, -⟩
      rw [hhash, if_pos hself.1, hself.2, Finmap.lookup_erase] at hx
      cases hx
    obtain ⟨rc, hrc, hok, -⟩ := @add_unknown s₂ tgt nameTgt n₂.inode.ino n₂.inode.generation hremoved.inv hunknown
    refine ⟨fun hno => absurd hself hno.2, fun _ => ⟨s₂, rc, ?_, hok, hremoved.inv, fun hsame => ?_⟩⟩
    · rw [hrc]
      simp only [renameSource, ne_eq, hok, not_false_eq_true, if_true]
    · rw [hsame.lookupHash, htgt] at hgone
      cases hgone
  · have htgtKnown : Known s₂ tgt := by
      refine (hremoved.known h ?_).mpr hknown
      rw [hhash]
      split_ifs with hone
      · exact Finmap.lookup_erase_ne fun hsame => hself ⟨hone, hsame.symm⟩
      · rfl
    have hresult := @rename_unbound s₂ p q n₂ n₂.inode.generation s src tgt nameSrc nameTgt hremoved.inv hsrc₂ hne
      htgtKnown hn₂ hgone hnew
    rw [hsrcKnown] at hresult
    exact ⟨fun hyes => hresult.1 hyes.1, fun hno => hresult.2 fun hyes => hno ⟨hyes, hself⟩⟩

/-- What a rename does. -/
theorem rename_result {src tgt : Inode} {nameSrc nameTgt : String} (h : Inv s) :
    (Clean s (.rename src nameSrc tgt nameTgt) → Whole s (namespaceRename s src nameSrc tgt nameTgt)) ∧
      (¬ Clean s (.rename src nameSrc tgt nameTgt) → Half s (namespaceRename s src nameSrc tgt nameTgt)) := by
  cases hsrc : s.lookupHash.lookup ⟨src.ino, nameSrc⟩ with
  | none =>
    refine ⟨fun _ => .inr (.inl ⟨.noSuchKey, by simp only [namespaceRename, hsrc], by decide⟩), fun hno => ?_⟩
    refine absurd (fun q p hlookup => ?_) hno
    rw [hsrc] at hlookup
    cases hlookup
  | some v =>
    obtain ⟨q, p⟩ := v
    obtain ⟨n, e, hn, -⟩ := (h.bound _ _ _).mp hsrc
    have hnode := (h.nodes _ _).mpr ⟨n, hn, rfl⟩
    by_cases heq : src.ino = tgt.ino ∧ nameSrc = nameTgt
    · refine ⟨fun _ => .inl ⟨s, by simp only [namespaceRename, hsrc, heq, if_true, and_self], h⟩, fun hno => ?_⟩
      refine absurd (fun q p _ hne => ?_) hno
      exact absurd (by rw [heq.1, heq.2]) hne
    have hne : (⟨src.ino, nameSrc⟩ : Key) ≠ ⟨tgt.ino, nameTgt⟩ := fun hkey => heq (Key.mk.inj hkey)
    by_cases hknown : Known s tgt
    swap
    · obtain ⟨rc, hrc, hok, hexist⟩ := @add_unknown s tgt nameTgt n.inode.ino n.inode.generation h hknown
      have hrename : namespaceRename s src nameSrc tgt nameTgt = some (s, rc) := by
        cases rc with
        | ok => exact absurd rfl hok
        | eexist => exact absurd rfl hexist
        | _ => simp only [namespaceRename, hsrc, heq, if_false, hn, hrc, renameSource, ne_eq, reduceCtorEq,
            not_false_eq_true, if_true]
      refine ⟨fun _ => .inr (.inl ⟨rc, hrename, hok⟩), fun hno => ?_⟩
      exact absurd (fun _ _ _ _ hk => absurd hk hknown) hno
    cases htgt : s.lookupHash.lookup ⟨tgt.ino, nameTgt⟩ with
    | none =>
      have hiff : Clean s (.rename src nameSrc tgt nameTgt) ↔ Known s src := by
        constructor
        · intro hclean
          exact (hclean q p hsrc hne hknown).1 htgt
        · intro hsrcKnown q₁ p₁ _ _ _
          refine ⟨fun _ => hsrcKnown, fun q' p' n' hlookup => ?_⟩
          rw [htgt] at hlookup
          cases hlookup
      obtain ⟨s₁, hs₁, -⟩ := (@add_known s p tgt nameTgt n.inode.ino n.inode.generation h hknown hnode).1 htgt
      have hresult := @rename_unbound s p q n n.inode.generation s src tgt nameSrc nameTgt h hsrc hne hknown hn htgt
        fun q' hq' => by rw [htgt] at hq'; cases hq'
      have hrename : namespaceRename s src nameSrc tgt nameTgt = renameSource (some (s₁, .ok)) src nameSrc := by
        simp only [namespaceRename, hsrc, heq, if_false, hn, hs₁]
      rw [hs₁, ← hrename] at hresult
      rw [hiff]
      exact hresult
    | some v =>
      obtain ⟨q', p'⟩ := v
      obtain ⟨n', e', hn', -⟩ := (h.bound _ _ _).mp htgt
      have hadd := (@add_known s p tgt nameTgt n.inode.ino n.inode.generation h hknown hnode).2 q' p' htgt
      by_cases hpp : p' = p
      · -- the target is another name of the node
        have hclean : Clean s (.rename src nameSrc tgt nameTgt) := by
          intro q₁ p₁ hlookup _ _
          rw [hsrc] at hlookup
          cases hlookup
          refine ⟨fun hnone => ?_, fun q₂ p₂ n₂ hlookup hne₂ => ?_⟩
          · rw [htgt] at hnone
            cases hnone
          · rw [htgt] at hlookup
            cases hlookup
            exact absurd hpp hne₂
        rw [if_pos hpp] at hadd
        have hrename : namespaceRename s src nameSrc tgt nameTgt = renameSource (some (s, .ok)) src nameSrc := by
          simp only [namespaceRename, hsrc, heq, if_false, hn, hadd]
        refine ⟨fun _ => ?_, fun hno => absurd hclean hno⟩
        rw [hrename]
        obtain ⟨hreturns, hfails⟩ := renameSource_result (q := q) h hsrc (hpp ▸ htgt) hne
        by_cases hsrcKnown : Known s src
        · exact .inl (hreturns hsrcKnown)
        · exact .inr (.inl (hfails hsrcKnown))
      · by_cases hlast : LastNameChildless s ⟨tgt.ino, nameTgt⟩
        · have hiff : Clean s (.rename src nameSrc tgt nameTgt) ↔
              (Known s src ∧ ¬ (n'.nLookup = 1 ∧ n'.inode.ino = tgt.ino)) := by
            constructor
            · intro hclean
              exact (hclean q p hsrc hne hknown).2 q' p' n' htgt hpp hn' hlast
            · intro hyes q₁ p₁ _ _ _
              refine ⟨fun hnone => ?_, fun q₂ p₂ n₂ hlookup _ hn₂ _ => ?_⟩
              · rw [htgt] at hnone
                cases hnone
              · rw [htgt] at hlookup
                cases hlookup
                rw [hn'] at hn₂
                cases hn₂
                exact hyes
          rw [hiff]
          exact rename_replaced h hsrc hne hknown htgt hpp hn' hlast
        · -- the removal of the target fails its assertion
          have habort := (remove_bound h hknown htgt hn').2 hlast
          rw [if_neg hpp] at hadd
          have hrename : namespaceRename s src nameSrc tgt nameTgt = none := by
            simp only [namespaceRename, hsrc, heq, if_false, hn, hadd, habort]
          refine ⟨fun _ => .inr (.inr hrename), fun hno => ?_⟩
          refine absurd (fun q₁ p₁ _ _ _ => ?_) hno
          refine ⟨fun hnone => ?_, fun _ _ _ _ _ _ hl => absurd hl hlast⟩
          rw [htgt] at hnone
          cases hnone

/-! ## Runs -/

/-- A call that returns keeps the invariant. -/
theorem inv_of_returns {c : Call} (h : Inv s) (hs' : call s c = some (s', rc)) : Inv s' := by
  cases c with
  | add parent name entry newGen =>
    obtain ⟨s₁, p, rc₁, hs₁, hadded, -⟩ := @add_spec s parent name entry newGen h
    rw [show call s (.add parent name entry newGen) = namespaceAddNl s parent name entry newGen from rfl, hs₁] at hs'
    cases hs'
    exact hadded.inv
  | remove parent name => exact (h.remove hs').1
  | rename src nameSrc tgt nameTgt =>
    have hs' : namespaceRename s src nameSrc tgt nameTgt = some (s', rc) := hs'
    obtain ⟨hwhole, hhalf⟩ := @rename_result s src tgt nameSrc nameTgt h
    by_cases hclean : Clean s (.rename src nameSrc tgt nameTgt)
    · rcases hwhole hclean with ⟨s₁, hs₁, hinv⟩ | ⟨rc₁, hs₁, -⟩ | hnone
      · rw [hs₁] at hs'
        cases hs'
        exact hinv
      · rw [hs₁] at hs'
        cases hs'
        exact h
      · rw [hnone] at hs'
        cases hs'
    · obtain ⟨s₁, rc₁, hs₁, -, hinv, -⟩ := hhalf hclean
      rw [hs₁] at hs'
      cases hs'
      exact hinv

lemma inv_of_run {root : Ino} {gen : ℕ} (h : Reachable step (namespaceInit root gen) s) : Inv s := by
  refine h.invariant inv_namespaceInit fun s c s' hs _ hstep => ?_
  obtain ⟨⟨s₁, rc⟩, hr, rfl⟩ := Option.map_eq_some_iff.mp hstep
  exact inv_of_returns hs hr

/-- A call that succeeds or changes nothing is lawful. -/
lemma lawful_of_whole {c : Call} (h : Whole s (call s c)) :
    ∀ s' rc, call s c = some (s', rc) → rc ≠ .ok → Same s s' := by
  intro s' rc hs' hrc
  rcases h with ⟨s₁, hs₁, -⟩ | ⟨rc₁, hs₁, -⟩ | hnone
  · rw [hs₁] at hs'
    cases hs'
    exact absurd rfl hrc
  · rw [hs₁] at hs'
    cases hs'
    exact Same.refl
  · rw [hnone] at hs'
    cases hs'

/-- The additions that keep the law. -/
lemma add_lawful_iff (h : Inv s) :
    Lawful s (.add parent name entry newGen) ↔ Clean s (.add parent name entry newGen) := by
  have hcall : call s (.add parent name entry newGen) = namespaceAddNl s parent name entry newGen := rfl
  constructor
  · intro hlaw hknown hentry
    by_contra hbound
    -- running out of memory here leaves the new node behind
    have hnew := @add_new s parent name entry newGen hknown hentry
    rw [if_neg hbound] at hnew
    obtain ⟨s', hs', hleft⟩ := hnew
    have hsame := hlaw.atomic s' .enomem (hcall ▸ hs') (by decide)
    rw [hsame.nodesHash] at hleft
    exact hleft hentry
  · intro hclean
    refine ⟨?_, fun parent' name' entry' newGen' heq hknown hentry hbound => ?_⟩
    · by_cases hknown : Known s parent
      · cases hentry : s.nodesHash.lookup entry with
        | none =>
          have hnew := @add_new s parent name entry newGen hknown hentry
          rw [if_pos (hclean hknown hentry)] at hnew
          obtain ⟨s₁, hs₁⟩ := hnew
          intro s' rc hs' hrc
          rw [hcall, hs₁] at hs'
          cases hs'
          exact absurd rfl hrc
        | some p =>
          obtain ⟨hfree, hbound⟩ := @add_known s p parent name entry newGen h hknown hentry
          cases hkey : s.lookupHash.lookup ⟨parent.ino, name⟩ with
          | none =>
            obtain ⟨s₁, hs₁, -⟩ := hfree hkey
            intro s' rc hs' hrc
            rw [hcall, hs₁] at hs'
            cases hs'
            exact absurd rfl hrc
          | some v =>
            intro s' rc hs' _
            rw [hcall, hbound v.1 v.2 hkey] at hs'
            cases hs'
            exact Same.refl
      · obtain ⟨rc₁, hrc₁, -⟩ := @add_unknown s parent name entry newGen h hknown
        intro s' rc hs' _
        rw [hcall, hrc₁] at hs'
        cases hs'
        exact Same.refl
    · cases heq
      exact absurd (hclean hknown hentry) hbound

/-- In every run, the errors of a call change nothing exactly if the call is clean. -/
theorem lawful_iff_clean {root : Ino} {gen : ℕ} (h : Reachable step (namespaceInit root gen) s) (c : Call) :
    Lawful s c ↔ Clean s c := by
  have hinv := inv_of_run h
  cases c with
  | add parent name entry newGen => exact add_lawful_iff hinv
  | remove parent name =>
    refine ⟨fun _ => trivial, fun _ => ⟨fun s' rc hs' hrc => ?_, fun _ _ _ _ heq => by cases heq⟩⟩
    rw [(hinv.remove hs').2 hrc]
    exact Same.refl
  | rename src nameSrc tgt nameTgt =>
    obtain ⟨hwhole, hhalf⟩ := @rename_result s src tgt nameSrc nameTgt hinv
    constructor
    · intro hlaw
      by_contra hclean
      obtain ⟨s', rc, hs', hrc, -, hnot⟩ := hhalf hclean
      exact hnot (hlaw.atomic s' rc hs' hrc)
    · intro hclean
      exact ⟨lawful_of_whole (c := .rename src nameSrc tgt nameTgt) (hwhole hclean), fun _ _ _ _ heq => by cases heq⟩

/-- The rename of a name of the first file over the second file. -/
theorem lawful_iff_clean_replaced :
    ∃ s, execute step (namespaceInit sampleRoot 0) sampleCalls = some s ∧
      Lawful s (.rename ⟨sampleRoot, 0⟩ "a" ⟨sampleRoot, 0⟩ "c") := by
  have hrun : ((execute step (namespaceInit sampleRoot 0) sampleCalls).any fun s =>
      s.nodesHash.lookup sampleRoot = some 0 ∧
      (s.nodes.cell 0).map (fun n => n.inode.generation) = some 0 ∧
      s.lookupHash.lookup ⟨sampleRoot, "c"⟩ = some (2, 2) ∧
      (s.nodes.cell 2).map (fun n => n.inode.ino) = some ⟨4, 1⟩) = true := by decide +kernel
  rw [Option.any_eq_true] at hrun
  obtain ⟨s, hs, hfinal⟩ := hrun
  obtain ⟨hroot, hgen, hbound, hino⟩ := of_decide_eq_true hfinal
  obtain ⟨n, hn, hgen⟩ := Option.map_eq_some_iff.mp hgen
  have hknown : Known s ⟨sampleRoot, 0⟩ := ⟨0, n, hroot, hn, hgen⟩
  refine ⟨s, hs, (lawful_iff_clean (reachable_of_execute hs) _).mpr fun q p _ _ _ => ?_⟩
  refine ⟨fun _ => hknown, fun q' p' n' hlookup _ hcell _ => ⟨hknown, fun hown => ?_⟩⟩
  -- the object that loses its name is the file, not the root
  rw [hbound] at hlookup
  obtain ⟨rfl, rfl⟩ := Prod.mk.inj (Option.some.inj hlookup)
  rw [hcell, Option.map_some, Option.some.injEq, hown.2] at hino
  exact absurd hino (by decide)

/-- A new inode under a name that is bound leaves a node without a name. -/
theorem not_lawful_of_bound : ¬ ∀ root gen s c, Reachable step (namespaceInit root gen) s → Lawful s c := by
  intro h
  have hrun : ((execute step (namespaceInit sampleRoot 0) [.add ⟨sampleRoot, 0⟩ "a" ⟨3, 1⟩ 7]).any fun s =>
      (call s (.add ⟨sampleRoot, 0⟩ "a" ⟨4, 1⟩ 8)).any (fun r => r.2 = .enomem ∧
        r.1.nodesHash.lookup ⟨4, 1⟩ ≠ s.nodesHash.lookup ⟨4, 1⟩) = true) = true := by decide +kernel
  rw [Option.any_eq_true] at hrun
  obtain ⟨s, hs, hcall⟩ := hrun
  rw [decide_eq_true_eq, Option.any_eq_true] at hcall
  obtain ⟨⟨s', rc⟩, hs', hfinal⟩ := hcall
  obtain ⟨hrc, hleft⟩ := of_decide_eq_true hfinal
  have hsame := (h sampleRoot 0 s _ (reachable_of_execute hs)).atomic s' rc hs'
    (by rw [show rc = .enomem from hrc]; decide)
  rw [show ((s', rc) : State × Errno).1 = s' from rfl, hsame.nodesHash] at hleft
  exact hleft rfl

end Ganesha.FuseLike
