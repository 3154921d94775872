import Mathlib.Data.List.Dedup
import Mathlib.Data.List.Perm.Basic
import Ganesha.Pseudo.Build

/-!
# The pseudo filesystem is the tree of the pseudo paths
-/

namespace Ganesha.Pseudo
open Library.PathTree
open Library.LinkedList (Chain)

variable {fs fs' : Pseudofs} {nodes : List (List Name)} {J : List Name → Option ℕ} {p q r : List Name}
  {a : Name} {i j k cur : ℕ} {e : ExportEntry} {exports rest : List ExportEntry}

/-! ## The loop over the exports -/

/-- The nodes once the exports have been added. -/
def treeOf (nodes : List (List Name)) : List ExportEntry → List (List Name)
  | [] => nodes
  | e :: rest =>
    treeOf (if e.isPseudo then grow nodes [] (components e.pseudopath) else nodes) rest

/-- The exports that belong to the paths, the last one of each, from the place `k` on. -/
def junctions (k : ℕ) (J : List Name → Option ℕ) : List ExportEntry → List Name → Option ℕ
  | [] => J
  | e :: rest =>
    junctions (k + 1)
      (if e.isPseudo then Function.update J (components e.pseudopath) (some k) else J) rest

/-- The paths of the exports are well formed. -/
def AllWellFormed (exports : List ExportEntry) : Prop :=
  ∀ e ∈ exports, e.isPseudo = true → WellFormed e.pseudopath

/-- Exports only add nodes. -/
lemma length_treeOf_le : nodes.length ≤ (treeOf nodes exports).length := by
  induction exports generalizing nodes with
  | nil => exact Nat.le_refl _
  | cons e rest ih =>
    rw [treeOf]
    split_ifs
    · exact Nat.le_trans length_grow_le ih
    · exact ih

/-- The root is also filed under the number 0. -/
lemma Built.setRoot (h : Built fs nodes J) :
    Built { fs with reverseTab := Function.update fs.reverseTab 0 (some 0) } nodes J where
  tree := h.tree
  allocated := h.allocated
  lastId := h.lastId
  bound := h.bound
  node i q hi := ⟨(h.node i q hi).id, (h.node i q hi).name, (h.node i q hi).parent,
    (h.node i q hi).chain, (h.node i q hi).last⟩
  rootParent := h.rootParent
  table i q hne hi := by
    dsimp only
    rw [Function.update_of_ne]
    · exact h.table i q hne hi
    · rintro rfl
      rw [h.tree.root, Option.some.injEq] at hi
      exact hne hi.symm
  junction := h.junction
  fresh := h.fresh

lemma setRoot_zero (fs : Pseudofs) :
    ({ fs with reverseTab := Function.update fs.reverseTab 0 (some 0) } : Pseudofs).reverseTab 0 =
      some 0 := by
  show Function.update fs.reverseTab 0 (some 0) 0 = some 0
  exact Function.update_self ..

/-- A junction is set at the node of the export. -/
lemma Built.setJunction (h : Built fs nodes J) (hq : nodes[cur]? = some q) (k : ℕ) :
    Built (fs.modify cur fun e => { e with junctionExport := some k }) nodes
      (Function.update J q (some k)) := by
  have hsame : ∀ j, ((fs.modify cur fun e => { e with junctionExport := some k }).mem j) =
      if j = cur then { fs.mem cur with junctionExport := some k } else fs.mem j := fun j => mem_modify _
  -- the junction is the only field that changes
  have hfields : ∀ j, ((fs.modify cur fun e => { e with junctionExport := some k }).mem j).pseudoId =
        (fs.mem j).pseudoId ∧
      ((fs.modify cur fun e => { e with junctionExport := some k }).mem j).name = (fs.mem j).name ∧
      ((fs.modify cur fun e => { e with junctionExport := some k }).mem j).parent =
        (fs.mem j).parent ∧
      ((fs.modify cur fun e => { e with junctionExport := some k }).mem j).sons = (fs.mem j).sons ∧
      ((fs.modify cur fun e => { e with junctionExport := some k }).mem j).next = (fs.mem j).next ∧
      ((fs.modify cur fun e => { e with junctionExport := some k }).mem j).last =
        (fs.mem j).last := by
    intro j
    rw [hsame]
    split_ifs with heq
    · rw [heq]
      exact ⟨rfl, rfl, rfl, rfl, rfl, rfl⟩
    · exact ⟨rfl, rfl, rfl, rfl, rfl, rfl⟩
  refine ⟨h.tree, h.allocated, h.lastId, h.bound, fun i r hi => ?_, ?_, h.table, fun i r hi => ?_,
    fun r hr => ?_⟩
  · obtain ⟨hid, hname, hparent, hsons, _, _⟩ := hfields i
    refine ⟨hid.trans (h.node i r hi).id, fun p a hp => hname.trans ((h.node i r hi).name p a hp),
      fun p a hp => ?_, ?_, fun f hf => ?_⟩
    · rw [hparent]
      exact (h.node i r hi).parent p a hp
    · rw [hsons]
      exact (h.node i r hi).chain.congr fun j _ => (hfields j).2.2.2.2.1
    · rw [(hfields f).2.2.2.2.2]
      exact (h.node i r hi).last f hf
  · rw [(hfields 0).2.2.1]
    exact h.rootParent
  · rw [hsame]
    by_cases heq : i = cur
    · rw [if_pos heq]
      rw [heq, hq, Option.some.injEq] at hi
      rw [← hi, Function.update_self]
    · rw [if_neg heq, Function.update_of_ne]
      · exact h.junction i r hi
      · rintro rfl
        exact heq (h.tree.index_unique hi hq)
  · rw [Function.update_of_ne]
    · exact h.fresh r hr
    · rintro rfl
      exact hr (List.mem_of_getElem? hq)

/-- A pseudo path that is not well formed stops the loop. -/
lemma exportLoop_stuck (hpseudo : e.isPseudo = true) (hbad : ¬ WellFormed e.pseudopath) (fuel k : ℕ)
    (fs : Pseudofs) : exportLoop fuel k (e :: rest) fs = none := by
  induction fuel generalizing fs with
  | zero => rfl
  | succ fuel ih =>
    rw [exportLoop, if_neg (not_not.mpr hpseudo)]
    cases hparse : nfsParseConfLine nbTokPath e.pseudopath with
    | none => rfl
    | some tokens =>
      cases tokens with
      | none => exact ih _
      | some tokens =>
        dsimp only
        rw [if_pos]
        · exact ih _
        · intro hhead
          obtain ⟨hparts, -, hlt⟩ := nfsParseConfLine_iff.mp hparse
          exact hbad ⟨hhead, hparts, hlt⟩

/-- The nodes and the exports that belong to them once one more export has been added. -/
def addNodes (nodes : List (List Name)) (e : ExportEntry) : List (List Name) :=
  if e.isPseudo then grow nodes [] (components e.pseudopath) else nodes

/-- One export: its path is walked in and its junction set. -/
lemma exportLoop_cons (h : Built fs nodes J) (hgood : e.isPseudo = true → WellFormed e.pseudopath)
    (rest : List ExportEntry) (k : ℕ) :
    if (addNodes nodes e).length ≤ maxPseudoEntry then
      ∃ fs', Built fs' (addNodes nodes e)
          (if e.isPseudo then Function.update J (components e.pseudopath) (some k) else J) ∧
        fs'.reverseTab 0 = some 0 ∧
        ∀ n, exportLoop (n + 1) k (e :: rest) fs = exportLoop n (k + 1) rest fs'
    else ∀ n, exportLoop n k (e :: rest) fs = none := by
  have hroot := h.setRoot
  unfold addNodes
  by_cases hpseudo : e.isPseudo = true
  · -- the path is well formed, so its parts are its components
    have hwf := hgood hpseudo
    have hparse : nfsParseConfLine nbTokPath e.pseudopath = some (some (tokensOf e.pseudopath)) :=
      nfsParseConfLine_iff.mpr ⟨hwf.parts, rfl, hwf.length_lt⟩
    have hstep : ∀ n, exportLoop (n + 1) k (e :: rest) fs =
        (addTokens 0 (components e.pseudopath)
          { fs with reverseTab := Function.update fs.reverseTab 0 (some 0) }).bind
        fun r => exportLoop n (k + 1) rest
          (r.2.modify r.1 fun e => { e with junctionExport := some k }) := by
      intro n
      rw [exportLoop, if_neg (not_not.mpr hpseudo), hparse]
      dsimp only
      rw [if_neg (not_not.mpr hwf.absolute)]
      rfl
    have hadd := addTokens_spec hroot h.tree.root (components e.pseudopath)
    rw [if_pos hpseudo, if_pos hpseudo]
    by_cases hle : (grow nodes [] (components e.pseudopath)).length ≤ maxPseudoEntry
    · rw [if_pos hle] at hadd ⊢
      obtain ⟨cur, fs₁, hadd, hbuilt, hcur, htable⟩ := hadd
      refine ⟨_, hbuilt.setJunction hcur k, ?_, fun n => ?_⟩
      · exact htable.trans (setRoot_zero fs)
      · rw [hstep, hadd]
        rfl
    · rw [if_neg hle] at hadd ⊢
      intro n
      cases n with
      | zero => rfl
      | succ n =>
        rw [hstep, hadd]
        rfl
  · rw [if_neg hpseudo, if_neg hpseudo, if_pos h.bound]
    refine ⟨_, hroot, setRoot_zero fs, fun n => ?_⟩
    rw [exportLoop, if_pos hpseudo]

/-- The exports are added one after the other, unless a path is badly formed or there are too many
nodes. -/
theorem exportLoop_spec (h : Built fs nodes J) (exports : List ExportEntry) (k : ℕ) :
    (AllWellFormed exports ∧ (treeOf nodes exports).length ≤ maxPseudoEntry →
      ∃ fs', (∀ fuel > exports.length, exportLoop fuel k exports fs = some fs') ∧
        Built fs' (treeOf nodes exports) (junctions k J exports) ∧
        fs'.reverseTab 0 = if exports = [] then fs.reverseTab 0 else some 0) ∧
    (¬ (AllWellFormed exports ∧ (treeOf nodes exports).length ≤ maxPseudoEntry) →
      ∀ fuel, exportLoop fuel k exports fs = none) := by
  induction exports generalizing fs nodes J k with
  | nil =>
    refine ⟨fun _ => ⟨fs, fun fuel hfuel => ?_, h, by rw [if_pos rfl]⟩, fun hbad => ?_⟩
    · obtain ⟨n, rfl⟩ : ∃ n, fuel = n + 1 := Nat.exists_eq_add_one.mpr hfuel
      rfl
    · exact absurd ⟨fun e he => absurd he List.not_mem_nil, h.bound⟩ hbad
  | cons e rest ih =>
    have htree : treeOf nodes (e :: rest) = treeOf (addNodes nodes e) rest := rfl
    have hwf : AllWellFormed (e :: rest) ↔
        (e.isPseudo = true → WellFormed e.pseudopath) ∧ AllWellFormed rest := List.forall_mem_cons
    by_cases hgood : e.isPseudo = true → WellFormed e.pseudopath
    · have hcons := exportLoop_cons h hgood rest k
      by_cases hle : (addNodes nodes e).length ≤ maxPseudoEntry
      · rw [if_pos hle] at hcons
        obtain ⟨fs₁, hbuilt, hroot, hstep⟩ := hcons
        obtain ⟨hdone, hfail⟩ := ih hbuilt (k + 1)
        rw [htree, hwf, and_iff_right hgood]
        constructor
        · intro hall
          obtain ⟨fs', hloop, hbuilt', hroot'⟩ := hdone hall
          refine ⟨fs', fun fuel hfuel => ?_, hbuilt', ?_⟩
          · obtain ⟨n, rfl⟩ : ∃ n, fuel = n + 1 :=
              Nat.exists_eq_add_one.mpr (Nat.lt_of_le_of_lt (Nat.zero_le _) hfuel)
            rw [hstep]
            exact hloop n (Nat.lt_of_succ_lt_succ hfuel)
          · rw [hroot', hroot, ite_self, if_neg (List.cons_ne_nil e rest)]
        · intro hbad fuel
          cases fuel with
          | zero => rfl
          | succ n =>
            rw [hstep]
            exact hfail hbad n
      · -- there are too many nodes
        rw [if_neg hle] at hcons
        refine ⟨fun hall => ?_, fun _ => hcons⟩
        rw [htree] at hall
        exact absurd (Nat.le_trans length_treeOf_le hall.2) hle
    · refine ⟨fun hall => absurd (hwf.mp hall.1).1 hgood, fun _ fuel => ?_⟩
      rw [Classical.not_imp] at hgood
      exact exportLoop_stuck hgood.1 hgood.2 fuel k fs

/-! ## The tree -/

/-- The sons of an entry, by the pointers. -/
def SonsOf (fs : Pseudofs) (p : ℕ) (l : List ℕ) : Prop := Chain fs.next (fs.mem p).sons l

/-- A path leads from one entry to another one. -/
inductive Walk (fs : Pseudofs) : ℕ → List Name → ℕ → Prop
  | here (i : ℕ) : Walk fs i [] i
  | step {i j k : ℕ} {l : List ℕ} {q : List Name} (hsons : SonsOf fs i l) (hj : j ∈ l)
      (hrest : Walk fs j q k) : Walk fs i ((fs.mem j).name :: q) k

/-- An export whose pseudo path is taken. -/
def Takes (e : ExportEntry) : Prop := e.isPseudo = true ∧ WellFormed e.pseudopath

/-- The entries form the tree of the well-formed pseudo paths, and the table leads back to them. -/
structure IsTrie (fs : Pseudofs) (exports : List ExportEntry) : Prop where
  /-- The path of an export leads to a junction to an export with that path. -/
  found : ∀ e ∈ exports, Takes e → ∃ i k e', Walk fs 0 (components e.pseudopath) i ∧
    exports[k]? = some e' ∧ Takes e' ∧ components e'.pseudopath = components e.pseudopath ∧
    (fs.mem i).junctionExport = some k
  /-- There are no other entries. -/
  onPath : ∀ q i, Walk fs 0 q i → q = [] ∨ ∃ e ∈ exports, Takes e ∧ q <+: components e.pseudopath
  /-- There are no other junctions. -/
  junction : ∀ q i k, Walk fs 0 q i → (fs.mem i).junctionExport = some k →
    ∃ e, exports[k]? = some e ∧ Takes e ∧ components e.pseudopath = q
  /-- The sons of an entry have different names and lead back to it. -/
  sons : ∀ q i, Walk fs 0 q i → ∃ l, SonsOf fs i l ∧ (l.map fun j => (fs.mem j).name).Nodup ∧
    ∀ j ∈ l, (fs.mem j).parent = i
  /-- An entry is a son of its parent. -/
  parent : ∀ q i, Walk fs 0 q i → q ≠ [] → ∃ l, SonsOf fs (fs.mem i).parent l ∧ i ∈ l
  rootParent : (fs.mem 0).parent = 0
  /-- Different entries have different ids. -/
  id : ∀ q i q' i', Walk fs 0 q i → Walk fs 0 q' i' → (fs.mem i).pseudoId = (fs.mem i').pseudoId →
    i = i'
  /-- The table has a place for every id, which leads to the entry. -/
  table : ∀ q i, Walk fs 0 q i → (fs.mem i).pseudoId < maxPseudoEntry ∧
    fs.reverseTab (fs.mem i).pseudoId = some i

/-- A walk along names leads to the node of the path. -/
lemma Built.walk (h : Built fs nodes J) (hwalk : Walk fs i q j) (hp : nodes[i]? = some p) :
    nodes[j]? = some (p ++ q) := by
  induction hwalk generalizing p with
  | here i =>
    rw [List.append_nil]
    exact hp
  | @step i j k l q hsons hj _ ih =>
    obtain rfl := hsons.unique (h.node i p hp).chain
    obtain ⟨a, ha⟩ := mem_sons.mp hj
    have hname : (fs.mem j).name = a := (h.node j _ ha).name p a rfl
    rw [hname, List.append_cons]
    exact ih ha

/-- To each node there is a walk along its names. -/
lemma Built.exists_walk (h : Built fs nodes J) (hp : nodes[i]? = some p)
    (hj : nodes[j]? = some (p ++ q)) : Walk fs i q j := by
  induction q generalizing i p with
  | nil =>
    rw [List.append_nil] at hj
    rw [h.tree.index_unique hj hp]
    exact Walk.here i
  | cons a q ih =>
    rw [List.append_cons] at hj
    obtain ⟨k, hk⟩ := List.mem_iff_getElem?.mp
      (h.tree.mem_of_prefix (List.mem_of_getElem? hj) (List.prefix_append (p ++ [a]) q))
    have hname : (fs.mem k).name = a := (h.node k _ hk).name p a rfl
    rw [← hname]
    exact Walk.step (h.node i p hp).chain (mem_sons.mpr ⟨a, hk⟩) (ih hk hj)

lemma Built.walk_iff (h : Built fs nodes J) : Walk fs 0 q i ↔ nodes[i]? = some q :=
  ⟨fun hwalk => h.walk hwalk h.tree.root, fun hi => h.exists_walk h.tree.root hi⟩

/-! ## What the exports bring -/

/-- The nodes are the prefixes of the pseudo paths. -/
lemma mem_treeOf : q ∈ treeOf nodes exports ↔
    q ∈ nodes ∨ ∃ e ∈ exports, e.isPseudo = true ∧ q ≠ [] ∧ q <+: components e.pseudopath := by
  induction exports generalizing nodes with
  | nil => simp [treeOf]
  | cons e rest ih =>
    rw [treeOf, ih]
    by_cases hpseudo : e.isPseudo = true
    · rw [if_pos hpseudo, mem_grow, or_assoc]
      refine or_congr Iff.rfl ?_
      constructor
      · rintro (⟨s, hne, hs, rfl⟩ | ⟨e', he', hrest⟩)
        · exact ⟨e, List.mem_cons_self, hpseudo, hne, hs⟩
        · exact ⟨e', List.mem_cons_of_mem e he', hrest⟩
      · rintro ⟨e', he', hpseudo', hne, hq⟩
        rcases List.mem_cons.mp he' with rfl | he'
        · exact Or.inl ⟨q, hne, hq, rfl⟩
        · exact Or.inr ⟨e', he', hpseudo', hne, hq⟩
    · rw [if_neg hpseudo]
      refine or_congr Iff.rfl ⟨fun ⟨e', he', hrest⟩ => ⟨e', List.mem_cons_of_mem e he', hrest⟩, ?_⟩
      rintro ⟨e', he', hpseudo', hrest⟩
      rcases List.mem_cons.mp he' with rfl | he'
      · exact absurd hpseudo' hpseudo
      · exact ⟨e', he', hpseudo', hrest⟩

lemma components_mem_treeOf (hroot : [] ∈ nodes) (he : e ∈ exports) (hpseudo : e.isPseudo = true) :
    components e.pseudopath ∈ treeOf nodes exports := by
  by_cases hnil : components e.pseudopath = []
  · rw [hnil]
    exact mem_treeOf.mpr (Or.inl hroot)
  · exact mem_treeOf.mpr (Or.inr ⟨e, he, hpseudo, hnil, List.prefix_rfl⟩)

/-- The last export of a path has the junction. -/
lemma junctions_spec (hJ : ∀ q j, J q = some j → ∃ e, rest[j]? = some e ∧ e.isPseudo = true ∧
      components e.pseudopath = q) :
    (∀ q j, junctions rest.length J exports q = some j →
      ∃ e, (rest ++ exports)[j]? = some e ∧ e.isPseudo = true ∧ components e.pseudopath = q) ∧
    (∀ q, (J q).isSome = true ∨ (∃ e ∈ exports, e.isPseudo = true ∧ components e.pseudopath = q) →
      (junctions rest.length J exports q).isSome = true) := by
  induction exports generalizing rest J with
  | nil =>
    constructor
    · intro q j hj
      rw [List.append_nil]
      exact hJ q j hj
    · rintro q (hq | ⟨e, he, -⟩)
      · exact hq
      · exact absurd he List.not_mem_nil
  | cons e exports ih =>
    have hJ' : ∀ q j, (if e.isPseudo = true then
          Function.update J (components e.pseudopath) (some rest.length) else J) q = some j →
        ∃ e', (rest ++ [e])[j]? = some e' ∧ e'.isPseudo = true ∧ components e'.pseudopath = q := by
      intro q j hj
      by_cases hnew : e.isPseudo = true ∧ q = components e.pseudopath
      · obtain ⟨hpseudo, rfl⟩ := hnew
        rw [if_pos hpseudo, Function.update_self, Option.some.injEq] at hj
        rw [← hj]
        exact ⟨e, List.getElem?_concat_length .., hpseudo, rfl⟩
      · have hold : J q = some j := by
          split_ifs at hj with hpseudo
          · rwa [Function.update_of_ne fun heq => hnew ⟨hpseudo, heq⟩] at hj
          · exact hj
        obtain ⟨e', he', hrest⟩ := hJ q j hold
        exact ⟨e', by rw [List.getElem?_append_left (List.getElem?_eq_some_iff.mp he').1, he'], hrest⟩
    obtain ⟨hfrom, hall⟩ := ih hJ'
    rw [List.length_append, List.length_singleton] at hfrom hall
    rw [junctions]
    constructor
    · intro q j hj
      rw [List.append_cons]
      exact hfrom q j hj
    · rintro q hq
      apply hall
      by_cases hnew : e.isPseudo = true ∧ q = components e.pseudopath
      · left
        obtain ⟨hpseudo, rfl⟩ := hnew
        rw [if_pos hpseudo, Function.update_self]
        rfl
      · rcases hq with hq | ⟨e', he', hpseudo', hq⟩
        · left
          split_ifs with hpseudo
          · rw [Function.update_of_ne fun heq => hnew ⟨hpseudo, heq⟩]
            exact hq
          · exact hq
        · rcases List.mem_cons.mp he' with rfl | he'
          · exact absurd ⟨hpseudo', hq.symm⟩ hnew
          · exact Or.inr ⟨e', he', hpseudo', hq⟩

/-! ## The whole construction -/

/-- At first there is the root alone. -/
lemma built_initialPseudofs : Built initialPseudofs [[]] fun _ => none where
  tree := Tree.single
  allocated := rfl
  lastId := rfl
  bound := by decide
  node i q hi := by
    obtain rfl : i = 0 := Nat.lt_one_iff.mp (lt_of_getElem? hi)
    obtain rfl : [] = q := Option.some.inj hi
    exact ⟨rfl, fun p a hp => absurd hp.symm (List.append_ne_nil_of_right_ne_nil p (List.cons_ne_nil a [])),
      fun p a hp => absurd hp.symm (List.append_ne_nil_of_right_ne_nil p (List.cons_ne_nil a [])),
      rfl, fun f hf => by cases hf⟩
  rootParent := rfl
  table i q hne hi := by
    obtain rfl : i = 0 := Nat.lt_one_iff.mp (lt_of_getElem? hi)
    exact absurd (Option.some.inj hi).symm hne
  junction i q hi := rfl
  fresh q hq := rfl

/-- What is built is the tree of the paths. -/
theorem Built.isTrie (h : Built fs (treeOf [[]] exports) (junctions 0 (fun _ => none) exports))
    (hwf : AllWellFormed exports) (hroot : fs.reverseTab 0 = some 0) : IsTrie fs exports := by
  obtain ⟨hfrom, hall⟩ := @junctions_spec (fun _ => none) exports [] fun q j hj => by cases hj
  have htakes : ∀ k q, junctions 0 (fun _ => none) exports q = some k →
      ∃ e, exports[k]? = some e ∧ Takes e ∧ components e.pseudopath = q := by
    intro k q hk
    obtain ⟨e, he, hpseudo, hq⟩ := hfrom q k hk
    exact ⟨e, he, ⟨hpseudo, hwf e (List.mem_of_getElem? he) hpseudo⟩, hq⟩
  have hids : ∀ q i, Walk fs 0 q i → (fs.mem i).pseudoId = i :=
    fun q i hwalk => (h.node i q (h.walk_iff.mp hwalk)).id
  refine ⟨fun e he htake => ?_, fun q i hwalk => ?_, fun q i k hwalk hk => ?_, fun q i hwalk => ?_,
    fun q i hwalk hne => ?_, h.rootParent, fun q i q' i' hwalk hwalk' heq => ?_, fun q i hwalk => ?_⟩
  · -- the node of an export has a junction on it
    obtain ⟨i, hi⟩ := List.mem_iff_getElem?.mp
      (components_mem_treeOf (List.mem_singleton.mpr rfl) he htake.1)
    obtain ⟨k, hk⟩ := Option.isSome_iff_exists.mp
      (hall (components e.pseudopath) (Or.inr ⟨e, he, htake.1, rfl⟩))
    obtain ⟨e', he', htake', hpath⟩ := htakes k _ hk
    exact ⟨i, k, e', h.walk_iff.mpr hi, he', htake', hpath, (h.junction i _ hi).trans hk⟩
  · rcases mem_treeOf.mp (List.mem_of_getElem? (h.walk_iff.mp hwalk)) with hq | ⟨e, he, hpseudo, -, hq⟩
    · exact Or.inl (List.mem_singleton.mp hq)
    · exact Or.inr ⟨e, he, ⟨hpseudo, hwf e he hpseudo⟩, hq⟩
  · exact htakes k q ((h.junction i q (h.walk_iff.mp hwalk)).symm.trans hk)
  · have hi := h.walk_iff.mp hwalk
    refine ⟨sons (treeOf [[]] exports) q, (h.node i q hi).chain, ?_, fun j hj => ?_⟩
    · refine List.Nodup.map_on (fun j hj j' hj' heq => ?_) nodup_sons
      obtain ⟨a, ha⟩ := mem_sons.mp hj
      obtain ⟨b, hb⟩ := mem_sons.mp hj'
      rw [(h.node j _ ha).name q a rfl, (h.node j' _ hb).name q b rfl] at heq
      rw [heq] at ha
      exact h.tree.index_unique ha hb
    · obtain ⟨a, ha⟩ := mem_sons.mp hj
      exact h.tree.index_unique ((h.node j _ ha).parent q a rfl) hi
  · obtain ⟨p, a, rfl⟩ : ∃ p a, q = p ++ [a] :=
      ⟨q.dropLast, q.getLast hne, (List.dropLast_append_getLast hne).symm⟩
    have hi := h.walk_iff.mp hwalk
    exact ⟨_, (h.node _ p ((h.node i _ hi).parent p a rfl)).chain, mem_sons.mpr ⟨a, hi⟩⟩
  · rwa [hids q i hwalk, hids q' i' hwalk'] at heq
  · have hi := h.walk_iff.mp hwalk
    rw [hids q i hwalk]
    refine ⟨Nat.lt_of_lt_of_le (lt_of_getElem? hi) h.bound, ?_⟩
    by_cases hne : q = []
    · rw [hne] at hi
      rw [h.tree.index_unique hi h.tree.root]
      exact hroot
    · exact h.table i q hne hi

/-! ## When the tree is built -/

/-- The call returns, and what is built is the tree of the paths. -/
def PseudoLaw (exports : List ExportEntry) : Prop :=
  ∃ n fs, (∀ fuel ≥ n, nfs4ExportToPseudoFs fuel exports = some fs) ∧ IsTrie fs exports

/-- The beginnings of the pseudo paths. -/
def pathsOf (exports : List ExportEntry) : List (List Name) :=
  [] :: exports.flatMap fun e => if e.isPseudo then (components e.pseudopath).inits else []

lemma mem_pathsOf : q ∈ pathsOf exports ↔
    q = [] ∨ ∃ e ∈ exports, e.isPseudo = true ∧ q <+: components e.pseudopath := by
  rw [pathsOf, List.mem_cons, List.mem_flatMap]
  refine or_congr Iff.rfl (exists_congr fun e => and_congr_right fun _ => ?_)
  split_ifs with hpseudo
  · rw [List.mem_inits, and_iff_right hpseudo]
  · exact iff_of_false List.not_mem_nil fun hall => hpseudo hall.1

/-- No node comes twice. -/
lemma nodup_treeOf (h : Tree nodes) : (treeOf nodes exports).Nodup := by
  induction exports generalizing nodes with
  | nil => exact h.nodup
  | cons e rest ih =>
    rw [treeOf]
    split_ifs
    · exact ih (h.grow h.root_mem)
    · exact ih h

/-- How many nodes there are. -/
lemma length_treeOf (exports : List ExportEntry) :
    (treeOf [[]] exports).length = (pathsOf exports).dedup.length := by
  apply List.Perm.length_eq
  rw [List.perm_ext_iff_of_nodup (nodup_treeOf Tree.single) (List.nodup_dedup _)]
  intro q
  rw [List.mem_dedup, mem_pathsOf, mem_treeOf, List.mem_singleton]
  by_cases hq : q = []
  · exact iff_of_true (Or.inl hq) (Or.inl hq)
  · rw [or_iff_right hq, or_iff_right hq]
    exact exists_congr fun e => and_congr_right fun _ => and_congr_right fun _ => and_iff_right hq

/-- The tree of the paths is built exactly when there is an export, every pseudo path is well formed, and
the nodes fit into the table. -/
theorem pseudoLaw_iff (exports : List ExportEntry) : PseudoLaw exports ↔
    exports ≠ [] ∧ AllWellFormed exports ∧ (pathsOf exports).dedup.length ≤ maxPseudoEntry := by
  obtain ⟨hdone, hfail⟩ := exportLoop_spec built_initialPseudofs exports 0
  rw [← length_treeOf]
  constructor
  · rintro ⟨n, fs, hrun, htrie⟩
    have hgood : AllWellFormed exports ∧ (treeOf [[]] exports).length ≤ maxPseudoEntry := by
      by_contra hbad
      have hnone := hfail hbad n
      rw [show exportLoop n 0 exports initialPseudofs = some fs from hrun n (Nat.le_refl n)] at hnone
      cases hnone
    refine ⟨?_, hgood⟩
    rintro rfl
    -- the loop is not entered, and the root has no place in the table
    obtain rfl : initialPseudofs = fs := Option.some.inj (hrun (n + 1) (Nat.le_succ n))
    cases (htrie.table [] 0 (Walk.here 0)).2
  · rintro ⟨hne, hgood⟩
    obtain ⟨fs, hloop, hbuilt, hroot⟩ := hdone hgood
    rw [if_neg hne] at hroot
    exact ⟨exports.length + 1, fs, fun fuel hfuel => hloop fuel hfuel, hbuilt.isTrie hgood.1 hroot⟩

/-- The path `/a/a/../a` of twenty names. -/
def manyParts : Name := (List.replicate 20 [slash, 97]).flatten

/-- With the empty part before the first slash the path has one part more than `nfs_ParseConfLine`
has places for. The loop meets its error with `continue` and does not leave the export. -/
theorem not_pseudoLaw_of_manyParts : ¬ PseudoLaw [{ options := 0x100, pseudopath := manyParts }] := by
  rintro ⟨n, fs, hrun, -⟩
  have hparts : ¬ WellFormed manyParts := fun hwf => absurd hwf.parts (by decide)
  have hstuck : exportLoop n 0 [{ options := 0x100, pseudopath := manyParts }] initialPseudofs = none :=
    exportLoop_stuck rfl hparts n 0 initialPseudofs
  rw [show exportLoop n 0 _ initialPseudofs = some fs from hrun n (Nat.le_refl n)] at hstuck
  cases hstuck

end Ganesha.Pseudo
