import Ganesha.Library.LinkedList
import Ganesha.Library.PathTree
import Ganesha.Pseudo.Paths

/-!
# Building the pseudo filesystem
-/

namespace Ganesha.Pseudo
open Library.PathTree
open Library.LinkedList (Chain)

variable {fs fs' : Pseudofs} {nodes : List (List Name)} {J : List Name → Option ℕ} {p q l : List Name}
  {a : Name} {i j cur : ℕ}

/-- The pointer to the next son. -/
def Pseudofs.next (fs : Pseudofs) (j : ℕ) : Option ℕ := (fs.mem j).next

/-- The entry of the node with the number `i` and the path `q`. -/
structure NodeOk (fs : Pseudofs) (nodes : List (List Name)) (i : ℕ) (q : List Name) : Prop where
  id : (fs.mem i).pseudoId = i
  name : ∀ p a, q = p ++ [a] → (fs.mem i).name = a
  parent : ∀ p a, q = p ++ [a] → nodes[(fs.mem i).parent]? = some p
  chain : Chain fs.next (fs.mem i).sons (sons nodes q)
  last : ∀ f, (sons nodes q).head? = some f → (fs.mem f).last = (sons nodes q).getLast?

/-- The entries are the nodes of the tree; `J` is the export that belongs to a path. -/
structure Built (fs : Pseudofs) (nodes : List (List Name)) (J : List Name → Option ℕ) : Prop where
  tree : Tree nodes
  allocated : fs.allocated + 1 = nodes.length
  lastId : fs.lastPseudoId + 1 = nodes.length
  bound : nodes.length ≤ maxPseudoEntry
  node : ∀ i q, nodes[i]? = some q → NodeOk fs nodes i q
  rootParent : (fs.mem 0).parent = 0
  table : ∀ i q, q ≠ [] → nodes[i]? = some q → fs.reverseTab i = some i
  junction : ∀ i q, nodes[i]? = some q → (fs.mem i).junctionExport = J q
  fresh : ∀ q, q ∉ nodes → J q = none

lemma lt_of_getElem? (h : nodes[i]? = some q) : i < nodes.length :=
  (List.getElem?_eq_some_iff.mp h).1

lemma eq_of_mem_sons (hq : j ∈ sons nodes q) (hp : j ∈ sons nodes p) : q = p := by
  obtain ⟨a, ha⟩ := mem_sons.mp hq
  obtain ⟨b, hb⟩ := mem_sons.mp hp
  rw [ha, Option.some.injEq] at hb
  exact (List.append_inj' hb rfl).1

/-! ## A new entry -/

/-- What changes when the entry `new` is attached to a node with the sons `l`. -/
structure Attached (fs fs' : Pseudofs) (cur new : ℕ) (l : List ℕ) : Prop where
  kept : ∀ j, (fs'.mem j).pseudoId = (fs.mem j).pseudoId ∧ (fs'.mem j).name = (fs.mem j).name ∧
    (fs'.mem j).parent = (fs.mem j).parent ∧
    (fs'.mem j).junctionExport = (fs.mem j).junctionExport
  first : l = [] → ∀ j, (fs'.mem j).sons = if j = cur then some new else (fs.mem j).sons
  sons : l ≠ [] → ∀ j, (fs'.mem j).sons = (fs.mem j).sons
  next : ∀ j, (fs'.mem j).next = if l.getLast? = some j then some new else (fs.mem j).next
  last : ∀ j, (fs'.mem j).last = if l.head? = some j then some new else (fs.mem j).last
  allocated : fs'.allocated = fs.allocated
  lastId : fs'.lastPseudoId = fs.lastPseudoId
  table : fs'.reverseTab = fs.reverseTab

lemma mem_modify (f : PseudofsEntry → PseudofsEntry) :
    (fs.modify i f).mem j = if j = i then f (fs.mem i) else fs.mem j :=
  Function.update_apply ..

/-- The entry is put at the end of the chain of sons. -/
lemma attachEntry_spec {l : List ℕ} {new : ℕ} (hhead : (fs.mem cur).sons = l.head?)
    (hlast : ∀ f, l.head? = some f → (fs.mem f).last = l.getLast?) :
    ∃ fs', attachEntry fs cur new = some fs' ∧ Attached fs fs' cur new l := by
  rw [attachEntry, hhead]
  cases l with
  | nil =>
    refine ⟨_, rfl, fun j => ?_, fun _ j => ?_, fun hne => absurd rfl hne, fun j => ?_, fun j => ?_,
      rfl, rfl, rfl⟩
    · rw [mem_modify]
      split_ifs with heq
      · rw [heq]
        exact ⟨rfl, rfl, rfl, rfl⟩
      · exact ⟨rfl, rfl, rfl, rfl⟩
    · rw [mem_modify]
      split_ifs <;> rfl
    · rw [mem_modify, List.getLast?_nil, if_neg (Option.some_ne_none j).symm]
      split_ifs with heq
      · rw [heq]
      · rfl
    · rw [mem_modify, List.head?_nil, if_neg (Option.some_ne_none j).symm]
      split_ifs with heq
      · rw [heq]
      · rfl
  | cons f t =>
    obtain ⟨b, hb⟩ : ∃ b, (f :: t).getLast? = some b :=
      Option.isSome_iff_exists.mp (by rw [List.getLast?_isSome]; exact List.cons_ne_nil f t)
    rw [List.head?_cons]
    dsimp only
    rw [hlast f rfl, hb, Option.map_some]
    refine ⟨_, rfl, fun j => ?_, fun hnil => absurd hnil (List.cons_ne_nil f t), fun _ j => ?_,
      fun j => ?_, fun j => ?_, rfl, rfl, rfl⟩
    all_goals rw [mem_modify, mem_modify, mem_modify]
    · split_ifs with h₁ h₂ h₃ <;> subst_vars <;> exact ⟨rfl, rfl, rfl, rfl⟩
    · split_ifs with h₁ h₂ h₃ <;> subst_vars <;> rfl
    · simp only [hb, Option.some.injEq]
      split_ifs with h₁ h₂ h₃ h₄ <;> subst_vars <;> first | rfl | contradiction
    · simp only [List.head?_cons, Option.some.injEq]
      split_ifs with h₁ h₂ h₃ h₄ <;> subst_vars <;> first | rfl | contradiction

lemma mem_allocEntry (hj : j ≠ fs.allocated + 1) : (allocEntry fs cur a).mem j = fs.mem j :=
  Function.update_of_ne hj ..

lemma mem_allocEntry_self (cur : ℕ) (a : Name) {n : ℕ} (hn : fs.allocated + 1 = n) :
    (allocEntry fs cur a).mem n =
      ⟨a, ((fs.mem cur).fullname ++ slash :: a).take (maxpathlen - 1), fs.lastPseudoId + 1, none, none,
        cur, none, some n⟩ := by
  rw [allocEntry, ← hn]
  exact Function.update_self ..

lemma lt_of_mem_sons (h : j ∈ sons nodes p) : j < nodes.length := by
  obtain ⟨a, ha⟩ := mem_sons.mp h
  exact lt_of_getElem? ha

/-- The other nodes after an entry was attached. -/
lemma NodeOk.attach {new : ℕ} {b : Name} (h : NodeOk fs nodes i q) (hi : i ≠ cur)
    (hnew : ∀ j ∈ sons nodes q, j ≠ new) (hne : ¬ isSon q (p ++ [b]) = true)
    (hparent : ∀ q r, nodes[(fs.mem i).parent]? = some q → (nodes ++ [r])[(fs.mem i).parent]? = some q)
    (hmem : ∀ j ≠ new, (allocEntry fs cur b).mem j = fs.mem j) (hinew : i ≠ new)
    (hattached : Attached (allocEntry fs cur b) fs' cur new (sons nodes p)) (hpq : q ≠ p) :
    NodeOk fs' (nodes ++ [p ++ [b]]) i q := by
  obtain ⟨hid, hname, hpar, _⟩ := hattached.kept i
  rw [hmem i hinew] at hid hname hpar
  have hsons : sons (nodes ++ [p ++ [b]]) q = sons nodes q := by
    rw [sons_concat, if_neg hne, List.append_nil]
  have hptr : (fs'.mem i).sons = (fs.mem i).sons := by
    by_cases hnil : sons nodes p = []
    · rw [hattached.first hnil, if_neg hi, hmem i hinew]
    · rw [hattached.sons hnil, hmem i hinew]
  -- the sons of different nodes are different
  have hother : ∀ j ∈ sons nodes q, j ∉ sons nodes p := fun j hq hp => hpq (eq_of_mem_sons hq hp)
  refine ⟨hid.trans h.id, fun r c hr => hname.trans (h.name r c hr), fun r c hr => ?_, ?_, ?_⟩
  · rw [hpar]
    exact hparent r _ (h.parent r c hr)
  · rw [hsons, hptr]
    refine h.chain.congr fun j hj => ?_
    rw [Pseudofs.next, hattached.next, if_neg, hmem j (hnew j hj)]
    · rfl
    · exact fun hlast => hother j hj (List.mem_of_getLast? hlast)
  · rw [hsons]
    intro f hf
    have hfmem := List.mem_of_head? hf
    rw [hattached.last, if_neg, hmem f (hnew f hfmem)]
    · exact h.last f hf
    · exact fun hhead => hother f hfmem (List.mem_of_head? hhead)

/-- The parent has one son more. -/
lemma NodeOk.attachParent {b : Name} (h : NodeOk fs nodes cur p) (hp : nodes[cur]? = some p)
    (hlen : fs.allocated + 1 = nodes.length)
    (hparent : ∀ (i : ℕ) q, nodes[i]? = some q → (nodes ++ [p ++ [b]])[i]? = some q)
    (hattached : Attached (allocEntry fs cur b) fs' cur nodes.length (sons nodes p)) :
    NodeOk fs' (nodes ++ [p ++ [b]]) cur p := by
  have hcur : cur ≠ nodes.length := Nat.ne_of_lt (lt_of_getElem? hp)
  -- only the new node is written
  have hmem : ∀ j ≠ nodes.length, (allocEntry fs cur b).mem j = fs.mem j := by
    rw [← hlen]
    exact fun j => mem_allocEntry
  have hsonlt : ∀ j ∈ sons nodes p, j ≠ nodes.length := fun j hj => Nat.ne_of_lt (lt_of_mem_sons hj)
  have hnew := mem_allocEntry_self cur b hlen
  obtain ⟨hid, hname, hpar, _⟩ := hattached.kept cur
  rw [hmem cur hcur] at hid hname hpar
  have hsons : sons (nodes ++ [p ++ [b]]) p = sons nodes p ++ [nodes.length] := by
    rw [sons_concat, if_pos (isSon_iff.mpr ⟨b, rfl⟩)]
  have hnext : fs'.next nodes.length = none := by
    rw [Pseudofs.next, hattached.next, if_neg, hnew]
    exact fun hlast => hsonlt _ (List.mem_of_getLast? hlast) rfl
  refine ⟨hid.trans h.id, fun r c hr => hname.trans (h.name r c hr), fun r c hr => ?_, ?_, ?_⟩
  · rw [hpar]
    exact hparent _ _ (h.parent r c hr)
  · rw [hsons]
    by_cases hnil : sons nodes p = []
    · rw [hnil, List.nil_append, hattached.first hnil, if_pos rfl]
      exact ⟨rfl, hnext⟩
    · rw [hattached.sons hnil, hmem cur hcur]
      obtain ⟨l, last, hl⟩ : ∃ l last, sons nodes p = l ++ [last] :=
        ⟨_, _, (List.dropLast_append_getLast hnil).symm⟩
      have hnodup : (l ++ [last]).Nodup := hl ▸ nodup_sons
      have hchain := h.chain
      rw [hl] at hchain hsonlt ⊢
      refine hchain.append ?_ hnext fun c hc => ?_
      · rw [Pseudofs.next, hattached.next, if_pos]
        rw [hl, List.getLast?_concat]
      · -- only the last son has got a son behind it
        have hcmem : c ∈ l ++ [last] := List.mem_append_left _ hc
        rw [Pseudofs.next, hattached.next, if_neg, hmem c (hsonlt c hcmem)]
        · rfl
        · rw [hl, List.getLast?_concat, Option.some.injEq]
          rintro rfl
          exact (List.nodup_append.mp hnodup).2.2 _ hc _ (List.mem_singleton_self _) rfl
  · rw [hsons]
    intro f hf
    rw [List.getLast?_concat, hattached.last]
    by_cases hhead : (sons nodes p).head? = some f
    · rw [if_pos hhead]
    · -- the new son is the first one
      have hnil : sons nodes p = [] := by
        cases hl : sons nodes p with
        | nil => rfl
        | cons c l =>
          rw [hl, List.cons_append, List.head?_cons] at hf
          rw [hl, List.head?_cons] at hhead
          exact absurd hf hhead
      rw [if_neg hhead]
      rw [hnil, List.nil_append, List.head?_cons, Option.some.injEq] at hf
      rw [← hf, hnew]

/-- The new node has no sons yet. -/
lemma nodeOk_new {b : Name} (htree : Tree nodes) (hnotin : p ++ [b] ∉ nodes)
    (hp : nodes[cur]? = some p) (hlen : fs.allocated + 1 = nodes.length)
    (hid : fs.lastPseudoId + 1 = nodes.length)
    (hattached : Attached (allocEntry fs cur b) fs' cur nodes.length (sons nodes p)) :
    NodeOk fs' (nodes ++ [p ++ [b]]) nodes.length (p ++ [b]) := by
  have hcur : nodes.length ≠ cur := Nat.ne_of_gt (lt_of_getElem? hp)
  have hnew := mem_allocEntry_self cur b hlen
  obtain ⟨hkid, hkname, hkpar, _⟩ := hattached.kept nodes.length
  rw [hnew] at hkid hkname hkpar
  have hsons : sons (nodes ++ [p ++ [b]]) (p ++ [b]) = [] := by
    rw [sons_concat, if_neg]
    · rw [List.append_nil, List.eq_nil_iff_forall_not_mem]
      intro j hj
      obtain ⟨c, hc⟩ := mem_sons.mp hj
      exact hnotin (htree.closed _ c (List.mem_of_getElem? hc))
    · intro hson
      obtain ⟨c, hc⟩ := isSon_iff.mp hson
      exact absurd (congrArg List.length hc) (by simp)
  refine ⟨hkid.trans hid, fun r c hr => ?_, fun r c hr => ?_, ?_, fun f hf => ?_⟩
  · rw [hkname]
    exact List.singleton_inj.mp (List.append_inj' hr rfl).2
  · rw [hkpar, List.getElem?_append_left (lt_of_getElem? hp), hp, (List.append_inj' hr rfl).1]
  · rw [hsons]
    by_cases hnil : sons nodes p = []
    · rw [hattached.first hnil, if_neg hcur, hnew]
      exact rfl
    · rw [hattached.sons hnil, hnew]
      exact rfl
  · rw [hsons] at hf
    cases hf

/-- A new node is made. -/
theorem Built.add {b : Name} (h : Built fs nodes J) (hp : nodes[cur]? = some p)
    (hnotin : p ++ [b] ∉ nodes) :
    if nodes.length < maxPseudoEntry then
      ∃ fs', addEntry fs cur b = some (nodes.length, fs') ∧ Built fs' (nodes ++ [p ++ [b]]) J ∧
        fs'.reverseTab 0 = fs.reverseTab 0
    else addEntry fs cur b = none := by
  rw [addEntry, h.lastId]
  by_cases hlt : nodes.length < maxPseudoEntry
  · -- there is room for one node more
    rw [if_pos hlt, if_neg (Nat.not_le.mpr hlt), h.allocated]
    have hcur := lt_of_getElem? hp
    have hmem : ∀ j ≠ nodes.length, (allocEntry fs cur b).mem j = fs.mem j := by
      rw [← h.allocated]
      exact fun j => mem_allocEntry
    have hpok := h.node cur p hp
    obtain ⟨fs', hattach, hattached⟩ : ∃ fs',
        attachEntry (allocEntry fs cur b) cur nodes.length = some fs' ∧
          Attached (allocEntry fs cur b) fs' cur nodes.length (sons nodes p) := by
      apply attachEntry_spec
      · rw [hmem cur (Nat.ne_of_lt hcur)]
        exact hpok.chain.head_eq
      · intro f hf
        rw [hmem f (Nat.ne_of_lt (lt_of_mem_sons (List.mem_of_head? hf)))]
        exact hpok.last f hf
    rw [hattach]
    have hkeep : ∀ (i : ℕ) q r, nodes[i]? = some q → (nodes ++ [r])[i]? = some q := by
      intro i q r hi
      rw [List.getElem?_append_left (lt_of_getElem? hi), hi]
    have hsplit : ∀ (i : ℕ) q, (nodes ++ [p ++ [b]])[i]? = some q →
        nodes[i]? = some q ∨ i = nodes.length ∧ q = p ++ [b] := by
      intro i q hi
      rcases Nat.lt_or_ge i nodes.length with hlt' | hge
      · rw [List.getElem?_append_left hlt'] at hi
        exact Or.inl hi
      · have hi' := lt_of_getElem? hi
        rw [List.length_append, List.length_singleton] at hi'
        obtain rfl : i = nodes.length := by omega
        rw [List.getElem?_concat_length, Option.some.injEq] at hi
        exact Or.inr ⟨rfl, hi.symm⟩
    have htree : Tree (nodes ++ [p ++ [b]]) := by
      have htouch := h.tree.touch (a := b) (List.mem_of_getElem? hp)
      rwa [touch, if_neg hnotin] at htouch
    refine ⟨fs', rfl, ⟨htree, ?_, ?_, ?_, fun i q hi => ?_, ?_, fun i q hne hi => ?_, fun i q hi => ?_,
      fun q hq => ?_⟩, ?_⟩
    · rw [hattached.allocated, List.length_append, List.length_singleton, ← h.allocated]
      rfl
    · rw [hattached.lastId, List.length_append, List.length_singleton, ← h.lastId]
      rfl
    · rw [List.length_append, List.length_singleton]
      exact hlt
    · rcases hsplit i q hi with hi' | ⟨rfl, rfl⟩
      · by_cases hpq : q = p
        · subst hpq
          obtain rfl := h.tree.index_unique hi' hp
          exact hpok.attachParent hp h.allocated (fun i q hi => hkeep i q _ hi) hattached
        · refine (h.node i q hi').attach ?_ ?_ ?_ (fun q r hq => hkeep _ q r hq) hmem
            (Nat.ne_of_lt (lt_of_getElem? hi')) hattached hpq
          · rintro rfl
            rw [hi', Option.some.injEq] at hp
            exact hpq hp
          · exact fun j hj => Nat.ne_of_lt (lt_of_mem_sons hj)
          · intro hson
            obtain ⟨c, hc⟩ := isSon_iff.mp hson
            exact hpq (List.append_inj' hc rfl).1.symm
      · exact nodeOk_new h.tree hnotin hp h.allocated h.lastId hattached
    · have hzero : (0 : ℕ) ≠ nodes.length := Nat.ne_of_lt (Nat.lt_of_le_of_lt (Nat.zero_le _) hcur)
      rw [(hattached.kept 0).2.2.1, hmem 0 hzero]
      exact h.rootParent
    · rw [hattached.table, allocEntry, h.lastId]
      dsimp only
      rcases hsplit i q hi with hi | ⟨rfl, rfl⟩
      · rw [Function.update_of_ne (Nat.ne_of_lt (lt_of_getElem? hi))]
        exact h.table i q hne hi
      · rw [Function.update_self, h.allocated]
    · rw [(hattached.kept i).2.2.2]
      rcases hsplit i q hi with hi | ⟨rfl, rfl⟩
      · rw [hmem i (Nat.ne_of_lt (lt_of_getElem? hi))]
        exact h.junction i q hi
      · rw [h.fresh _ hnotin, mem_allocEntry_self cur b h.allocated]
    · rw [List.mem_append, not_or] at hq
      exact h.fresh q hq.1
    · rw [hattached.table, allocEntry, h.lastId]
      exact Function.update_of_ne (by omega) ..
  · rw [if_neg hlt, if_pos (Nat.not_lt.mp hlt)]

/-! ## One path -/

/-- The loop over the sons finds the first with the name. -/
lemma findSon_spec {l : List ℕ} {h : Option ℕ} (hchain : Chain fs.next h l) {fuel : ℕ}
    (hfuel : l.length < fuel) :
    findSon fs a fuel h = some (l.find? fun j => (fs.mem j).name = a) := by
  induction l generalizing h fuel with
  | nil =>
    obtain ⟨n, rfl⟩ : ∃ n, fuel = n + 1 := ⟨fuel - 1, by omega⟩
    rw [show h = none from hchain]
    rfl
  | cons c l ih =>
    obtain ⟨n, rfl⟩ : ∃ n, fuel = n + 1 := ⟨fuel - 1, by omega⟩
    obtain ⟨rfl, hchain⟩ := hchain
    rw [findSon]
    by_cases hname : (fs.mem c).name = a
    · rw [if_pos hname, List.find?_cons_of_pos (by simpa using hname)]
    · rw [if_neg hname, List.find?_cons_of_neg (by simpa using hname)]
      exact ih hchain (Nat.lt_of_succ_lt_succ hfuel)

/-- The son found is the node of the longer path. -/
lemma Built.find_son (h : Built fs nodes J) (hi : nodes[i]? = some (p ++ [a])) :
    (sons nodes p).find? (fun j => (fs.mem j).name = a) = some i := by
  have hmem : i ∈ sons nodes p := mem_sons.mpr ⟨a, hi⟩
  have hname : (fs.mem i).name = a := (h.node i _ hi).name p a rfl
  obtain ⟨j, hj⟩ : ∃ j, (sons nodes p).find? (fun j => (fs.mem j).name = a) = some j :=
    Option.isSome_iff_exists.mp (List.find?_isSome.mpr ⟨i, hmem, by simpa using hname⟩)
  obtain ⟨c, hc⟩ := mem_sons.mp (List.mem_of_find?_eq_some hj)
  have hjname : (fs.mem j).name = a := by simpa using List.find?_some hj
  have hca : c = a := ((h.node j _ hc).name p c rfl).symm.trans hjname
  rw [hca] at hc
  rw [hj, h.tree.index_unique hc hi]

lemma Built.find_none (h : Built fs nodes J) (hnotin : p ++ [a] ∉ nodes) :
    (sons nodes p).find? (fun j => (fs.mem j).name = a) = none := by
  rw [List.find?_eq_none]
  intro j hj hname
  obtain ⟨c, hc⟩ := mem_sons.mp hj
  have hca : c = a := ((h.node j _ hc).name p c rfl).symm.trans (by simpa using hname)
  exact hnotin (List.mem_of_getElem? (hca ▸ hc))

/-- One component: an old node, a new one, or the table is full. -/
lemma stepInto_spec (h : Built fs nodes J) (hp : nodes[cur]? = some p) (a : Name) :
    if (touch nodes (p ++ [a])).length ≤ maxPseudoEntry then
      ∃ cur' fs', stepInto fs cur a = some (cur', fs') ∧ Built fs' (touch nodes (p ++ [a])) J ∧
        (touch nodes (p ++ [a]))[cur']? = some (p ++ [a]) ∧ fs'.reverseTab 0 = fs.reverseTab 0
    else stepInto fs cur a = none := by
  have hfuel : (sons nodes p).length < fs.allocated + 2 := by
    have hle : (sons nodes p).length ≤ nodes.length := by
      have hlen := (List.range nodes.length).length_filter_le fun j => (nodes[j]?).any (isSon p)
      rwa [List.length_range] at hlen
    have hallocated := h.allocated
    omega
  rw [stepInto, findSon_spec (h.node cur p hp).chain hfuel, Option.bind_some]
  by_cases hmem : p ++ [a] ∈ nodes
  · obtain ⟨i, hi⟩ := List.mem_iff_getElem?.mp hmem
    rw [touch, if_pos hmem, if_pos h.bound, h.find_son hi]
    exact ⟨i, fs, rfl, h, hi, rfl⟩
  · have hadd := h.add hp hmem
    rw [touch, if_neg hmem, List.length_append, List.length_singleton, h.find_none hmem]
    by_cases hlt : nodes.length < maxPseudoEntry
    · rw [if_pos hlt] at hadd
      obtain ⟨fs', hadd, hbuilt, htable⟩ := hadd
      rw [if_pos (Nat.succ_le_of_lt hlt)]
      exact ⟨nodes.length, fs', hadd, hbuilt, List.getElem?_concat_length .., htable⟩
    · rw [if_neg hlt] at hadd
      rw [if_neg fun hle => hlt (Nat.lt_of_succ_le hle)]
      exact hadd

/-- The nodes on the way along a path. -/
theorem addTokens_spec (h : Built fs nodes J) (hp : nodes[cur]? = some p) (l : List Name) :
    if (grow nodes p l).length ≤ maxPseudoEntry then
      ∃ cur' fs', addTokens cur l fs = some (cur', fs') ∧ Built fs' (grow nodes p l) J ∧
        (grow nodes p l)[cur']? = some (p ++ l) ∧ fs'.reverseTab 0 = fs.reverseTab 0
    else addTokens cur l fs = none := by
  induction l generalizing fs nodes cur p with
  | nil =>
    rw [grow, if_pos h.bound, List.append_nil]
    exact ⟨cur, fs, rfl, h, hp, rfl⟩
  | cons a l ih =>
    have hstep := stepInto_spec h hp a
    rw [grow, addTokens]
    by_cases hle : (touch nodes (p ++ [a])).length ≤ maxPseudoEntry
    · rw [if_pos hle] at hstep
      obtain ⟨cur₁, fs₁, hinto, hbuilt, hcur₁, htable⟩ := hstep
      have hrest := ih hbuilt hcur₁
      rw [hinto, Option.bind_some, List.append_cons p a l, ← htable]
      exact hrest
    · rw [if_neg hle] at hstep
      rw [hstep, if_neg fun hall => hle (Nat.le_trans length_grow_le hall)]
      rfl

end Ganesha.Pseudo
