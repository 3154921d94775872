import Ganesha.HashTable.Contents

/-!
# The hash table is a finite map

`specStep` says what a map from keys to stored keys and values answers to each call; every run of
the table gives the answers of the map (`run_refines_map`).
-/

namespace Ganesha.Hash
open Ganesha.Rbt Library.RedBlack

variable {κ ν ι δ : Type}

/-! ## The map -/

/-- Bind a key; the key that was stored is replaced. -/
def Map.set (p : HashParameter κ) (m : Map κ ν) (k : κ) (v : ν) : Map κ ν := fun k' =>
  if p.compareKey k' k = 0 then some (k, v) else m k'

/-- Remove a key. -/
def Map.del (p : HashParameter κ) (m : Map κ ν) (k : κ) : Map κ ν := fun k' =>
  if p.compareKey k' k = 0 then none else m k'

/-- What a map answers to a call. -/
def specStep (p : HashParameter κ) (m : Map κ ν) : Op κ ν → Answer κ ν × Map κ ν
  | .testAndSet (some k) (some v) how => match m k, how with
    | some _, .testOnly => ({ rc := .success }, m)
    | none, .testOnly => ({ rc := .errorNoSuchKey }, m)
    | some _, .setNoOverwrite => ({ rc := .errorKeyAlreadyExists }, m)
    | none, .setNoOverwrite => ({ rc := .success }, m.set p k v)
    | _, .setOverwrite => ({ rc := .success }, m.set p k v)
  | .get (some k) true => match m k with
    | some (_, v) => ({ rc := .success, val := some v }, m)
    | none => ({ rc := .errorNoSuchKey }, m)
  | .del (some k) usedbuffkey usedbuffdata => match m k with
    | some (k', v) =>
      ({ rc := .success
         key := if usedbuffkey then some k' else none
         val := if usedbuffdata then some v else none }, m.del p k)
    | none => ({ rc := .errorNoSuchKey }, m)
  | _ => ({ rc := .errorInvalidArgument }, m)

/-- The answers of a map to a sequence of calls. -/
def specRun (p : HashParameter κ) (m : Map κ ν) : List (Op κ ν) → List (Answer κ ν) × Map κ ν
  | [] => ([], m)
  | op :: ops =>
    let (answer, m) := specStep p m op
    let (answers, m) := specRun p m ops
    (answer :: answers, m)

/-! ## One index changes -/

lemma Holds.count {ht : HashTable κ ν ι δ} {trees : ℕ → CTree ι} {m : Map κ ν}
    (hold : Holds ht trees m) (h : ℕ) (f : HashStatDynamic → HashStatDynamic) :
    Holds (ht.count h f) trees m :=
  ⟨fun h hh => ⟨(hold.bucket h hh).wf, (hold.bucket h hh).value, (hold.bucket h hh).distinct⟩,
    hold.nodes, hold.pdatas, hold.map⟩

/-- One bucket changed: the map follows at its keys. -/
lemma Holds.update {ht ht' : HashTable κ ν ι δ} {trees : ℕ → CTree ι} {m m' : Map κ ν} {h : ℕ}
    {tree' : CTree ι} (hold : Holds ht trees m) (hparam : ht'.parameter = ht.parameter)
    (hrbt : ∀ h' ≠ h, ht'.arrayRbt h' = ht.arrayRbt h')
    (hsame : ∀ h' < ht.parameter.indexSize.toNat, h' ≠ h → ∀ i ∈ (trees h').toList,
      ht'.node i = ht.node i ∧ ht'.data i = ht.data i)
    (hbucket : BucketOk ht' h tree')
    (hnodes : Owned ht.parameter.indexSize.toNat
      (fun h' => (if h' = h then tree' else trees h').toList ++ ht'.nodePrealloc h') ht'.nodeArrays)
    (hpdatas : Owned ht.parameter.indexSize.toNat
      (fun h' => ((if h' = h then tree' else trees h').toList.map fun i => (ht'.node i).rbtOpaq) ++
        ht'.pdataPrealloc h') ht'.pdataArrays)
    (hmap : ∀ k, ht.parameter.hashval k = h →
      m' k = (lookup ht.parameter k (ht'.entries tree')).map fun d => (d.buffkey, d.buffval))
    (hmap' : ∀ k, ht.parameter.hashval k ≠ h → m' k = m k)
    (hlt : ∀ k, ht.parameter.hashval k < ht.parameter.indexSize.toNat) :
    Holds ht' (fun h' => if h' = h then tree' else trees h') m' := by
  have hentries : ∀ h' < ht.parameter.indexSize.toNat, h' ≠ h →
      ht'.entries (trees h') = ht.entries (trees h') := fun h' hh' hne =>
    List.map_congr_left fun i hi => (hsame h' hh' hne i hi).2
  refine ⟨?_, by rw [hparam]; exact hnodes, by rw [hparam]; exact hpdatas, ?_⟩
  · intro h' hh'
    rw [hparam] at hh'
    -- the bucket that changed, and the others
    rcases eq_or_ne h' h with rfl | hne
    · rw [if_pos rfl]
      exact hbucket
    · rw [if_neg hne]
      have hb := hold.bucket h' hh'
      refine ⟨hb.wf.congr (hrbt h' hne) fun i hi => (hsame h' hh' hne i hi).1, fun i hi => ?_, ?_⟩
      · rw [(hsame h' hh' hne i hi).1, (hsame h' hh' hne i hi).2, hparam]
        exact hb.value i hi
      · rw [hentries h' hh' hne, hparam]
        exact hb.distinct
  · intro k
    rw [hparam]
    rcases eq_or_ne (ht.parameter.hashval k) h with hk | hk
    · rw [if_pos hk]
      exact hmap k hk
    · rw [if_neg hk, hmap' k hk, hentries _ (hlt k) hk]
      exact hold.map k

/-- No node stands in two buckets. -/
lemma Holds.opaq_ne {ht : HashTable κ ν ι δ} {trees : ℕ → CTree ι} {m : Map κ ν} {h h' : ℕ} {i j : ι}
    (hold : Holds ht trees m) (hh : h < ht.parameter.indexSize.toNat)
    (hh' : h' < ht.parameter.indexSize.toNat) (hi : i ∈ (trees h).toList) (hj : j ∈ (trees h').toList)
    (hne : i ≠ j) : (ht.node i).rbtOpaq ≠ (ht.node j).rbtOpaq := by
  intro heq
  have hi' : (ht.node i).rbtOpaq ∈ (trees h).toList.map fun i => (ht.node i).rbtOpaq :=
    List.mem_map_of_mem hi
  have hj' : (ht.node j).rbtOpaq ∈ (trees h').toList.map fun i => (ht.node i).rbtOpaq :=
    List.mem_map_of_mem hj
  rcases eq_or_ne h h' with rfl | hhne
  · have hnd := (List.nodup_append.mp (hold.pdatas.nodup h hh)).1
    exact hne (List.inj_on_of_nodup_map hnd hi hj heq)
  · refine hold.pdatas.disjoint h hh h' hh' hhne (List.mem_append_left _ hi') ?_
    rw [heq]
    exact List.mem_append_left _ hj'

lemma Holds.node_ne {ht : HashTable κ ν ι δ} {trees : ℕ → CTree ι} {m : Map κ ν} {h h' : ℕ} {i j : ι}
    (hold : Holds ht trees m) (hh : h < ht.parameter.indexSize.toNat)
    (hh' : h' < ht.parameter.indexSize.toNat) (hne : h' ≠ h)
    (hi : i ∈ (trees h).toList) (hj : j ∈ (trees h').toList) : j ≠ i := by
  rintro rfl
  exact hold.nodes.disjoint h' hh' h hh hne (List.mem_append_left _ hj) (List.mem_append_left _ hi)

/-- The entries of index `h` change from `l` to `l'`, those of the other indices stay. -/
structure Changed (ht ht' : HashTable κ ν ι δ) (trees trees' : ℕ → CTree ι) (h : ℕ)
    (l l' : List (HashData κ ν)) : Prop where
  before : ht.entries (trees h) = l
  after : ht'.entries (trees' h) = l'
  other : ∀ h' < ht.parameter.indexSize.toNat, h' ≠ h → ht'.entries (trees' h') = ht.entries (trees h')

/-! ## The three changes -/

section Changes
variable {ht : HashTable κ ν ι δ} {trees : ℕ → CTree ι} {m : Map κ ν}

lemma lookup_set {p : HashParameter κ} (hp : p.Lawful) {l₁ l₂ : List (HashData κ ν)} {k : κ} {v : ν}
    (hd : Distinct p (l₁ ++ ⟨v, k⟩ :: l₂)) (k' : κ) :
    (lookup p k' (l₁ ++ ⟨v, k⟩ :: l₂)).map (fun d => (d.buffkey, d.buffval)) =
      if p.compareKey k' k = 0 then some (k, v)
      else (lookup p k' (l₁ ++ l₂)).map fun d => (d.buffkey, d.buffval) := by
  rw [lookup_middle hp hd]
  split_ifs <;> rfl

/-- Overwriting a key changes its data alone. -/
lemma Holds.overwrite_changed [DecidableEq δ] (hp : ht.parameter.Lawful) (hold : Holds ht trees m) {k : κ}
    {i : ι} (hi : i ∈ (trees (ht.parameter.hashval k)).toList)
    (hk : ht.parameter.compareKey k (ht.data i).buffkey = 0) (v : ν) :
    ∃ trees' l₁ d l₂, Holds (ht.store (ht.parameter.hashval k) (ht.node i).rbtOpaq k v) trees'
        (m.set ht.parameter k v) ∧
      Changed ht (ht.store (ht.parameter.hashval k) (ht.node i).rbtOpaq k v) trees trees'
        (ht.parameter.hashval k) (l₁ ++ d :: l₂) (l₁ ++ ⟨v, k⟩ :: l₂) := by
  set h := ht.parameter.hashval k with hh
  have hlt : h < ht.parameter.indexSize.toNat := hp.hashval_lt k
  set ht' := ht.store h (ht.node i).rbtOpaq k v with hht'
  have hself : ht'.data i = ⟨v, k⟩ := Function.update_self ..
  -- the data of the other nodes stay
  have hdata : ∀ h' < ht.parameter.indexSize.toNat, ∀ j ∈ (trees h').toList, j ≠ i →
      ht'.data j = ht.data j := fun h' hh' j hj hne =>
    Function.update_of_ne (hold.opaq_ne hh' hlt hj hi hne) _ _
  obtain ⟨l₁, l₂, hlist⟩ := List.append_of_mem hi
  have hb := hold.bucket h hlt
  have hnd := hb.wf.represents.nodup
  rw [hlist, List.nodup_middle, List.nodup_cons, List.mem_append, not_or] at hnd
  have hold_entries : ht.entries (trees h) = l₁.map ht.data ++ ht.data i :: l₂.map ht.data := by
    rw [HashTable.entries, hlist, List.map_append, List.map_cons]
  have hentries : ht'.entries (trees h) = l₁.map ht.data ++ ⟨v, k⟩ :: l₂.map ht.data := by
    have hl₁ : l₁.map ht'.data = l₁.map ht.data := List.map_congr_left fun j hj =>
      hdata h hlt j (by rw [hlist]; simp [hj]) fun heq => hnd.1.1 (heq ▸ hj)
    have hl₂ : l₂.map ht'.data = l₂.map ht.data := List.map_congr_left fun j hj =>
      hdata h hlt j (by rw [hlist]; simp [hj]) fun heq => hnd.1.2 (heq ▸ hj)
    rw [HashTable.entries, hlist, List.map_append, List.map_cons, hself, hl₁, hl₂]
  have hdold := hb.distinct
  rw [hold_entries] at hdold
  have hdistinct : Distinct ht.parameter (l₁.map ht.data ++ ⟨v, k⟩ :: l₂.map ht.data) := by
    rw [distinct_middle hp] at hdold ⊢
    exact ⟨fun d hd heq => hdold.1 d hd (hp.trans (hp.symm hk) heq), hdold.2⟩
  refine ⟨fun h' => if h' = h then trees h else trees h', l₁.map ht.data, ht.data i, l₂.map ht.data,
    hold.update rfl (fun _ _ => rfl)
      (fun h' hh' hne j hj => ⟨rfl, hdata h' hh' j hj (hold.node_ne hlt hh' hne hi hj)⟩) ?_ ?_ ?_ ?_ ?_
      hp.hashval_lt, hold_entries, ?_, fun h' hh' hne => ?_⟩
  · refine ⟨hb.wf.congr rfl fun _ _ => rfl, fun j hj => ?_, ?_⟩
    · rcases eq_or_ne j i with rfl | hne
      · rw [hself]
        exact (hb.value j hj).trans (hp.rbtValue_congr hk).symm
      · rw [hdata h hlt j hj hne]
        exact hb.value j hj
    · rw [hentries]
      exact hdistinct
  · exact hold.nodes.perm fun h' _ => by split_ifs with hne <;> [rw [hne]; rfl]; rfl
  · exact hold.pdatas.perm fun h' _ => by split_ifs with hne <;> [rw [hne]; rfl]; rfl
  · intro k' hk'
    rw [hentries, lookup_set hp hdistinct]
    simp only [Map.set]
    split_ifs with heq
    · rfl
    · have hne : ¬ ht.parameter.compareKey k' (ht.data i).buffkey = 0 := fun hk'' =>
        heq (hp.trans hk'' (hp.symm hk))
      rw [hold.map, hk', hold_entries, lookup_middle hp hdold, if_neg hne]
  · intro k' hk'
    simp only [Map.set]
    rw [if_neg fun heq => hk' (hp.hashval_congr heq)]
  · rw [if_pos rfl]
    exact hentries
  · rw [if_neg hne]
    exact List.map_congr_left fun j hj => hdata h' hh' j hj (hold.node_ne hlt hh' hne hi hj)

lemma Holds.overwrite [DecidableEq δ] (hp : ht.parameter.Lawful) (hold : Holds ht trees m) {k : κ} {i : ι}
    (hi : i ∈ (trees (ht.parameter.hashval k)).toList)
    (hk : ht.parameter.compareKey k (ht.data i).buffkey = 0) (v : ν) :
    ∃ trees', Holds (ht.store (ht.parameter.hashval k) (ht.node i).rbtOpaq k v) trees'
      (m.set ht.parameter k v) := by
  obtain ⟨trees', -, -, -, hold', -⟩ := hold.overwrite_changed hp hi hk v
  exact ⟨trees', hold'⟩

variable [DecidableEq ι]

/-- Adding a node for a key that no node of its tree has, once a node and a place for the data are
there. -/
lemma Holds.insert_changed [DecidableEq δ] (hp : ht.parameter.Lawful) (hold : Holds ht trees m) {k : κ}
    (hnone : ∀ i ∈ (trees (ht.parameter.hashval k)).toList,
      ht.parameter.compareKey k (ht.data i).buffkey ≠ 0) (v : ν)
    {qn : ι} {pool : List ι} {arrays : ℕ → List ι} {d : δ} {dpool : List δ} {darrays : ℕ → List δ}
    (hget : getPrealloc ht.parameter.nbNodePrealloc (ht.nodePrealloc (ht.parameter.hashval k))
      ht.nodeArrays = (some qn, pool, arrays))
    (hdget : getPrealloc ht.parameter.nbNodePrealloc (ht.pdataPrealloc (ht.parameter.hashval k))
      ht.pdataArrays = (some d, dpool, darrays)) :
    ∃ ht' trees' l₁ l₂,
      hashTableInsert ht k v (ht.parameter.hashval k) (ht.parameter.rbtValue k) = some (.success, ht') ∧
      Holds ht' trees' (m.set ht.parameter k v) ∧ ht'.parameter = ht.parameter ∧
      ht'.nodeArrays = arrays ∧ ht'.pdataArrays = darrays ∧
      ht'.statDynamic = Function.update ht.statDynamic (ht.parameter.hashval k)
        { ht.statDynamic (ht.parameter.hashval k) with
          nbEntries := (ht.statDynamic (ht.parameter.hashval k)).nbEntries + 1
          ok.nbSet := (ht.statDynamic (ht.parameter.hashval k)).ok.nbSet + 1 } ∧
      Changed ht ht' trees trees' (ht.parameter.hashval k) (l₁ ++ l₂) (l₁ ++ ⟨v, k⟩ :: l₂) := by
  set h := ht.parameter.hashval k with hh
  have hlt : h < ht.parameter.indexSize.toNat := hp.hashval_lt k
  have hb := hold.bucket h hlt
  have hnodes := hold.nodes.getPrealloc_some hlt hget
  have hpdatas := hold.pdatas.getPrealloc_some hlt hdget
  -- the new node is in no tree yet
  have hqn : ∀ h' < ht.parameter.indexSize.toNat, ∀ j ∈ (trees h').toList, j ≠ qn := by
    rintro h' hh' j hj rfl
    exact hnodes.notMem_rest hlt h' hh' hj
  have hd : ∀ h' < ht.parameter.indexSize.toNat, ∀ j ∈ (trees h').toList,
      (ht.node j).rbtOpaq ≠ d := by
    rintro h' hh' j hj rfl
    exact hpdatas.notMem_rest hlt h' hh' (List.mem_map_of_mem hj)
  obtain ⟨par, hfind, t', tree', l₁, l₂, hins, hwf, hl, hl', hfr⟩ :=
    rbtFind_rbtInsert_spec hb.wf (fun hmem => hqn h hlt qn hmem rfl)
      (fun n => { n with rbtOpaq := d, rbtValue := ht.parameter.rbtValue k })
      (ht.parameter.rbtValue k) rfl
  set ht₁ : HashTable κ ν ι δ := { ht with
    nodePrealloc := Function.update ht.nodePrealloc h pool
    nodeArrays := arrays
    pdataPrealloc := Function.update ht.pdataPrealloc h dpool
    pdataArrays := darrays } with hht₁
  set ht' := (ht₁.setRbt h t').store h d k v with hht'
  have hrun : hashTableInsert ht k v h (ht.parameter.rbtValue k) = some (.success, ht') := by
    simp only [hashTableInsert, hfind, Option.bind_some, hget, hdget]
    exact congrArg (Option.map _) hins
  have hopaq : ∀ j, (ht'.node j).rbtOpaq = if j = qn then d else (ht.node j).rbtOpaq := by
    intro j
    have hj : (ht'.node j).rbtOpaq = _ := hfr.opaq j
    rw [hj]
    split_ifs with heq
    · rw [heq, modify_mem_self]
    · rw [modify_mem_of_ne _ heq]
      rfl
  have hself : ht'.data qn = ⟨v, k⟩ := by
    have hdq : ht'.data qn = ht'.pdata d := by rw [HashTable.data, hopaq, if_pos rfl]
    rw [hdq]
    exact Function.update_self ..
  have hdata : ∀ h' < ht.parameter.indexSize.toNat, ∀ j ∈ (trees h').toList,
      ht'.data j = ht.data j := by
    intro h' hh' j hj
    rw [HashTable.data, hopaq, if_neg (hqn h' hh' j hj)]
    exact Function.update_of_ne (hd h' hh' j hj) _ _
  have hmem : ∀ j ∈ l₁ ++ l₂, j ∈ (trees h).toList := fun j hj => hl ▸ hj
  have hmaps : ∀ l : List ι, (∀ j ∈ l, j ∈ (trees h).toList) → l.map ht'.data = l.map ht.data :=
    fun l hsub => List.map_congr_left fun j hj => hdata h hlt j (hsub j hj)
  have hentries : ht'.entries tree' = l₁.map ht.data ++ ⟨v, k⟩ :: l₂.map ht.data := by
    rw [HashTable.entries, hl', List.map_append, List.map_cons, hself,
      hmaps l₁ fun j hj => hmem j (List.mem_append_left _ hj),
      hmaps l₂ fun j hj => hmem j (List.mem_append_right _ hj)]
  have hold_entries : ht.entries (trees h) = l₁.map ht.data ++ l₂.map ht.data := by
    rw [HashTable.entries, hl, List.map_append]
  have hdistinct : Distinct ht.parameter (l₁.map ht.data ++ ⟨v, k⟩ :: l₂.map ht.data) := by
    refine (distinct_middle hp).mpr ⟨?_, hold_entries ▸ hb.distinct⟩
    rw [← List.map_append]
    intro e he
    obtain ⟨j, hj, rfl⟩ := List.mem_map.mp he
    exact hnone j (hmem j hj)
  refine ⟨ht', fun h' => if h' = h then tree' else trees h', l₁.map ht.data, l₂.map ht.data, hrun,
    hold.update rfl ?_ ?_ ?_ ?_ ?_ ?_ ?_ hp.hashval_lt, rfl, rfl, rfl, rfl, hold_entries, ?_,
    fun h' hh' hne => ?_⟩
  · exact fun h' hne => Function.update_of_ne hne _ _
  · intro h' hh' hne j hj
    have hframe : j ∉ qn :: (trees h).toList := by
      rw [List.mem_cons, not_or]
      exact ⟨hqn h' hh' j hj, fun hmem => hold.node_ne hlt hh' hne hmem hj rfl⟩
    refine ⟨(hfr.frame j hframe).trans (modify_mem_of_ne _ (hqn h' hh' j hj)), hdata h' hh' j hj⟩
  · refine ⟨?_, fun j hj => ?_, ?_⟩
    · refine hwf.congr ?_ fun _ _ => rfl
      exact Function.update_self ..
    · have hvalue : (ht'.node j).rbtValue = _ := hfr.value j
      rw [hvalue]
      rcases eq_or_ne j qn with rfl | hne
      · rw [hself, modify_mem_self]
        rfl
      · have hj' : j ∈ (trees h).toList := by
          rw [hl', List.mem_append, List.mem_cons] at hj
          rw [hl, List.mem_append]
          tauto
        rw [hdata h hlt j hj', modify_mem_of_ne _ hne]
        exact hb.value j hj'
    · rw [hentries]
      exact hdistinct
  · refine hnodes.perm fun h' _ => ?_
    rcases eq_or_ne h' h with heq | hne
    · have hpool : ht'.nodePrealloc h = pool := Function.update_self ..
      simp only [heq, if_true, hpool]
      rw [hl', hl]
      exact List.perm_middle.append_right pool
    · have hpool : ht'.nodePrealloc h' = ht.nodePrealloc h' := Function.update_of_ne hne _ _
      simp only [if_neg hne, hpool]
      rfl
  · refine hpdatas.perm fun h' hh' => ?_
    have hold_opaq : ∀ l : List ι, (∀ j ∈ l, j ∈ (trees h').toList) →
        (l.map fun i => (ht'.node i).rbtOpaq) = l.map fun i => (ht.node i).rbtOpaq :=
      fun l hsub => List.map_congr_left fun j hj => by
        rw [hopaq, if_neg (hqn h' hh' j (hsub j hj))]
    rcases eq_or_ne h' h with heq | hne
    · have hpool : ht'.pdataPrealloc h = dpool := Function.update_self ..
      subst heq
      simp only [if_true, hpool]
      rw [hl', hl, List.map_append, List.map_cons, List.map_append,
        hold_opaq l₁ fun j hj => hmem j (List.mem_append_left _ hj),
        hold_opaq l₂ fun j hj => hmem j (List.mem_append_right _ hj), hopaq, if_pos rfl]
      exact List.perm_middle.append_right dpool
    · have hpool : ht'.pdataPrealloc h' = ht.pdataPrealloc h' := Function.update_of_ne hne _ _
      simp only [if_neg hne, hpool]
      rw [hold_opaq (trees h').toList fun j hj => hj]
  · intro k' hk'
    rw [hentries, lookup_set hp hdistinct, ← hold_entries]
    simp only [Map.set]
    rw [hold.map k', hk']
  · intro k' hk'
    simp only [Map.set]
    rw [if_neg fun heq => hk' (hp.hashval_congr heq)]
  · rw [if_pos rfl]
    exact hentries
  · rw [if_neg hne]
    exact List.map_congr_left fun j hj => hdata h' hh' j hj

/-- A new key goes into its bucket. -/
lemma Holds.insert [DecidableEq δ] (hp : ht.parameter.Lawful) (hold : Holds ht trees m) (hs : Supplied ht) {k : κ}
    (hnone : ∀ i ∈ (trees (ht.parameter.hashval k)).toList,
      ht.parameter.compareKey k (ht.data i).buffkey ≠ 0) (v : ν) :
    ∃ ht' trees', hashTableInsert ht k v (ht.parameter.hashval k) (ht.parameter.rbtValue k) =
        some (.success, ht') ∧
      Holds ht' trees' (m.set ht.parameter k v) ∧ Supplied ht' ∧ ht'.parameter = ht.parameter := by
  have hlt := hp.hashval_lt k
  obtain ⟨qn, pool, arrays, hget, harrays, -⟩ := hold.nodes.getPrealloc hlt hs.prealloc hs.nodes
  obtain ⟨d, dpool, darrays, hdget, hdarrays, -⟩ := hold.pdatas.getPrealloc hlt hs.prealloc hs.pdatas
  obtain ⟨ht', trees', -, -, hrun, hold', hparam, hnodes, hpdatas, -, -⟩ :=
    hold.insert_changed hp hnone v hget hdget
  exact ⟨ht', trees', hrun, hold', ⟨hparam ▸ hs.prealloc, hnodes ▸ harrays, hpdatas ▸ hdarrays⟩, hparam⟩

/-- Removing a key takes its node out of the bucket. -/
lemma Holds.unlink_changed (hp : ht.parameter.Lawful) (hold : Holds ht trees m) {k : κ} {i : ι}
    (hi : i ∈ (trees (ht.parameter.hashval k)).toList)
    (hk : ht.parameter.compareKey k (ht.data i).buffkey = 0) :
    ∃ ht' trees' l₁ d l₂, hashTableUnlink ht (ht.parameter.hashval k) i = some ht' ∧
      Holds ht' trees' (m.del ht.parameter k) ∧ (Supplied ht → Supplied ht') ∧
      ht'.parameter = ht.parameter ∧
      ht'.statDynamic = Function.update ht.statDynamic (ht.parameter.hashval k)
        { ht.statDynamic (ht.parameter.hashval k) with
          nbEntries := (ht.statDynamic (ht.parameter.hashval k)).nbEntries - 1
          ok.nbDel := (ht.statDynamic (ht.parameter.hashval k)).ok.nbDel + 1 } ∧
      Changed ht ht' trees trees' (ht.parameter.hashval k) (l₁ ++ d :: l₂) (l₁ ++ l₂) := by
  set h := ht.parameter.hashval k with hh
  have hlt : h < ht.parameter.indexSize.toNat := hp.hashval_lt k
  have hb := hold.bucket h hlt
  obtain ⟨t', tree', l₁, l₂, hunlink, hwf, hl, hl', hfr⟩ := rbtUnlink_spec hb.wf hi
  set ht₁ : HashTable κ ν ι δ := { ht.setRbt h t' with
    pdataPrealloc := Function.update ht.pdataPrealloc h
      (releasePrealloc (ht.node i).rbtOpaq (ht.pdataPrealloc h))
    nodePrealloc := Function.update ht.nodePrealloc h
      (releasePrealloc i (ht.nodePrealloc h)) } with hht₁
  set ht' := ht₁.count h fun s =>
    { s with nbEntries := s.nbEntries - 1, ok.nbDel := s.ok.nbDel + 1 } with hht'
  have hrun : hashTableUnlink ht h i = some ht' := by
    simp only [hashTableUnlink, hunlink, Option.map_some]
    rfl
  -- the nodes that are left keep their data
  have hopaq : ∀ j, (ht'.node j).rbtOpaq = (ht.node j).rbtOpaq := hfr.opaq
  have hdata : ∀ j, ht'.data j = ht.data j := fun j => by
    rw [HashTable.data, hopaq]
    rfl
  have hmem : ∀ j ∈ tree'.toList, j ∈ (trees h).toList := by
    intro j hj
    rw [hl', List.mem_append] at hj
    rw [hl, List.mem_append, List.mem_cons]
    tauto
  have hold_entries : ht.entries (trees h) = l₁.map ht.data ++ ht.data i :: l₂.map ht.data := by
    rw [HashTable.entries, hl, List.map_append, List.map_cons]
  have hentries : ht'.entries tree' = l₁.map ht.data ++ l₂.map ht.data := by
    rw [HashTable.entries, hl', List.map_append, List.map_congr_left fun j _ => hdata j,
      List.map_congr_left fun j _ => hdata j]
  have hdold := hb.distinct
  rw [hold_entries] at hdold
  refine ⟨ht', fun h' => if h' = h then tree' else trees h', l₁.map ht.data, ht.data i, l₂.map ht.data,
    hrun, hold.update rfl ?_ ?_ ?_ ?_ ?_ ?_ ?_ hp.hashval_lt,
    fun hs => ⟨hs.prealloc, hs.nodes, hs.pdatas⟩, rfl, rfl, hold_entries, ?_, fun h' _ hne => ?_⟩
  · exact fun h' hne => Function.update_of_ne hne _ _
  · intro h' hh' hne j hj
    exact ⟨hfr.frame j fun hmem => hold.node_ne hlt hh' hne hmem hj rfl, hdata j⟩
  · refine ⟨?_, fun j hj => ?_, ?_⟩
    · refine hwf.congr ?_ fun _ _ => rfl
      exact Function.update_self ..
    · have hvalue : (ht'.node j).rbtValue = _ := hfr.value j
      rw [hvalue, hdata]
      exact hb.value j (hmem j hj)
    · rw [hentries]
      exact ((distinct_middle hp).mp hdold).2
  · refine hold.nodes.perm fun h' _ => ?_
    rcases eq_or_ne h' h with heq | hne
    · have hpool : ht'.nodePrealloc h = i :: ht.nodePrealloc h := Function.update_self ..
      simp only [heq, if_true, hpool]
      rw [hl', hl, List.append_assoc, List.append_assoc, List.cons_append]
      exact List.perm_middle.append_left _
    · have hpool : ht'.nodePrealloc h' = ht.nodePrealloc h' := Function.update_of_ne hne _ _
      simp only [if_neg hne, hpool]
      rfl
  · refine hold.pdatas.perm fun h' hh' => ?_
    simp only [hopaq]
    rcases eq_or_ne h' h with heq | hne
    · have hpool : ht'.pdataPrealloc h = (ht.node i).rbtOpaq :: ht.pdataPrealloc h :=
        Function.update_self ..
      simp only [heq, if_true, hpool]
      rw [hl', hl, List.map_append, List.map_append, List.map_cons, List.append_assoc,
        List.append_assoc, List.cons_append]
      exact List.perm_middle.append_left _
    · have hpool : ht'.pdataPrealloc h' = ht.pdataPrealloc h' := Function.update_of_ne hne _ _
      simp only [if_neg hne, hpool]
      rfl
  · intro k' hk'
    rw [hentries]
    simp only [Map.del]
    split_ifs with heq
    · rw [lookup_others hp hdold (hp.trans heq hk)]
      rfl
    · have hne : ¬ ht.parameter.compareKey k' (ht.data i).buffkey = 0 := fun hk'' =>
        heq (hp.trans hk'' (hp.symm hk))
      rw [hold.map, hk', hold_entries, lookup_middle hp hdold, if_neg hne]
  · intro k' hk'
    simp only [Map.del]
    rw [if_neg fun heq => hk' (hp.hashval_congr heq)]
  · rw [if_pos rfl]
    exact hentries
  · rw [if_neg hne]
    exact List.map_congr_left fun j _ => hdata j

lemma Holds.unlink (hp : ht.parameter.Lawful) (hold : Holds ht trees m) {k : κ} {i : ι}
    (hi : i ∈ (trees (ht.parameter.hashval k)).toList)
    (hk : ht.parameter.compareKey k (ht.data i).buffkey = 0) :
    ∃ ht' trees', hashTableUnlink ht (ht.parameter.hashval k) i = some ht' ∧
      Holds ht' trees' (m.del ht.parameter k) ∧ (Supplied ht → Supplied ht') ∧
      ht'.parameter = ht.parameter := by
  obtain ⟨ht', trees', -, -, -, hrun, hold', hs', hparam, -, -⟩ := hold.unlink_changed hp hi hk
  exact ⟨ht', trees', hrun, hold', hs', hparam⟩

end Changes

/-! ## Runs -/

section Runs
variable [DecidableEq ι]

/-- Either `Key_Locate` finds a node with the key and the map has its entry, or no node of the tree
has the key and the map does not have it. -/
lemma Holds.locate {ht : HashTable κ ν ι δ} {trees : ℕ → CTree ι} {m : Map κ ν}
    (hp : ht.parameter.Lawful) (hold : Holds ht trees m) (k : κ) :
    (∃ i ∈ (trees (ht.parameter.hashval k)).toList,
      keyLocate ht k (ht.parameter.hashval k) (ht.parameter.rbtValue k) = some (some i) ∧
      ht.parameter.compareKey k (ht.data i).buffkey = 0 ∧
      m k = some ((ht.data i).buffkey, (ht.data i).buffval)) ∨
    keyLocate ht k (ht.parameter.hashval k) (ht.parameter.rbtValue k) = some none ∧
      (∀ i ∈ (trees (ht.parameter.hashval k)).toList,
        ht.parameter.compareKey k (ht.data i).buffkey ≠ 0) ∧ m k = none := by
  have hspec := keyLocate_spec hp (hold.bucket _ (hp.hashval_lt k)) k
  have hmap : m k = ((trees (ht.parameter.hashval k)).toList.find? fun i =>
      ht.parameter.compareKey k (ht.data i).buffkey = 0).map
        fun i => ((ht.data i).buffkey, (ht.data i).buffval) := by
    rw [hold.map k, lookup, HashTable.entries, List.find?_map, Option.map_map]
    rfl
  rcases hfind : (trees (ht.parameter.hashval k)).toList.find? fun i =>
      ht.parameter.compareKey k (ht.data i).buffkey = 0 with _ | i
  · rw [hfind] at hspec
    refine .inr ⟨hspec, fun i hi => ?_, ?_⟩
    · simpa using List.find?_eq_none.mp hfind i hi
    · rw [hmap, hfind, Option.map_none]
  · rw [hfind] at hspec
    refine .inl ⟨i, List.mem_of_find?_eq_some hfind, hspec, ?_, ?_⟩
    · simpa using List.find?_some hfind
    · rw [hmap, hfind, Option.map_some]

variable [DecidableEq δ]

/-- Every operation does what the map does. -/
lemma Holds.step {ht : HashTable κ ν ι δ} {trees : ℕ → CTree ι} {m : Map κ ν}
    (hp : ht.parameter.Lawful) (hold : Holds ht trees m) (hs : Supplied ht) (op : Op κ ν) :
    ∃ ht' trees', step ht op = some ((specStep ht.parameter m op).1, ht') ∧
      Holds ht' trees' (specStep ht.parameter m op).2 ∧ Supplied ht' ∧
      ht'.parameter = ht.parameter := by
  cases op with
  | testAndSet buffkey buffval how =>
    rcases buffkey with _ | k
    · exact ⟨ht, trees, rfl, hold, hs, rfl⟩
    rcases buffval with _ | v
    · exact ⟨ht, trees, rfl, hold, hs, rfl⟩
    simp only [Hash.step, hashTableTestAndSet, if_pos (hp.hashval_lt k), hashTableTestAndSetAt]
    rcases hold.locate hp k with ⟨i, hi, hloc, hk, hm⟩ | ⟨hloc, hnone, hm⟩
    · simp only [hloc, Option.bind_some, specStep, hm]
      cases how with
      | testOnly =>
        simp only [Option.map_some]
        exact ⟨_, trees, rfl, hold.count _ _, ⟨hs.1, hs.2, hs.3⟩, rfl⟩
      | setNoOverwrite =>
        simp only [Option.map_some]
        exact ⟨_, trees, rfl, hold.count _ _, ⟨hs.1, hs.2, hs.3⟩, rfl⟩
      | setOverwrite =>
        obtain ⟨trees', hold'⟩ := hold.overwrite hp hi hk v
        exact ⟨_, trees', rfl, hold', ⟨hs.1, hs.2, hs.3⟩, rfl⟩
    · obtain ⟨ht', trees', hins, hold', hs', hparam⟩ := hold.insert hp hs hnone v
      simp only [hloc, Option.bind_some, specStep, hm, hins]
      cases how with
      | testOnly =>
        simp only [Option.map_some]
        exact ⟨_, trees, rfl, hold.count _ _, ⟨hs.1, hs.2, hs.3⟩, rfl⟩
      | setNoOverwrite => exact ⟨ht', trees', rfl, hold', hs', hparam⟩
      | setOverwrite => exact ⟨ht', trees', rfl, hold', hs', hparam⟩
  | get buffkey buffval =>
    rcases buffkey with _ | k
    · exact ⟨ht, trees, rfl, hold, hs, rfl⟩
    rcases buffval with _ | _
    · exact ⟨ht, trees, rfl, hold, hs, rfl⟩
    simp only [Hash.step, hashTableGet, if_pos (hp.hashval_lt k)]
    rcases hold.locate hp k with ⟨i, hi, hloc, hk, hm⟩ | ⟨hloc, hnone, hm⟩
    · simp only [hloc, Option.map_some, specStep, hm]
      exact ⟨_, trees, rfl, hold.count _ _, ⟨hs.1, hs.2, hs.3⟩, rfl⟩
    · simp only [hloc, Option.map_some, specStep, hm]
      exact ⟨_, trees, rfl, hold.count _ _, ⟨hs.1, hs.2, hs.3⟩, rfl⟩
  | del buffkey usedbuffkey usedbuffdata =>
    rcases buffkey with _ | k
    · exact ⟨ht, trees, rfl, hold, hs, rfl⟩
    simp only [Hash.step, hashTableDel, if_pos (hp.hashval_lt k)]
    rcases hold.locate hp k with ⟨i, hi, hloc, hk, hm⟩ | ⟨hloc, hnone, hm⟩
    · obtain ⟨ht', trees', hunlink, hold', hs', hparam⟩ := hold.unlink hp hi hk
      simp only [hloc, Option.bind_some, hunlink, specStep, hm]
      exact ⟨ht', trees', rfl, hold', hs' hs, hparam⟩
    · simp only [hloc, Option.bind_some, specStep, hm]
      exact ⟨_, trees, rfl, hold.count _ _, ⟨hs.1, hs.2, hs.3⟩, rfl⟩

/-- All operations of a run. -/
lemma Holds.run {ht : HashTable κ ν ι δ} {trees : ℕ → CTree ι} {m : Map κ ν}
    (hp : ht.parameter.Lawful) (hold : Holds ht trees m) (hs : Supplied ht) (ops : List (Op κ ν)) :
    ∃ ht' trees', run ht ops = some ((specRun ht.parameter m ops).1, ht') ∧
      Holds ht' trees' (specRun ht.parameter m ops).2 := by
  induction ops generalizing ht trees m with
  | nil => exact ⟨ht, trees, rfl, hold⟩
  | cons op ops ih =>
    obtain ⟨ht₁, trees₁, hstep, hold₁, hs₁, hparam⟩ := hold.step hp hs op
    obtain ⟨ht', trees', hrun, hold'⟩ := ih (hparam ▸ hp) hold₁ hs₁
    rw [hparam] at hrun hold'
    refine ⟨ht', trees', ?_, hold'⟩
    simp only [Hash.run, hstep, Option.bind_some, hrun, Option.map_some]
    rfl

/-- The allocator does not fail, and what it gives is not in use. -/
structure Memory.Ample (mem : Memory κ ν ι δ) : Prop where
  node_ne : ∀ k, mem.nodeArrays k ≠ []
  node_nodup : ∀ k, (mem.nodeArrays k).Nodup
  node_disjoint : ∀ k k', k ≠ k' → (mem.nodeArrays k).Disjoint (mem.nodeArrays k')
  pdata_ne : ∀ k, mem.pdataArrays k ≠ []
  pdata_nodup : ∀ k, (mem.pdataArrays k).Nodup
  pdata_disjoint : ∀ k k', k ≠ k' → (mem.pdataArrays k).Disjoint (mem.pdataArrays k')

omit [DecidableEq ι] [DecidableEq δ] in
/-- A new table is empty and has its pools. -/
lemma hashTableInit_spec {hparam : HashParameter κ} {mem : Memory κ ν ι δ} (hmem : mem.Ample)
    (hnb : hparam.nbNodePrealloc ≠ 0) :
    ∃ ht, hashTableInit hparam mem = some ht ∧ ht.parameter = hparam ∧ Supplied ht ∧
      Holds ht (fun _ => .nil) fun _ => none := by
  have hok : ∀ i < hparam.indexSize.toNat,
      ¬ (mem.nodeArrays i).isEmpty ∧ ¬ (mem.pdataArrays i).isEmpty := fun i _ => by
    rw [List.isEmpty_iff, List.isEmpty_iff]
    exact ⟨hmem.node_ne i, hmem.pdata_ne i⟩
  have hnodes : Owned hparam.indexSize.toNat mem.nodeArrays
      fun k => mem.nodeArrays (hparam.indexSize.toNat + k) :=
    ⟨fun h _ => hmem.node_nodup h, fun h _ h' _ hne => hmem.node_disjoint h h' hne,
      fun h hh k => hmem.node_disjoint _ _ (by omega), fun k => hmem.node_nodup _,
      fun k k' hne => hmem.node_disjoint _ _ (by omega)⟩
  have hpdatas : Owned hparam.indexSize.toNat mem.pdataArrays
      fun k => mem.pdataArrays (hparam.indexSize.toNat + k) :=
    ⟨fun h _ => hmem.pdata_nodup h, fun h _ h' _ hne => hmem.pdata_disjoint h h' hne,
      fun h hh k => hmem.pdata_disjoint _ _ (by omega), fun k => hmem.pdata_nodup _,
      fun k k' hne => hmem.pdata_disjoint _ _ (by omega)⟩
  refine ⟨_, if_pos hok, rfl, ⟨hnb, fun k => hmem.node_ne _, fun k => hmem.pdata_ne _⟩,
    ⟨fun h _ => ⟨wf_rbtHeadInit mem.node, ?_, List.Pairwise.nil⟩, hnodes, hpdatas, fun _ => rfl⟩⟩
  intro i hi
  cases hi

/-- For every sequence of calls on a new table, also when several keys have the same index and the
same value in the trees, the answers are those of the map. -/
theorem run_refines_map (hparam : HashParameter κ) (mem : Memory κ ν ι δ) (hp : hparam.Lawful)
    (hnb : hparam.nbNodePrealloc ≠ 0) (hmem : mem.Ample) (ops : List (Op κ ν)) :
    ∃ ht ht', hashTableInit hparam mem = some ht ∧
      run ht ops = some ((specRun hparam (fun _ => none) ops).1, ht') := by
  obtain ⟨ht, hinit, hparam', hs, hold⟩ := hashTableInit_spec hmem hnb
  obtain ⟨ht', -, hrun, -⟩ := hold.run (hparam' ▸ hp) hs ops
  rw [hparam'] at hrun
  exact ⟨ht, ht', hinit, hrun⟩

/-- A table with one index whose hash functions are constant. -/
def constantHash : HashParameter ℕ := ⟨1, 1, fun _ => 0, fun _ => 7, fun k k' => (k : ℤ) - (k' : ℤ)⟩

/-- An allocator that gives arrays of one element. -/
def arraysOfOne : Memory ℕ ℕ ℕ ℕ :=
  ⟨fun _ => ⟨false, .root, none, none, none, 0, 0⟩, fun _ => ⟨0, 0⟩, fun k => [k], fun k => [k]⟩

/-- Two keys in one tree with the same value. -/
theorem run_with_collisions :
    ∃ ht ht', hashTableInit constantHash arraysOfOne = some ht ∧
      run ht [.testAndSet (some 1) (some 10) .setNoOverwrite,
        .testAndSet (some 2) (some 20) .setOverwrite,
        .testAndSet (some 1) (some 11) .setNoOverwrite, .testAndSet (some 1) (some 12) .setOverwrite,
        .testAndSet (some 2) (some 0) .testOnly, .get (some 2) true, .del (some 1) true true,
        .get (some 1) true, .get (some 2) true] =
        some ([{ rc := .success }, { rc := .success }, { rc := .errorKeyAlreadyExists },
          { rc := .success }, { rc := .success }, { rc := .success, val := some 20 },
          { rc := .success, key := some 1, val := some 12 }, { rc := .errorNoSuchKey },
          { rc := .success, val := some 20 }], ht') := by
  have hp : constantHash.Lawful := by
    refine ⟨fun k => sub_self _, fun {k k'} h => ?_, fun {k k' k''} h h' => ?_, fun _ => Nat.zero_lt_one,
      fun _ => rfl, fun _ => rfl⟩
    · simp only [constantHash] at h ⊢
      omega
    · simp only [constantHash] at h h' ⊢
      omega
  have hmem : arraysOfOne.Ample := by
    refine ⟨fun k => ?_, fun k => ?_, fun k k' hne => ?_, fun k => ?_, fun k => ?_,
      fun k k' hne => ?_⟩ <;> simp [arraysOfOne]
    · exact Ne.symm hne
    · exact Ne.symm hne
  exact run_refines_map constantHash arraysOfOne hp (by decide) hmem _

end Runs

end Ganesha.Hash
