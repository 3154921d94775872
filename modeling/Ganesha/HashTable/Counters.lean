import Mathlib.Algebra.BigOperators.Group.Finset.Piecewise
import Mathlib.Data.Fintype.Card
import Ganesha.HashTable.Theorems

/-!
# The counters of the hash table

`HashTable_GetSize` counts the stored keys and every overwriting of a stored key. The allocator may fail
here.
-/

namespace Ganesha.Hash
open Ganesha.Rbt Library.RedBlack

variable {κ ν ι δ : Type}

/-! ## Counters -/

/-- The entries of the indices, as lists. -/
def HashTable.sizes (ht : HashTable κ ν ι δ) (trees : ℕ → CTree ι) (h : ℕ) : ℕ :=
  (ht.entries (trees h)).length

/-- The entries lie under the index of their key, and the counter of index `h` is the number of its
entries plus `surplus h`. -/
structure Counts (ht : HashTable κ ν ι δ) (trees : ℕ → CTree ι) (surplus : ℕ → ℕ) : Prop where
  placed : ∀ h < ht.parameter.indexSize.toNat, ∀ d ∈ ht.entries (trees h),
    ht.parameter.hashval d.buffkey = h
  stat : ∀ h < ht.parameter.indexSize.toNat, (ht.statDynamic h).nbEntries.toNat =
    (ht.sizes trees h + surplus h) % 2 ^ 32

variable {ht ht' : HashTable κ ν ι δ} {trees trees' : ℕ → CTree ι} {m : Map κ ν} {surplus : ℕ → ℕ} {h : ℕ}
  {l l' : List (HashData κ ν)}

/-- One bucket changed: the sum of the counters follows. -/
lemma Counts.update {surplus' : ℕ → ℕ} (hc : Counts ht trees surplus) (hparam : ht'.parameter = ht.parameter)
    (hchanged : Changed ht ht' trees trees' h l l') (hlt : h < ht.parameter.indexSize.toNat)
    (hplaced : ∀ d ∈ l', ht.parameter.hashval d.buffkey = h)
    (hstat : ∀ h' ≠ h, ht'.statDynamic h' = ht.statDynamic h' ∧ surplus' h' = surplus h')
    (hcount : (ht.statDynamic h).nbEntries.toNat = (l.length + surplus h) % 2 ^ 32 →
      (ht'.statDynamic h).nbEntries.toNat = (l'.length + surplus' h) % 2 ^ 32) : Counts ht' trees' surplus' where
  placed h' hh' d hd := by
    rw [hparam] at hh' ⊢
    rcases eq_or_ne h' h with rfl | hne
    · rw [hchanged.after] at hd
      exact hplaced d hd
    · rw [hchanged.other h' hh' hne] at hd
      exact hc.placed h' hh' d hd
  stat h' hh' := by
    rw [hparam] at hh'
    rcases eq_or_ne h' h with rfl | hne
    · have hold := hc.stat h' hh'
      rw [HashTable.sizes, hchanged.before] at hold
      rw [HashTable.sizes, hchanged.after]
      exact hcount hold
    · rw [(hstat h' hne).1, (hstat h' hne).2, HashTable.sizes, hchanged.other h' hh' hne]
      exact hc.stat h' hh'

/-- Other counters may change. -/
lemma Counts.count {f : HashStatDynamic → HashStatDynamic} (hc : Counts ht trees surplus)
    (hf : ∀ s, (f s).nbEntries = s.nbEntries) : Counts (ht.count h f) trees surplus where
  placed := hc.placed
  stat h' hh' := by
    have hsame : ((ht.count h f).statDynamic h').nbEntries = (ht.statDynamic h').nbEntries := by
      show (Function.update ht.statDynamic h (f (ht.statDynamic h)) h').nbEntries = _
      rcases eq_or_ne h' h with rfl | hne
      · rw [Function.update_self, hf]
      · rw [Function.update_of_ne hne]
    rw [hsame]
    exact hc.stat h' hh'

/-! ## Calls -/

section Calls
variable [DecidableEq ι]

/-- A key is stored: `HashTable_Get` finds it. -/
def Stored (ht : HashTable κ ν ι δ) (k : κ) : Prop :=
  (hashTableGet ht (some k) true).any (fun r => r.1.rc = .success) = true

/-- The call overwrites the value of a stored key. -/
def Overwrites (ht : HashTable κ ν ι δ) : Op κ ν → Prop
  | .testAndSet (some k) (some _) .setOverwrite => Stored ht k
  | _ => False

/-- What is stored is in the tree of its hash value. -/
lemma Holds.stored_iff (hp : ht.parameter.Lawful) (hold : Holds ht trees m) (k : κ) :
    Stored ht k ↔ ∃ i ∈ (trees (ht.parameter.hashval k)).toList,
      ht.parameter.compareKey k (ht.data i).buffkey = 0 := by
  simp only [Stored, hashTableGet, if_pos (hp.hashval_lt k)]
  rcases hold.locate hp k with ⟨i, hi, hloc, hk, -⟩ | ⟨hloc, hnone, -⟩
  · rw [hloc]
    exact iff_of_true rfl ⟨i, hi, hk⟩
  · rw [hloc]
    refine iff_of_false Bool.false_ne_true ?_
    rintro ⟨i, hi, hk⟩
    exact hnone i hi hk

omit [DecidableEq ι] in
lemma Holds.pools (hold : Holds ht trees m) {nodePrealloc : ℕ → List ι} {pdataPrealloc : ℕ → List δ}
    {nodeArrays : ℕ → List ι} {pdataArrays : ℕ → List δ}
    (hnodes : Owned ht.parameter.indexSize.toNat (fun h => (trees h).toList ++ nodePrealloc h) nodeArrays)
    (hpdatas : Owned ht.parameter.indexSize.toNat
      (fun h => ((trees h).toList.map fun i => (ht.node i).rbtOpaq) ++ pdataPrealloc h) pdataArrays) :
    Holds { ht with
      nodePrealloc := nodePrealloc
      nodeArrays := nodeArrays
      pdataPrealloc := pdataPrealloc
      pdataArrays := pdataArrays } trees m :=
  ⟨fun h hh => ⟨(hold.bucket h hh).wf, (hold.bucket h hh).value, (hold.bucket h hh).distinct⟩, hnodes,
    hpdatas, hold.map⟩

variable [DecidableEq δ]

/-- A key that is new is counted once. -/
lemma Counts.insert (hp : ht.parameter.Lawful) (hold : Holds ht trees m) (hc : Counts ht trees surplus) {k : κ}
    (hnone : ∀ i ∈ (trees (ht.parameter.hashval k)).toList,
      ht.parameter.compareKey k (ht.data i).buffkey ≠ 0) (v : ν) :
    ∃ rc ht' trees' m', hashTableInsert ht k v (ht.parameter.hashval k) (ht.parameter.rbtValue k) =
        some (rc, ht') ∧ Holds ht' trees' m' ∧ Counts ht' trees' surplus ∧ ht'.parameter = ht.parameter := by
  have hlt := hp.hashval_lt k
  obtain ⟨par, hfind, -⟩ := rbtFind_spec (hold.bucket _ hlt).wf (ht.parameter.rbtValue k)
  rcases hget : getPrealloc ht.parameter.nbNodePrealloc (ht.nodePrealloc (ht.parameter.hashval k))
      ht.nodeArrays with ⟨_ | qn, pool, arrays⟩
  · -- no node: nothing changes
    have hold' := (hold.pools (hold.nodes.getPrealloc_none hget) hold.pdatas).count (ht.parameter.hashval k)
      fun s => { s with err.nbSet := s.err.nbSet + 1 }
    refine ⟨.insertMallocError, _, trees, m, ?_, hold', Counts.count ⟨hc.placed, hc.stat⟩ fun _ => rfl, rfl⟩
    simp only [hashTableInsert, hfind, Option.bind_some, hget]
  · rcases hdget : getPrealloc ht.parameter.nbNodePrealloc (ht.pdataPrealloc (ht.parameter.hashval k))
        ht.pdataArrays with ⟨_ | d, dpool, darrays⟩
    · -- the node is lost
      have hnodes : Owned ht.parameter.indexSize.toNat (fun h' => (trees h').toList ++
          Function.update ht.nodePrealloc (ht.parameter.hashval k) pool h') arrays := by
        refine (hold.nodes.getPrealloc_some hlt hget).sublist fun h' _ => ?_
        rcases eq_or_ne h' (ht.parameter.hashval k) with heq | hne
        · rw [if_pos heq, heq, Function.update_self, List.cons_append]
          exact List.sublist_cons_self _ _
        · rw [if_neg hne, Function.update_of_ne hne]
      have hold' := (hold.pools hnodes (hold.pdatas.getPrealloc_none hdget)).count (ht.parameter.hashval k)
        fun s => { s with err.nbSet := s.err.nbSet + 1 }
      refine ⟨.insertMallocError, _, trees, m, ?_, hold', Counts.count ⟨hc.placed, hc.stat⟩ fun _ => rfl, rfl⟩
      simp only [hashTableInsert, hfind, Option.bind_some, hget, hdget]
    · obtain ⟨ht', trees', l₁, l₂, hrun, hold', hparam, -, -, hstat, hchanged⟩ :=
        hold.insert_changed hp hnone v hget hdget
      refine ⟨_, ht', trees', _, hrun, hold', hc.update hparam hchanged hlt ?_ ?_ ?_, hparam⟩
      · intro e he
        rcases List.mem_append.mp he with he | he
        · exact hc.placed _ hlt e (by rw [hchanged.before]; exact List.mem_append_left _ he)
        · rcases List.mem_cons.mp he with rfl | he
          · rfl
          · exact hc.placed _ hlt e (by rw [hchanged.before]; exact List.mem_append_right _ he)
      · intro h' hne
        rw [hstat, Function.update_of_ne hne]
        exact ⟨rfl, rfl⟩
      · intro hcount
        rw [hstat, Function.update_self]
        show ((ht.statDynamic _).nbEntries + 1).toNat = _
        rw [UInt32.toNat_add, hcount, List.length_append, List.length_append, List.length_cons]
        have hone : (1 : UInt32).toNat = 1 := rfl
        omega

omit [DecidableEq ι] in
/-- A key that is overwritten is counted again. -/
lemma Counts.overwrite (hp : ht.parameter.Lawful) (hold : Holds ht trees m) (hc : Counts ht trees surplus)
    {k : κ} {i : ι} (hi : i ∈ (trees (ht.parameter.hashval k)).toList)
    (hk : ht.parameter.compareKey k (ht.data i).buffkey = 0) (v : ν) :
    ∃ trees' m', Holds (ht.store (ht.parameter.hashval k) (ht.node i).rbtOpaq k v) trees' m' ∧
      Counts (ht.store (ht.parameter.hashval k) (ht.node i).rbtOpaq k v) trees'
        (Function.update surplus (ht.parameter.hashval k) (surplus (ht.parameter.hashval k) + 1)) ∧
      ∀ h < ht.parameter.indexSize.toNat,
        (ht.store (ht.parameter.hashval k) (ht.node i).rbtOpaq k v).sizes trees' h = ht.sizes trees h := by
  have hlt := hp.hashval_lt k
  obtain ⟨trees', l₁, d, l₂, hold', hchanged⟩ := hold.overwrite_changed hp hi hk v
  refine ⟨trees', _, hold', hc.update rfl hchanged hlt ?_ ?_ ?_, fun h hh => ?_⟩
  · intro e he
    rcases List.mem_append.mp he with he | he
    · exact hc.placed _ hlt e (by rw [hchanged.before]; exact List.mem_append_left _ he)
    · rcases List.mem_cons.mp he with rfl | he
      · rfl
      · refine hc.placed _ hlt e ?_
        rw [hchanged.before]
        exact List.mem_append_right _ (List.mem_cons_of_mem _ he)
  · intro h' hne
    rw [Function.update_of_ne hne]
    exact ⟨Function.update_of_ne hne _ _, rfl⟩
  · intro hcount
    rw [Function.update_self]
    have hstat : ((ht.store (ht.parameter.hashval k) (ht.node i).rbtOpaq k v).statDynamic
        (ht.parameter.hashval k)).nbEntries = (ht.statDynamic (ht.parameter.hashval k)).nbEntries + 1 := by
      show (Function.update ht.statDynamic _ _ _).nbEntries = _
      rw [Function.update_self]
    rw [hstat, UInt32.toNat_add, hcount, List.length_append, List.length_append, List.length_cons,
      List.length_cons]
    have hone : (1 : UInt32).toNat = 1 := rfl
    omega
  · rcases eq_or_ne h (ht.parameter.hashval k) with rfl | hne
    · rw [HashTable.sizes, HashTable.sizes, hchanged.before, hchanged.after, List.length_append,
        List.length_append, List.length_cons, List.length_cons]
    · rw [HashTable.sizes, HashTable.sizes, hchanged.other h hh hne]

omit [DecidableEq δ] in
/-- A key that is removed is counted off. -/
lemma Counts.unlink (hp : ht.parameter.Lawful) (hold : Holds ht trees m) (hc : Counts ht trees surplus)
    {k : κ} {i : ι} (hi : i ∈ (trees (ht.parameter.hashval k)).toList)
    (hk : ht.parameter.compareKey k (ht.data i).buffkey = 0) :
    ∃ ht' trees' m', hashTableUnlink ht (ht.parameter.hashval k) i = some ht' ∧ Holds ht' trees' m' ∧
      Counts ht' trees' surplus ∧ ht'.parameter = ht.parameter := by
  have hlt := hp.hashval_lt k
  obtain ⟨ht', trees', l₁, d, l₂, hrun, hold', -, hparam, hstat, hchanged⟩ := hold.unlink_changed hp hi hk
  refine ⟨ht', trees', _, hrun, hold', hc.update hparam hchanged hlt ?_ ?_ ?_, hparam⟩
  · intro e he
    refine hc.placed _ hlt e ?_
    rw [hchanged.before]
    rcases List.mem_append.mp he with he | he
    · exact List.mem_append_left _ he
    · exact List.mem_append_right _ (List.mem_cons_of_mem _ he)
  · intro h' hne
    rw [hstat, Function.update_of_ne hne]
    exact ⟨rfl, rfl⟩
  · intro hcount
    rw [hstat, Function.update_self]
    show ((ht.statDynamic _).nbEntries - 1).toNat = _
    rw [UInt32.toNat_sub, hcount, List.length_append, List.length_append, List.length_cons]
    have hone : (1 : UInt32).toNat = 1 := rfl
    omega

/-- Every operation: what is counted too much grows with the overwritings alone. -/
lemma Counts.step (hp : ht.parameter.Lawful) (hold : Holds ht trees m) (hc : Counts ht trees surplus)
    (op : Op κ ν) : ∃ answer ht' trees' m' surplus', step ht op = some (answer, ht') ∧ Holds ht' trees' m' ∧
      Counts ht' trees' surplus' ∧ ht'.parameter = ht.parameter ∧
      (¬Overwrites ht op ∧ surplus' = surplus ∨ Overwrites ht op ∧
        (∀ h < ht.parameter.indexSize.toNat, ht'.sizes trees' h = ht.sizes trees h) ∧
        ∃ h < ht.parameter.indexSize.toNat, surplus' = Function.update surplus h (surplus h + 1)) := by
  cases op with
  | testAndSet buffkey buffval how =>
    rcases buffkey with _ | k
    · exact ⟨_, ht, trees, m, surplus, rfl, hold, hc, rfl, .inl ⟨id, rfl⟩⟩
    rcases buffval with _ | v
    · exact ⟨_, ht, trees, m, surplus, rfl, hold, hc, rfl, .inl ⟨id, rfl⟩⟩
    simp only [Hash.step, hashTableTestAndSet, if_pos (hp.hashval_lt k), hashTableTestAndSetAt]
    -- a key is stored or is not
    have hstored := hold.stored_iff hp k
    rcases hold.locate hp k with ⟨i, hi, hloc, hk, -⟩ | ⟨hloc, hnone, -⟩
    · simp only [hloc, Option.bind_some]
      cases how with
      | testOnly =>
        simp only [Option.map_some]
        exact ⟨_, _, trees, m, surplus, rfl, hold.count _ _, hc.count fun _ => rfl, rfl, .inl ⟨id, rfl⟩⟩
      | setNoOverwrite =>
        simp only [Option.map_some]
        exact ⟨_, _, trees, m, surplus, rfl, hold.count _ _, hc.count fun _ => rfl, rfl, .inl ⟨id, rfl⟩⟩
      | setOverwrite =>
        obtain ⟨trees', m', hold', hc', hsizes⟩ := hc.overwrite hp hold hi hk v
        exact ⟨_, _, trees', m', _, rfl, hold', hc', rfl,
          .inr ⟨hstored.mpr ⟨i, hi, hk⟩, hsizes, _, hp.hashval_lt k, rfl⟩⟩
    · have hover : ¬Stored ht k := by
        rw [hstored]
        rintro ⟨i, hi, hk⟩
        exact hnone i hi hk
      obtain ⟨rc, ht', trees', m', hins, hold', hc', hparam⟩ := hc.insert hp hold hnone v
      simp only [hloc, Option.bind_some]
      cases how with
      | testOnly =>
        simp only [Option.map_some]
        exact ⟨_, _, trees, m, surplus, rfl, hold.count _ _, hc.count fun _ => rfl, rfl, .inl ⟨id, rfl⟩⟩
      | setNoOverwrite =>
        rw [hins]
        exact ⟨_, ht', trees', m', surplus, rfl, hold', hc', hparam, .inl ⟨id, rfl⟩⟩
      | setOverwrite =>
        rw [hins]
        exact ⟨_, ht', trees', m', surplus, rfl, hold', hc', hparam, .inl ⟨hover, rfl⟩⟩
  | get buffkey buffval =>
    rcases buffkey with _ | k
    · exact ⟨_, ht, trees, m, surplus, rfl, hold, hc, rfl, .inl ⟨id, rfl⟩⟩
    rcases buffval with _ | _
    · exact ⟨_, ht, trees, m, surplus, rfl, hold, hc, rfl, .inl ⟨id, rfl⟩⟩
    simp only [Hash.step, hashTableGet, if_pos (hp.hashval_lt k)]
    rcases hold.locate hp k with ⟨i, hi, hloc, hk, -⟩ | ⟨hloc, hnone, -⟩
    · rw [hloc]
      exact ⟨_, _, trees, m, surplus, rfl, hold.count _ _, hc.count fun _ => rfl, rfl, .inl ⟨id, rfl⟩⟩
    · rw [hloc]
      exact ⟨_, _, trees, m, surplus, rfl, hold.count _ _, hc.count fun _ => rfl, rfl, .inl ⟨id, rfl⟩⟩
  | del buffkey usedbuffkey usedbuffdata =>
    rcases buffkey with _ | k
    · exact ⟨_, ht, trees, m, surplus, rfl, hold, hc, rfl, .inl ⟨id, rfl⟩⟩
    simp only [Hash.step, hashTableDel, if_pos (hp.hashval_lt k)]
    rcases hold.locate hp k with ⟨i, hi, hloc, hk, -⟩ | ⟨hloc, hnone, -⟩
    · obtain ⟨ht', trees', m', hunlink, hold', hc', hparam⟩ := hc.unlink hp hold hi hk
      simp only [hloc, Option.bind_some, hunlink]
      exact ⟨_, ht', trees', m', surplus, rfl, hold', hc', hparam, .inl ⟨id, rfl⟩⟩
    · simp only [hloc, Option.bind_some]
      exact ⟨_, _, trees, m, surplus, rfl, hold.count _ _, hc.count fun _ => rfl, rfl, .inl ⟨id, rfl⟩⟩

/-! ## Sizes -/

/-- The keys that are stored, one of each class of equal keys. -/
structure Keys (ht : HashTable κ ν ι δ) (keys : List κ) : Prop where
  distinct : keys.Pairwise fun k k' => ht.parameter.compareKey k k' ≠ 0
  stored : ∀ k, Stored ht k ↔ ∃ k' ∈ keys, ht.parameter.compareKey k k' = 0

/-- The number of nodes of all trees. -/
def numNodes (ht : HashTable κ ν ι δ) : ℕ :=
  ∑ i ∈ Finset.range ht.parameter.indexSize.toNat, (ht.arrayRbt i).rbtNumNode

/-- The three numbers are the number of keys. -/
def Exact (ht : HashTable κ ν ι δ) : Prop :=
  ∃ keys, Keys ht keys ∧ (hashTableGetSize ht).toNat = keys.length ∧ numNodes ht = keys.length ∧
    (hashTableGetStats ht).dynamic.nbEntries.toNat = keys.length

omit [DecidableEq δ] in
/-- Two lists of the keys have the same length. -/
lemma Keys.length_le {keys keys' : List κ} (hp : ht.parameter.Lawful) (hkeys : Keys ht keys)
    (hkeys' : Keys ht keys') : keys.length ≤ keys'.length := by
  -- each key of the first list is equal to one of the second, and to no other of the first
  have hequal : ∀ i : Fin keys.length, ∃ j : Fin keys'.length,
      ht.parameter.compareKey (keys.get i) (keys'.get j) = 0 := by
    intro i
    have hstored := (hkeys.stored (keys.get i)).mpr ⟨_, keys.get_mem i, hp.refl _⟩
    obtain ⟨k', hk', heq⟩ := (hkeys'.stored _).mp hstored
    obtain ⟨j, rfl⟩ := List.mem_iff_get.mp hk'
    exact ⟨j, heq⟩
  choose f hf using hequal
  have hinj : Function.Injective f := by
    intro i i' heq
    by_contra hne
    have hsame : ∀ i i', f i = f i' → ht.parameter.compareKey (keys.get i) (keys.get i') = 0 :=
      fun i i' heq => hp.trans (hf i) (hp.symm (heq ▸ hf i'))
    rcases lt_or_gt_of_ne hne with hlt | hlt
    · exact List.pairwise_iff_get.mp hkeys.distinct i i' hlt (hsame i i' heq)
    · exact List.pairwise_iff_get.mp hkeys.distinct i' i hlt (hsame i' i heq.symm)
  simpa using Fintype.card_le_of_injective f hinj

lemma toNat_foldl_add (f : ℕ → UInt32) (n : ℕ) :
    ((List.range n).foldl (fun s i => s + f i) 0).toNat =
      (∑ i ∈ Finset.range n, (f i).toNat) % 2 ^ 32 := by
  induction n with
  | zero => rfl
  | succ n ih =>
    rw [List.range_succ, List.foldl_append, List.foldl_cons, List.foldl_nil, UInt32.toNat_add, ih,
      Finset.sum_range_succ, Nat.mod_add_mod]

omit [DecidableEq ι] [DecidableEq δ] in
/-- Both readings of the counters agree. -/
lemma nbEntries_hashTableGetStats (ht : HashTable κ ν ι δ) :
    (hashTableGetStats ht).dynamic.nbEntries = hashTableGetSize ht := by
  have hfold : ∀ (l : List ℕ) (hstat : HashStat), (l.foldl (fun hstat i =>
      hstat.addIndex (ht.statDynamic i) (UInt32.ofNat (ht.arrayRbt i).rbtNumNode)) hstat).dynamic.nbEntries =
        l.foldl (fun nbEntries i => nbEntries + (ht.statDynamic i).nbEntries) hstat.dynamic.nbEntries := by
    intro l
    induction l with
    | nil => exact fun _ => rfl
    | cons i l ih =>
      intro hstat
      rw [List.foldl_cons, List.foldl_cons, ih]
      rfl
  exact hfold _ _

omit [DecidableEq ι] [DecidableEq δ] in
lemma Counts.getSize (hc : Counts ht trees surplus) : (hashTableGetSize ht).toNat =
    (∑ h ∈ Finset.range ht.parameter.indexSize.toNat, ht.sizes trees h +
      ∑ h ∈ Finset.range ht.parameter.indexSize.toNat, surplus h) % 2 ^ 32 := by
  rw [hashTableGetSize, toNat_foldl_add, ← Finset.sum_add_distrib,
    Finset.sum_nat_mod _ _ fun h => ht.sizes trees h + surplus h]
  refine congrArg (· % 2 ^ 32) (Finset.sum_congr rfl fun h hh => ?_)
  exact hc.stat h (Finset.mem_range.mp hh)

omit [DecidableEq ι] [DecidableEq δ] in
lemma Holds.numNodes_eq (hold : Holds ht trees m) :
    numNodes ht = ∑ h ∈ Finset.range ht.parameter.indexSize.toNat, ht.sizes trees h := by
  refine Finset.sum_congr rfl fun h hh => ?_
  rw [HashTable.sizes, HashTable.entries, List.length_map]
  exact (hold.bucket h (Finset.mem_range.mp hh)).wf.num

omit [DecidableEq δ] in
/-- The keys counted through the buckets. -/
lemma Counts.keys (hp : ht.parameter.Lawful) (hold : Holds ht trees m) (hc : Counts ht trees surplus) :
    ∃ keys, Keys ht keys ∧
      keys.length = ∑ h ∈ Finset.range ht.parameter.indexSize.toNat, ht.sizes trees h := by
  refine ⟨(List.range ht.parameter.indexSize.toNat).flatMap fun h =>
    (ht.entries (trees h)).map HashData.buffkey, ⟨?_, fun k => ?_⟩, ?_⟩
  · rw [List.pairwise_flatMap]
    constructor
    · intro h hh
      exact List.pairwise_map.mpr (hold.bucket h (List.mem_range.mp hh)).distinct
    · refine (List.nodup_range).imp_of_mem fun {h h'} hh hh' hne k hk k' hk' heq => hne ?_
      obtain ⟨d, hd, rfl⟩ := List.mem_map.mp hk
      obtain ⟨d', hd', rfl⟩ := List.mem_map.mp hk'
      rw [← hc.placed h (List.mem_range.mp hh) d hd, ← hc.placed h' (List.mem_range.mp hh') d' hd']
      exact hp.hashval_congr heq
  · rw [hold.stored_iff hp k]
    constructor
    · rintro ⟨i, hi, hk⟩
      refine ⟨(ht.data i).buffkey, List.mem_flatMap.mpr ⟨ht.parameter.hashval k, ?_, ?_⟩, hk⟩
      · exact List.mem_range.mpr (hp.hashval_lt k)
      · exact List.mem_map_of_mem (List.mem_map_of_mem hi)
    · rintro ⟨k', hk', hk⟩
      obtain ⟨h, hh, hmem⟩ := List.mem_flatMap.mp hk'
      obtain ⟨d, hd, rfl⟩ := List.mem_map.mp hmem
      have hplaced := hc.placed h (List.mem_range.mp hh) d hd
      rw [← hp.hashval_congr hk] at hplaced
      rw [hplaced]
      obtain ⟨i, hi, rfl⟩ := List.mem_map.mp hd
      exact ⟨i, hi, hk⟩
  · rw [List.length_flatMap]
    generalize ht.parameter.indexSize.toNat = n
    induction n with
    | zero => rfl
    | succ n ih =>
      rw [List.range_succ, List.map_append, List.sum_append, ih, Finset.sum_range_succ, List.map_singleton,
        List.sum_singleton, List.length_map]
      rfl

omit [DecidableEq δ] in
/-- Exactness modulo 2^32, by what is counted too much. -/
lemma Counts.exact_iff_mod (hp : ht.parameter.Lawful) (hold : Holds ht trees m) (hc : Counts ht trees surplus) :
    Exact ht ↔ (numNodes ht + ∑ h ∈ Finset.range ht.parameter.indexSize.toNat, surplus h) % 2 ^ 32 =
      numNodes ht := by
  obtain ⟨keys, hkeys, hlength⟩ := hc.keys hp hold
  have hsize := hc.getSize
  rw [← hold.numNodes_eq] at hlength hsize
  constructor
  · rintro ⟨keys', hkeys', hsize', -, -⟩
    rw [← hsize, hsize', ← hlength]
    exact le_antisymm (hkeys'.length_le hp hkeys) (hkeys.length_le hp hkeys')
  · intro hmod
    have hexact : (hashTableGetSize ht).toNat = keys.length := by rw [hsize, hmod, hlength]
    refine ⟨keys, hkeys, hexact, hlength.symm, ?_⟩
    rw [nbEntries_hashTableGetStats, hexact]

/-! ## Runs -/

/-- A run with one operation more. -/
lemma run_concat (ht : HashTable κ ν ι δ) (ops : List (Op κ ν)) (op : Op κ ν) :
    run ht (ops ++ [op]) = (run ht ops).bind fun r => (Hash.step r.2 op).map fun r' =>
      (r.1 ++ [r'.1], r'.2) := by
  induction ops generalizing ht with
  | nil =>
    simp only [List.nil_append, run, Option.bind_some]
    cases Hash.step ht op with
    | none => rfl
    | some r => rfl
  | cons op' ops ih =>
    simp only [List.cons_append, run]
    cases Hash.step ht op' with
    | none => rfl
    | some r =>
      simp only [Option.bind_some, ih]
      cases run r.2 ops with
      | none => rfl
      | some r' =>
        simp only [Option.bind_some, Option.map_some]
        cases Hash.step r'.2 op with
        | none => rfl
        | some r'' => rfl

/-- All operations of a run. -/
lemma Counts.run (hp : ht.parameter.Lawful) (hold : Holds ht trees m) (hc : Counts ht trees surplus)
    (ops : List (Op κ ν)) : ∃ answers ht' trees' m' surplus', run ht ops = some (answers, ht') ∧
      Holds ht' trees' m' ∧ Counts ht' trees' surplus' ∧ ht'.parameter = ht.parameter := by
  induction ops generalizing ht trees m surplus with
  | nil => exact ⟨[], ht, trees, m, surplus, rfl, hold, hc, rfl⟩
  | cons op ops ih =>
    obtain ⟨answer, ht₁, trees₁, m₁, surplus₁, hstep, hold₁, hc₁, hparam₁, -⟩ := hc.step hp hold op
    obtain ⟨answers, ht', trees', m', surplus', hrun, hold', hc', hparam⟩ := ih (hparam₁ ▸ hp) hold₁ hc₁
    refine ⟨answer :: answers, ht', trees', m', surplus', ?_, hold', hc', hparam.trans hparam₁⟩
    simp only [Hash.run, hstep, Option.bind_some, hrun, Option.map_some]

/-- The allocator gives memory that is not in use, or `NULL`. -/
structure Memory.Sound (mem : Memory κ ν ι δ) : Prop where
  node_nodup : ∀ k, (mem.nodeArrays k).Nodup
  node_disjoint : ∀ k k', k ≠ k' → (mem.nodeArrays k).Disjoint (mem.nodeArrays k')
  pdata_nodup : ∀ k, (mem.pdataArrays k).Nodup
  pdata_disjoint : ∀ k k', k ≠ k' → (mem.pdataArrays k).Disjoint (mem.pdataArrays k')

omit [DecidableEq ι] [DecidableEq δ] in
/-- All counters of a new table are 0. -/
lemma counts_hashTableInit {hparam : HashParameter κ} {mem : Memory κ ν ι δ} (hmem : mem.Sound)
    (hinit : hashTableInit hparam mem = some ht) :
    Holds ht (fun _ => .nil) (fun _ => none) ∧ Counts ht (fun _ => .nil) (fun _ => 0) ∧
      ht.parameter = hparam := by
  rw [hashTableInit] at hinit
  split_ifs at hinit
  rw [← Option.some.inj hinit]
  refine ⟨⟨fun h _ => ⟨wf_rbtHeadInit mem.node, ?_, List.Pairwise.nil⟩, ?_, ?_, fun _ => rfl⟩,
    ⟨?_, fun _ _ => rfl⟩, rfl⟩
  · intro i hi
    cases hi
  · exact ⟨fun h _ => hmem.node_nodup h, fun h _ h' _ hne => hmem.node_disjoint h h' hne,
      fun h hh k => hmem.node_disjoint _ _ (Nat.ne_of_lt (Nat.lt_add_right k hh)),
      fun k => hmem.node_nodup _, fun k k' hne => hmem.node_disjoint _ _ fun heq => hne (by omega)⟩
  · exact ⟨fun h _ => hmem.pdata_nodup h, fun h _ h' _ hne => hmem.pdata_disjoint h h' hne,
      fun h hh k => hmem.pdata_disjoint _ _ (Nat.ne_of_lt (Nat.lt_add_right k hh)),
      fun k => hmem.pdata_nodup _, fun k k' hne => hmem.pdata_disjoint _ _ fun heq => hne (by omega)⟩
  · intro h _ d hd
    cases hd

/-- One step in the sum of the surplus. -/
lemma Counts.step_sum (hp : ht.parameter.Lawful) (hold : Holds ht trees m) (hc : Counts ht trees surplus)
    {op : Op κ ν} {answer : Answer κ ν} (hstep : Hash.step ht op = some (answer, ht')) :
    ∃ trees' m' surplus', Holds ht' trees' m' ∧ Counts ht' trees' surplus' ∧ ht'.parameter = ht.parameter ∧
      (¬Overwrites ht op ∧ surplus' = surplus ∨ Overwrites ht op ∧ numNodes ht' = numNodes ht ∧
        ∑ h ∈ Finset.range ht.parameter.indexSize.toNat, surplus' h =
          ∑ h ∈ Finset.range ht.parameter.indexSize.toNat, surplus h + 1) := by
  obtain ⟨answer', ht₁, trees', m', surplus', hstep', hold', hc', hparam, heffect⟩ := hc.step hp hold op
  rw [hstep] at hstep'
  obtain ⟨-, rfl⟩ := Prod.mk.inj (Option.some.inj hstep')
  refine ⟨trees', m', surplus', hold', hc', hparam, heffect.imp_right ?_⟩
  rintro ⟨hover, hsizes, h, hh, rfl⟩
  refine ⟨hover, ?_, ?_⟩
  · rw [hold.numNodes_eq, hold'.numNodes_eq, hparam]
    exact Finset.sum_congr rfl fun h hh => hsizes h (Finset.mem_range.mp hh)
  · rw [Finset.sum_update_of_mem (Finset.mem_range.mpr hh),
      Finset.sum_eq_add_sum_sdiff_singleton_of_mem (Finset.mem_range.mpr hh) surplus]
    omega

/-- All along a run on a new table, with an allocator that may fail, the numbers are the number of keys
exactly if no call of the run overwrites a stored key, and the trees hold less than `2^32` nodes. -/
theorem exact_iff (hparam : HashParameter κ) (mem : Memory κ ν ι δ) (hp : hparam.Lawful)
    (hmem : mem.Sound) (hinit : hashTableInit hparam mem = some ht) (ops : List (Op κ ν)) :
    (∀ pre, pre <+: ops → ∃ answers ht', run ht pre = some (answers, ht') ∧ Exact ht') ↔
      ∀ pre, pre <+: ops → ∀ answers ht', run ht pre = some (answers, ht') →
        numNodes ht' < 2 ^ 32 ∧ ∀ op, pre ++ [op] <+: ops → ¬Overwrites ht' op := by
  obtain ⟨hold, hc, hparam'⟩ := counts_hashTableInit hmem hinit
  have hp : ht.parameter.Lawful := hparam' ▸ hp
  constructor
  · intro hexact pre hpre answers ht' hrun
    obtain ⟨answers₁, ht₁, trees₁, m₁, surplus₁, hrun₁, hold₁, hc₁, hparam₁⟩ := hc.run hp hold pre
    rw [hrun] at hrun₁
    obtain ⟨-, rfl⟩ := Prod.mk.inj (Option.some.inj hrun₁)
    have hp₁ := hparam₁ ▸ hp
    obtain ⟨answers₂, ht₂, hrun₂, hexact₁⟩ := hexact pre hpre
    rw [hrun] at hrun₂
    obtain ⟨-, rfl⟩ := Prod.mk.inj (Option.some.inj hrun₂)
    have hmod₁ := (hc₁.exact_iff_mod hp₁ hold₁).mp hexact₁
    refine ⟨by omega, fun op hop hover => ?_⟩
    -- the number of entries stays, and the counter goes up
    obtain ⟨answers₂, ht₂, hrun₂, hexact₂⟩ := hexact _ hop
    rw [run_concat, hrun, Option.bind_some] at hrun₂
    obtain ⟨⟨answer, ht₃⟩, hstep, heq⟩ := Option.map_eq_some_iff.mp hrun₂
    obtain ⟨-, rfl⟩ := Prod.mk.inj heq
    obtain ⟨trees₂, m₂, surplus₂, hold₂, hc₂, hparam₂, hcases⟩ := hc₁.step_sum hp₁ hold₁ hstep
    obtain ⟨-, hnum, hsum⟩ := hcases.resolve_left fun hnot => hnot.1 hover
    have hmod₂ := (hc₂.exact_iff_mod (hparam₂ ▸ hp₁) hold₂).mp hexact₂
    rw [hparam₂, hsum, hnum] at hmod₂
    omega
  · intro hcond pre
    -- no call has overwritten, so nothing but the entries is counted
    have hzero : pre <+: ops → ∃ answers ht' trees' m' surplus', run ht pre = some (answers, ht') ∧
        Holds ht' trees' m' ∧ Counts ht' trees' surplus' ∧ ht'.parameter = ht.parameter ∧
        surplus' = fun _ => 0 := by
      induction pre using List.reverseRecOn with
      | nil => exact fun _ => ⟨[], ht, _, _, _, rfl, hold, hc, rfl, rfl⟩
      | append_singleton pre op ih =>
        intro hpre
        have hpre' := (List.prefix_append pre [op]).trans hpre
        obtain ⟨answers₁, ht₁, trees₁, m₁, surplus₁, hrun₁, hold₁, hc₁, hparam₁, rfl⟩ := ih hpre'
        obtain ⟨answer, ht', trees', m', surplus', hstep, hold', hc', hparam, hcases⟩ :=
          hc₁.step (hparam₁ ▸ hp) hold₁ op
        have hover := (hcond pre hpre' answers₁ ht₁ hrun₁).2 op hpre
        refine ⟨answers₁ ++ [answer], ht', trees', m', surplus', ?_, hold', hc', hparam.trans hparam₁, ?_⟩
        · rw [run_concat, hrun₁, Option.bind_some, hstep, Option.map_some]
        · exact (hcases.resolve_right fun hyes => hover hyes.1).2
    intro hpre
    obtain ⟨answers, ht', trees', m', surplus', hrun, hold', hc', hparam, rfl⟩ := hzero hpre
    refine ⟨answers, ht', hrun, (hc'.exact_iff_mod (hparam ▸ hp) hold').mpr ?_⟩
    rw [Finset.sum_const_zero, Nat.add_zero]
    exact Nat.mod_eq_of_lt (hcond pre hpre answers ht' hrun).1

end Calls

/-- A constant hash function is lawful. -/
lemma constantHash_lawful : constantHash.Lawful := by
  refine ⟨fun k => sub_self _, fun {k k'} h => ?_, fun {k k' k''} h h' => ?_, fun _ => Nat.zero_lt_one,
    fun _ => rfl, fun _ => rfl⟩
  · simp only [constantHash] at h ⊢
    omega
  · simp only [constantHash] at h h' ⊢
    omega

lemma arraysOfOne_sound : arraysOfOne.Sound := by
  refine ⟨fun k => List.nodup_singleton k, fun k k' hne => ?_, fun k => List.nodup_singleton k,
    fun k k' hne => ?_⟩
  · exact List.disjoint_singleton.mpr fun heq => hne (List.mem_singleton.mp heq).symm
  · exact List.disjoint_singleton.mpr fun heq => hne (List.mem_singleton.mp heq).symm

/-- Two keys are set and one is deleted. -/
def sampleOps : List (Op ℕ ℕ) :=
  [.testAndSet (some 1) (some 10) .setNoOverwrite, .testAndSet (some 2) (some 20) .setNoOverwrite,
    .testAndSet (some 1) (some 11) .setNoOverwrite, .del (some 1) false false]

/-- A run without an overwriting. -/
theorem exact_of_no_overwrite : ∃ ht, hashTableInit constantHash arraysOfOne = some ht ∧
    ∀ pre, pre <+: sampleOps → ∃ answers ht', run ht pre = some (answers, ht') ∧ Exact ht' := by
  obtain ⟨ht, hinit⟩ : ∃ ht, hashTableInit constantHash arraysOfOne = some ht := ⟨_, rfl⟩
  refine ⟨ht, hinit, ?_⟩
  rw [exact_iff constantHash arraysOfOne constantHash_lawful arraysOfOne_sound hinit]
  intro pre hpre answers ht' hrun
  constructor
  · have hnum : ((hashTableInit constantHash arraysOfOne).all fun ht => sampleOps.inits.all fun pre =>
        (run ht pre).all fun r => numNodes r.2 < 2 ^ 32) = true := by
      decide +kernel
    rw [hinit, Option.all_some, List.all_eq_true] at hnum
    have hpre := hnum pre ((List.mem_inits pre sampleOps).mpr hpre)
    rw [hrun, Option.all_some] at hpre
    exact of_decide_eq_true hpre
  · intro op hop
    have hmem : op ∈ sampleOps := hop.subset (List.mem_append_right pre List.mem_cons_self)
    simp only [sampleOps, List.mem_cons, List.not_mem_nil, or_false] at hmem
    rcases hmem with rfl | rfl | rfl | rfl <;> exact id

/-- One key, set and overwritten. -/
theorem not_exact_of_overwrite : ∃ ht answers ht', hashTableInit constantHash arraysOfOne = some ht ∧
    run ht [.testAndSet (some 1) (some 10) .setNoOverwrite, .testAndSet (some 1) (some 11) .setOverwrite] =
      some (answers, ht') ∧ hashTableGetSize ht' = 2 ∧ numNodes ht' = 1 ∧ ¬Exact ht' := by
  have hrun : ((hashTableInit constantHash arraysOfOne).any fun ht =>
      (run ht [.testAndSet (some 1) (some 10) .setNoOverwrite,
        .testAndSet (some 1) (some 11) .setOverwrite]).any fun r =>
          hashTableGetSize r.2 = 2 ∧ numNodes r.2 = 1) = true := by
    decide +kernel
  rw [Option.any_eq_true] at hrun
  obtain ⟨ht, hinit, hrun⟩ := hrun
  rw [Option.any_eq_true] at hrun
  obtain ⟨⟨answers, ht'⟩, hrun, hfinal⟩ := hrun
  obtain ⟨hsize, hnum⟩ := of_decide_eq_true hfinal
  refine ⟨ht, answers, ht', hinit, hrun, hsize, hnum, ?_⟩
  rintro ⟨keys, -, hkeys, hkeys', -⟩
  rw [hsize] at hkeys
  rw [hnum, ← hkeys] at hkeys'
  cases hkeys'

end Ganesha.Hash
