import Ganesha.Rbt.Unlink
import Ganesha.HashTable.Common

/-!
# What a hash table holds
-/

namespace Ganesha.Hash
open Ganesha.Rbt Library.RedBlack

/-! ## Ownership -/

section Owned
variable {α : Type}

/-- The places `used h` of the first `n` indices and the arrays the allocator gives are all
different. -/
structure Owned (n : ℕ) (used arrays : ℕ → List α) : Prop where
  nodup : ∀ h < n, (used h).Nodup
  disjoint : ∀ h < n, ∀ h' < n, h ≠ h' → (used h).Disjoint (used h')
  fresh : ∀ h < n, ∀ k, (used h).Disjoint (arrays k)
  nodup_arrays : ∀ k, (arrays k).Nodup
  disjoint_arrays : ∀ k k', k ≠ k' → (arrays k).Disjoint (arrays k')

variable {n h : ℕ} {used used' arrays : ℕ → List α}

lemma Owned.perm (ho : Owned n used arrays) (hused : ∀ h' < n, (used' h').Perm (used h')) :
    Owned n used' arrays where
  nodup h hh := (hused h hh).nodup_iff.mpr (ho.nodup h hh)
  disjoint h hh h' hh' hne _ ha ha' :=
    ho.disjoint h hh h' hh' hne ((hused h hh).mem_iff.mp ha) ((hused h' hh').mem_iff.mp ha')
  fresh h hh k _ ha ha' := ho.fresh h hh k ((hused h hh).mem_iff.mp ha) ha'
  nodup_arrays := ho.nodup_arrays
  disjoint_arrays := ho.disjoint_arrays

/-- A bucket takes the next array. -/
lemma Owned.refill (ho : Owned n used arrays) (hh : h < n) :
    Owned n (Function.update used h (used h ++ arrays 0)) fun k => arrays (k + 1) where
  nodup h' hh' := by
    rcases eq_or_ne h' h with rfl | hne
    · rw [Function.update_self]
      exact (ho.nodup h' hh).append (ho.nodup_arrays 0) (ho.fresh h' hh 0)
    · rw [Function.update_of_ne hne]
      exact ho.nodup h' hh'
  disjoint h₁ hh₁ h₂ hh₂ hne := by
    rcases eq_or_ne h₁ h with rfl | hne₁
    · rw [Function.update_self, Function.update_of_ne hne.symm, List.disjoint_append_left]
      exact ⟨ho.disjoint h₁ hh₁ h₂ hh₂ hne, List.disjoint_symm (ho.fresh h₂ hh₂ 0)⟩
    · rw [Function.update_of_ne hne₁]
      rcases eq_or_ne h₂ h with rfl | hne₂
      · rw [Function.update_self, List.disjoint_append_right]
        exact ⟨ho.disjoint h₁ hh₁ h₂ hh₂ hne, ho.fresh h₁ hh₁ 0⟩
      · rw [Function.update_of_ne hne₂]
        exact ho.disjoint h₁ hh₁ h₂ hh₂ hne
  fresh h' hh' k := by
    rcases eq_or_ne h' h with rfl | hne
    · rw [Function.update_self, List.disjoint_append_left]
      exact ⟨ho.fresh h' hh (k + 1), ho.disjoint_arrays 0 (k + 1) (Nat.succ_ne_zero k).symm⟩
    · rw [Function.update_of_ne hne]
      exact ho.fresh h' hh' (k + 1)
  nodup_arrays k := ho.nodup_arrays (k + 1)
  disjoint_arrays k k' hne := ho.disjoint_arrays (k + 1) (k' + 1) (by omega)

lemma Owned.sublist (ho : Owned n used arrays) (hused : ∀ h' < n, (used' h').Sublist (used h')) :
    Owned n used' arrays where
  nodup h hh := (ho.nodup h hh).sublist (hused h hh)
  disjoint h hh h' hh' hne _ ha ha' :=
    ho.disjoint h hh h' hh' hne ((hused h hh).subset ha) ((hused h' hh').subset ha')
  fresh h hh k _ ha ha' := ho.fresh h hh k ((hused h hh).subset ha) ha'
  nodup_arrays := ho.nodup_arrays
  disjoint_arrays := ho.disjoint_arrays

variable {nb : UInt32} {rest pool : ℕ → List α} {pool' : List α}

/-- An entry leaves the pool for the bucket. -/
lemma Owned.getPrealloc_some {e : α} {arrays' : ℕ → List α} (ho : Owned n (fun h => rest h ++ pool h) arrays)
    (hh : h < n) (hget : getPrealloc nb (pool h) arrays = (some e, pool', arrays')) :
    Owned n (fun h' => if h' = h then e :: rest h ++ pool' else rest h' ++ pool h') arrays' := by
  rcases hpool : pool h with _ | ⟨e₀, pool₀⟩
  · by_cases hnb : nb = 0
    · simp [Hash.getPrealloc, hpool, hnb] at hget
    · simp only [Hash.getPrealloc, hpool, List.isEmpty_nil, ne_eq, hnb, not_false_eq_true, and_self,
        if_true, Prod.mk.injEq] at hget
      obtain ⟨hhead, htail, rfl⟩ := hget
      refine (ho.refill hh).perm fun h' _ => ?_
      rcases eq_or_ne h' h with rfl | hne
      · rw [if_pos rfl, Function.update_self, hpool, List.append_nil, ← List.cons_head?_tail hhead, htail]
        exact List.perm_middle.symm
      · rw [if_neg hne, Function.update_of_ne hne]
  · simp only [Hash.getPrealloc, hpool, List.isEmpty_cons, Bool.false_eq_true, false_and, if_false,
      List.head?_cons, List.tail_cons, Prod.mk.injEq, Option.some.injEq] at hget
    obtain ⟨rfl, rfl, rfl⟩ := hget
    refine ho.perm fun h' _ => ?_
    rcases eq_or_ne h' h with rfl | hne
    · rw [if_pos rfl, hpool]
      exact List.perm_middle.symm
    · rw [if_neg hne]

/-- The allocator had nothing more to give. -/
lemma Owned.getPrealloc_none {arrays' : ℕ → List α} (ho : Owned n (fun h => rest h ++ pool h) arrays)
    (hget : getPrealloc nb (pool h) arrays = (none, pool', arrays')) :
    Owned n (fun h' => rest h' ++ Function.update pool h pool' h') arrays' := by
  have hpool : pool h = [] := by
    rcases hpool : pool h with _ | ⟨e₀, pool₀⟩
    · rfl
    · simp [Hash.getPrealloc, hpool] at hget
  have hsame : Function.update pool h [] = pool := by rw [← hpool, Function.update_eq_self]
  by_cases hnb : nb = 0
  · simp only [Hash.getPrealloc, hpool, hnb, ne_eq, not_true, and_false, if_false, List.tail_nil,
      Prod.mk.injEq] at hget
    obtain ⟨-, rfl, rfl⟩ := hget
    rw [hsame]
    exact ho
  · simp only [Hash.getPrealloc, hpool, List.isEmpty_nil, ne_eq, hnb, not_false_eq_true, and_self,
      if_true, Prod.mk.injEq, List.head?_eq_none_iff] at hget
    obtain ⟨harrays, htail, rfl⟩ := hget
    rw [harrays, List.tail_nil] at htail
    rw [← htail, hsame]
    exact ⟨ho.nodup, ho.disjoint, fun h hh k => ho.fresh h hh (k + 1), fun k => ho.nodup_arrays (k + 1),
      fun k k' hne => ho.disjoint_arrays (k + 1) (k' + 1) (by omega)⟩

/-- With an ample allocator there is always an entry. -/
lemma Owned.getPrealloc (ho : Owned n (fun h => rest h ++ pool h) arrays) (hh : h < n) (hnb : nb ≠ 0)
    (harrays : ∀ k, arrays k ≠ []) :
    ∃ e pool' arrays', getPrealloc nb (pool h) arrays = (some e, pool', arrays') ∧
      (∀ k, arrays' k ≠ []) ∧
      Owned n (fun h' => if h' = h then e :: rest h ++ pool' else rest h' ++ pool h') arrays' := by
  rcases hpool : pool h with _ | ⟨e, pool'⟩
  · rcases harr : arrays 0 with _ | ⟨e, pool'⟩
    · exact absurd harr (harrays 0)
    · have hget : Hash.getPrealloc nb (pool h) arrays = (some e, pool', fun k => arrays (k + 1)) := by
        simp [Hash.getPrealloc, hpool, hnb, harr]
      exact ⟨e, pool', _, hpool ▸ hget, fun k => harrays (k + 1), ho.getPrealloc_some hh hget⟩
  · have hget : Hash.getPrealloc nb (pool h) arrays = (some e, pool', arrays) := by
      simp [Hash.getPrealloc, hpool]
    exact ⟨e, pool', arrays, hpool ▸ hget, harrays, ho.getPrealloc_some hh hget⟩

/-- A new entry is in no bucket. -/
lemma Owned.notMem_rest {e : α}
    (ho : Owned n (fun h' => if h' = h then e :: rest h ++ pool' else rest h' ++ pool h') arrays) (hh : h < n) :
    ∀ h' < n, e ∉ rest h' := by
  intro h' hh' he
  rcases eq_or_ne h' h with rfl | hne
  · have hnd := ho.nodup h' hh
    simp only [if_true, List.cons_append, List.nodup_cons, List.mem_append, not_or] at hnd
    exact hnd.1.1 he
  · have hdisj := ho.disjoint h hh h' hh' hne.symm
    simp only [if_true, if_neg hne] at hdisj
    exact hdisj List.mem_cons_self (List.mem_append_left _ he)

end Owned

/-! ## Looking keys up -/

variable {κ ν ι δ : Type}

/-- What is assumed of the functions of a table: `compare_key` is an equivalence, and the two hash
functions do not tell equal keys apart. -/
structure HashParameter.Lawful (p : HashParameter κ) : Prop where
  refl : ∀ k, p.compareKey k k = 0
  symm : ∀ {k k'}, p.compareKey k k' = 0 → p.compareKey k' k = 0
  trans : ∀ {k k' k''}, p.compareKey k k' = 0 → p.compareKey k' k'' = 0 → p.compareKey k k'' = 0
  hashFuncKey_lt : ∀ k, (p.hashFuncKey k).toNat < p.indexSize.toNat
  hashFuncKey_congr : ∀ {k k'}, p.compareKey k k' = 0 → p.hashFuncKey k = p.hashFuncKey k'
  hashFuncRbt_congr : ∀ {k k'}, p.compareKey k k' = 0 → p.hashFuncRbt k = p.hashFuncRbt k'

lemma HashParameter.Lawful.hashval_lt {p : HashParameter κ} (hp : p.Lawful) (k : κ) :
    p.hashval k < p.indexSize.toNat := by
  have hlt := hp.hashFuncKey_lt k
  have hsize := p.indexSize.toNat_lt
  rw [HashParameter.hashval, UInt64.toNat_toUInt32, Nat.mod_eq_of_lt (by omega)]
  exact hlt

lemma HashParameter.Lawful.hashval_congr {p : HashParameter κ} (hp : p.Lawful) {k k' : κ}
    (h : p.compareKey k k' = 0) : p.hashval k = p.hashval k' := by
  rw [HashParameter.hashval, HashParameter.hashval, hp.hashFuncKey_congr h]

lemma HashParameter.Lawful.rbtValue_congr {p : HashParameter κ} (hp : p.Lawful) {k k' : κ}
    (h : p.compareKey k k' = 0) : p.rbtValue k = p.rbtValue k' := by
  rw [HashParameter.rbtValue, HashParameter.rbtValue, hp.hashFuncRbt_congr h]

/-- The entry of a list with a given key. -/
def lookup (p : HashParameter κ) (k : κ) (l : List (HashData κ ν)) : Option (HashData κ ν) :=
  l.find? fun d => p.compareKey k d.buffkey = 0

/-- No two entries have equal keys. -/
def Distinct (p : HashParameter κ) (l : List (HashData κ ν)) : Prop :=
  l.Pairwise fun d d' => p.compareKey d.buffkey d'.buffkey ≠ 0

section Lookup
variable {p : HashParameter κ} {l₁ l₂ : List (HashData κ ν)} {d : HashData κ ν}

lemma distinct_middle (hp : p.Lawful) : Distinct p (l₁ ++ d :: l₂) ↔
    (∀ d' ∈ l₁ ++ l₂, p.compareKey d.buffkey d'.buffkey ≠ 0) ∧ Distinct p (l₁ ++ l₂) := by
  have hsymm : ∀ {d d' : HashData κ ν}, p.compareKey d.buffkey d'.buffkey ≠ 0 →
      p.compareKey d'.buffkey d.buffkey ≠ 0 := fun hne heq => hne (hp.symm heq)
  rw [Distinct, List.pairwise_middle hsymm, List.pairwise_cons]
  rfl

lemma lookup_others (hp : p.Lawful) (hd : Distinct p (l₁ ++ d :: l₂)) {k : κ}
    (hk : p.compareKey k d.buffkey = 0) : lookup p k (l₁ ++ l₂) = none := by
  rw [lookup, List.find?_eq_none]
  intro d' hd' hk'
  rw [decide_eq_true_eq] at hk'
  exact ((distinct_middle hp).mp hd).1 d' hd' (hp.trans (hp.symm hk) hk')

/-- The lookup where the key comes late. -/
lemma lookup_middle (hp : p.Lawful) (hd : Distinct p (l₁ ++ d :: l₂)) (k : κ) :
    lookup p k (l₁ ++ d :: l₂) =
      if p.compareKey k d.buffkey = 0 then some d else lookup p k (l₁ ++ l₂) := by
  by_cases hk : p.compareKey k d.buffkey = 0
  · have hnone := lookup_others hp hd hk
    rw [lookup, List.find?_append, Option.or_eq_none_iff] at hnone
    rw [if_pos hk, lookup, List.find?_append, hnone.1, Option.none_or, List.find?_cons_of_pos]
    exact decide_eq_true hk
  · rw [if_neg hk, lookup, lookup, List.find?_append, List.find?_append, List.find?_cons_of_neg]
    simpa using hk

end Lookup

/-! ## The invariant -/

/-- The map that a table stands for: the stored key and the value of a key. -/
abbrev Map (κ ν : Type) := κ → Option (κ × ν)

/-- The data a node points to. -/
def HashTable.data (ht : HashTable κ ν ι δ) (i : ι) : HashData κ ν := ht.pdata (ht.node i).rbtOpaq

/-- The data of the nodes of a tree. -/
def HashTable.entries (ht : HashTable κ ν ι δ) (tree : CTree ι) : List (HashData κ ν) :=
  tree.toList.map ht.data

@[simp] lemma rbt_mem (ht : HashTable κ ν ι δ) (h : ℕ) : (ht.rbt h).mem = ht.node := rfl

/-- What is stored under one index. -/
structure BucketOk (ht : HashTable κ ν ι δ) (h : ℕ) (tree : CTree ι) : Prop where
  wf : Wf (ht.rbt h) tree
  value : ∀ i ∈ tree.toList, (ht.node i).rbtValue = ht.parameter.rbtValue (ht.data i).buffkey
  distinct : Distinct ht.parameter (ht.entries tree)

/-- The table, with the given trees under its indices, stands for the map `m`. -/
structure Holds (ht : HashTable κ ν ι δ) (trees : ℕ → CTree ι) (m : Map κ ν) : Prop where
  bucket : ∀ h < ht.parameter.indexSize.toNat, BucketOk ht h (trees h)
  nodes : Owned ht.parameter.indexSize.toNat
    (fun h => (trees h).toList ++ ht.nodePrealloc h) ht.nodeArrays
  pdatas : Owned ht.parameter.indexSize.toNat
    (fun h => ((trees h).toList.map fun i => (ht.node i).rbtOpaq) ++ ht.pdataPrealloc h)
    ht.pdataArrays
  map : ∀ k, m k = (lookup ht.parameter k (ht.entries (trees (ht.parameter.hashval k)))).map
    fun d => (d.buffkey, d.buffval)

/-- The allocator never answers `NULL`. -/
structure Supplied (ht : HashTable κ ν ι δ) : Prop where
  prealloc : ht.parameter.nbNodePrealloc ≠ 0
  nodes : ∀ k, ht.nodeArrays k ≠ []
  pdatas : ∀ k, ht.pdataArrays k ≠ []

/-! ## Key_Locate -/

section Locate
variable [DecidableEq ι]

/-- The walk over the nodes of one hash value finds the key or its absence. -/
lemma keyLocateLoop_spec {ht : HashTable κ ν ι δ} {h : ℕ} {tree : CTree ι} {k : κ} {fuel : ℕ}
    {l₁ l₂ : List ι} (hp : ht.parameter.Lawful) (hb : BucketOk ht h tree)
    (hlist : tree.toList = l₁ ++ l₂)
    (hge : ∀ i ∈ l₂, ht.parameter.rbtValue k ≤ (ht.node i).rbtValue) (hfuel : l₂.length < fuel) :
    keyLocateLoop ht (ht.rbt h) k (ht.parameter.rbtValue k) fuel l₂.head? =
      some (l₂.find? fun i => ht.parameter.compareKey k (ht.data i).buffkey = 0) := by
  induction fuel generalizing l₁ l₂ with
  | zero => omega
  | succ fuel ih =>
    cases l₂ with
    | nil => rfl
    | cons i l₂ =>
      have hlist' : tree.toList = (l₁ ++ [i]) ++ l₂ := by
        rw [hlist, List.append_assoc, List.singleton_append]
      simp only [List.length_cons] at hfuel
      have hrec := ih hlist' (fun j hj => hge j (List.mem_cons_of_mem i hj)) (by omega)
      simp only [keyLocateLoop, List.head?_cons]
      -- equal values need the keys to be compared
      by_cases hval : ((ht.rbt h).mem i).rbtValue = ht.parameter.rbtValue k
      · rw [if_pos hval]
        by_cases hk : ht.parameter.compareKey k (ht.pdata ((ht.rbt h).mem i).rbtOpaq).buffkey = 0
        · rw [if_pos hk, List.find?_cons_of_pos (by rw [decide_eq_true_eq]; exact hk)]
        · rw [if_neg hk, List.find?_cons_of_neg (by rw [decide_eq_true_eq]; exact hk),
            rbtIncrement_spec hb.wf hlist, Option.bind_some]
          exact hrec
      · -- the nodes from here on have larger values, hence other keys
        have hnone : ∀ j ∈ i :: l₂, ht.parameter.compareKey k (ht.data j).buffkey ≠ 0 := by
          intro j hj hk
          have hord := hb.wf.ordered
          rw [hlist, List.pairwise_append, List.pairwise_cons] at hord
          have hi := lt_of_le_of_ne (hge i List.mem_cons_self) (Ne.symm hval)
          have hij : (ht.node i).rbtValue ≤ (ht.node j).rbtValue := by
            rcases List.mem_cons.mp hj with rfl | hj
            · exact le_rfl
            · exact hord.2.1.1 j hj
          have hjk : (ht.node j).rbtValue = ht.parameter.rbtValue k := by
            rw [hb.value j (by rw [hlist]; exact List.mem_append_right _ hj), hp.rbtValue_congr hk]
          omega
        rw [if_neg hval]
        refine congrArg some (List.find?_eq_none.mpr fun j hj => ?_).symm
        simpa using hnone j hj

/-- `Key_Locate` finds the node of the tree whose key is equal. -/
theorem keyLocate_spec {ht : HashTable κ ν ι δ} {h : ℕ} {tree : CTree ι}
    (hp : ht.parameter.Lawful) (hb : BucketOk ht h tree) (k : κ) :
    keyLocate ht k h (ht.parameter.rbtValue k) =
      some (tree.toList.find? fun i => ht.parameter.compareKey k (ht.data i).buffkey = 0) := by
  have hnum := hb.wf.num
  have hother : ∀ i ∈ tree.toList, (ht.node i).rbtValue ≠ ht.parameter.rbtValue k →
      ht.parameter.compareKey k (ht.data i).buffkey ≠ 0 := by
    intro i hi hne hk
    exact hne ((hb.value i hi).trans (hp.rbtValue_congr hk).symm)
  simp only [keyLocate, rbtFindLeft_spec hb.wf, Option.bind_some]
  rcases hfind : tree.toList.find? ((ht.rbt h).hasValue (ht.parameter.rbtValue k)) with _ | i
  · rw [List.find?_eq_none] at hfind
    refine congrArg some (List.find?_eq_none.mpr fun i hi => ?_).symm
    simpa using hother i hi (by simpa [RbTree.hasValue] using hfind i hi)
  · obtain ⟨hval, l₁, l₂, hlist, hbefore⟩ := List.find?_eq_some_iff_append.mp hfind
    have hval' : (ht.node i).rbtValue = ht.parameter.rbtValue k := by
      simpa [RbTree.hasValue] using hval
    have hord := hb.wf.ordered
    rw [hlist, List.pairwise_append, List.pairwise_cons] at hord
    have hge : ∀ j ∈ i :: l₂, ht.parameter.rbtValue k ≤ (ht.node j).rbtValue := by
      intro j hj
      rcases List.mem_cons.mp hj with rfl | hj
      · exact hval'.ge
      · exact hval'.ge.trans (hord.2.1.1 j hj)
    have hfuel : (i :: l₂).length < (ht.rbt h).head.rbtNumNode + 1 := by
      rw [hnum, hlist, List.length_append]
      omega
    have hloop := keyLocateLoop_spec hp hb hlist hge hfuel
    have hskip : (l₁.find? fun i => ht.parameter.compareKey k (ht.data i).buffkey = 0) = none := by
      refine List.find?_eq_none.mpr fun j hj => ?_
      have hj' : (ht.node j).rbtValue ≠ ht.parameter.rbtValue k := by
        simpa [RbTree.hasValue] using hbefore j hj
      simpa using hother j (by rw [hlist]; exact List.mem_append_left _ hj) hj'
    rw [List.head?_cons] at hloop
    rw [hloop, hlist, List.find?_append, hskip, Option.none_or]

end Locate

end Ganesha.Hash
