import Mathlib.Data.List.Induction
import Ganesha.Library.Transition
import Ganesha.LRU.Queue

/-!
# Runs over an LRU list

The calls of `LRU/LRU_List.c` in any order, from `LRU_Init` on. An entry is given the number of the
`LRU_new_entry` that it comes from (`stamp`), so that the order of insertion can be told.
-/

namespace Ganesha.Lru
open Library.LinkedList Library.Transition Ganesha.Pools
open Ganesha.Hash (getPrealloc releasePrealloc)

variable {l l' : LruList} {es ps : List ℕ} {p q : ℕ} {σ : Type} {given : ℕ → List ℕ}

/-! ## Walking backwards -/

/-- Apply a function to some entries until it says to stop. -/
def applyAll (myfunc : ℕ → σ → Bool × σ) : List ℕ → σ → σ
  | [], s => s
  | p :: ps, s =>
    match myfunc p s with
    | (false, s) => s
    | (true, s) => applyAll myfunc ps s

/-- The loop runs from the last entry to the first. -/
lemma lruApplyLoop_eq {fuel : ℕ} {es₂ : List ℕ} (h : Represents l (es ++ es₂))
    (hfuel : es.length ≤ fuel) (myfunc : ℕ → σ → Bool × σ) (s : σ) :
    lruApplyLoop myfunc l fuel es.getLast? s =
      some (applyAll myfunc (es.filter fun p => !l.isInvalid p).reverse s) := by
  -- the loop takes entries off the end of `es`
  induction es using List.reverseRecOn generalizing es₂ fuel s with
  | nil =>
    cases fuel with
    | zero => rfl
    | succ fuel => rfl
  | append_singleton es p ih =>
    rw [List.length_append, List.length_singleton] at hfuel
    cases fuel with
    | zero => exact absurd hfuel (by omega)
    | succ fuel =>
      rw [List.append_assoc, List.singleton_append] at h
      have hprev : (l.entry p).prev = es.getLast? := by
        rw [h.linked.prev_eq]
        split_ifs with hes
        · rw [hes]
          rfl
        · rfl
      have hlen : es.length ≤ fuel := Nat.le_of_succ_le_succ hfuel
      have hrec := ih h hlen
      rw [List.getLast?_concat, lruApplyLoop, hprev, List.filter_append, List.reverse_append]
      by_cases hinv : (l.entry p).validState = .invalid
      · have hflag : l.isInvalid p = true := decide_eq_true hinv
        rw [if_neg (not_not.mpr hinv), hrec, List.filter_singleton, hflag]
        rfl
      · have hflag : l.isInvalid p = false := decide_eq_false hinv
        rw [if_pos hinv, List.filter_singleton, hflag]
        show _ = some (applyAll myfunc (p :: (es.filter _).reverse) s)
        rw [applyAll]
        rcases myfunc p s with ⟨_ | _, s'⟩
        · rfl
        · exact hrec s'

/-- `LRU_apply_function` ends and meets the valid entries before the MRU one. -/
theorem Represents.applyFunction (h : Represents l es) (myfunc : ℕ → σ → Bool × σ) (s : σ) :
    lruApplyFunction l myfunc s =
      some (.success, if UInt32.ofNat es.length = 0 then s
        else applyAll myfunc (es.dropLast.filter fun p => !l.isInvalid p).reverse s) := by
  unfold lruApplyFunction
  rw [h.nbEntry]
  by_cases hzero : UInt32.ofNat es.length = 0
  · rw [if_pos hzero, if_pos hzero]
  rw [if_neg hzero, if_neg hzero]
  have hne : es ≠ [] := fun heq => hzero (heq ▸ rfl)
  obtain ⟨es, m, rfl⟩ := (List.eq_nil_or_concat' es).resolve_left hne
  have hmru := h.mru
  rw [List.getLast?_concat] at hmru
  rw [hmru, List.dropLast_concat]
  show (if (l.entry m).prev = none then some (Status.success, s) else _) = _
  by_cases hes : es = []
  · rw [if_pos (h.prev_mru.mpr hes), hes]
    rfl
  · have hprev : (l.entry m).prev = es.getLast? := by
      rw [h.linked.prev_eq, if_neg hes]
    have hlen : es.length ≤ l.allocs := by
      have hle := h.length_le
      rw [List.length_append, List.length_singleton] at hle
      omega
    rw [if_neg (mt h.prev_mru.mp hes), hprev, lruApplyLoop_eq h hlen]
    rfl

/-! ## The calls -/

/-- The list, the number of the `LRU_new_entry` that gave an entry last, and the state that the
functions of the callers work on. -/
structure Trace (σ : Type) where
  list : LruList
  stamp : ℕ → ℕ
  env : σ

/-- The calls; `setData` is a caller that stores its data in an entry. -/
inductive Call (σ : Type)
  | newEntry
  | setData (pentry pdata : ℕ)
  | invalidate (pentry : ℕ)
  | gcInvalid (cleanEntry : ℕ → σ → Bool × σ)
  | invalidateByFunction (testfunc : ℕ → Bool)
  | applyFunction (myfunc : ℕ → σ → Bool × σ)

/-- The entry that `LRU_new_entry` gives gets the next number. -/
def Trace.stampNew (t : Trace σ) : Option ℕ → ℕ → ℕ
  | some p => Function.update t.stamp p t.list.allocs
  | none => t.stamp

/-- One call. `LRU_invalidate` is called with an entry of the list. -/
def step (t : Trace σ) : Call σ → Option (Trace σ)
  | .newEntry =>
    let r := lruNewEntry t.list
    some { t with list := r.2, stamp := t.stampNew r.1 }
  | .setData p d => some { t with list := t.list.setEntry p fun e => { e with pdata := d } }
  | .invalidate p =>
    if p ∈ entriesOf t.list then some { t with list := lruInvalidate t.list p } else none
  | .gcInvalid cleanEntry =>
    (lruGcInvalid (fun d s => some (cleanEntry d s)) t.list t.env).map fun r =>
      { t with list := r.2.1, env := r.2.2 }
  | .invalidateByFunction testfunc =>
    (lruInvalidateByFunction t.list testfunc).map fun r => { t with list := r.2 }
  | .applyFunction myfunc =>
    (lruApplyFunction t.list myfunc t.env).map fun r => { t with env := r.2 }

/-- `LRU_Init` has given the list. -/
def Trace.init (l : LruList) (env : σ) : Trace σ := ⟨l, fun _ => 0, env⟩

/-! ## What every call keeps -/

/-- The list is `es`, in the order of insertion, and the pool has the other entries. -/
structure Intact (given : ℕ → List ℕ) (t : Trace σ) (es : List ℕ) : Prop where
  represents : Represents t.list es
  ordered : es.Pairwise fun p q => t.stamp p < t.stamp q
  stamp_lt : ∀ p ∈ es, t.stamp p < t.list.allocs
  accounted : ∃ n, Accounted given n t.list.entryPrealloc t.list.arrays es

variable {t t' : Trace σ}

/-- A step that keeps the list, its pool and its count. -/
lemma Intact.of_same (h : Intact given t es) (hrep : Represents l es)
    (hallocs : l.allocs = t.list.allocs) (hpool : l.entryPrealloc = t.list.entryPrealloc)
    (harrays : l.arrays = t.list.arrays) : Intact given { t with list := l } es where
  represents := hrep
  ordered := h.ordered
  stamp_lt p hp := by
    show t.stamp p < l.allocs
    rw [hallocs]
    exact h.stamp_lt p hp
  accounted := by
    show ∃ n, Accounted given n l.entryPrealloc l.arrays es
    rw [hpool, harrays]
    exact h.accounted

lemma Intact.setEnv (h : Intact given t es) (s : σ) : Intact given { t with env := s } es :=
  ⟨h.represents, h.ordered, h.stamp_lt, h.accounted⟩

/-- A new list is intact. -/
theorem init_intact {nbEntryPrealloc nbCallGcInvalid : UInt32} {entry : ℕ → LruEntry}
    (hgiven : Fresh given) (env : σ)
    (h : lruInit nbEntryPrealloc nbCallGcInvalid entry given = some l) :
    Intact given (Trace.init l env) [] := by
  refine ⟨lruInit_represents hgiven h, List.Pairwise.nil, fun p hp => absurd hp List.not_mem_nil, 1,
    ?_, ?_⟩
  · unfold lruInit at h
    split_ifs at h
    rw [Trace.init, ← Option.some.inj h]
    funext k
    rw [Nat.add_comm]
  · unfold lruInit at h
    split_ifs at h
    rw [Trace.init, ← Option.some.inj h, List.append_nil]
    show (given 0).Perm (handedOut given 1)
    rw [handedOut, List.range_one, List.flatMap_singleton]

/-- The new entry has the latest stamp. -/
lemma Intact.stampNew (h : Intact given t es) (hp : p ∉ es) :
    (es ++ [p]).Pairwise (fun a b => t.stampNew (some p) a < t.stampNew (some p) b) ∧
      ∀ a ∈ es ++ [p], t.stampNew (some p) a < t.list.allocs + 1 := by
  have hold : ∀ a ∈ es, t.stampNew (some p) a = t.stamp a := by
    intro a ha
    have hne : a ≠ p := fun heq => hp (heq ▸ ha)
    exact Function.update_of_ne hne _ _
  have hnew : t.stampNew (some p) p = t.list.allocs := Function.update_self _ _ _
  constructor
  · rw [List.pairwise_append]
    refine ⟨?_, List.pairwise_singleton _ p, ?_⟩
    · refine h.ordered.imp_of_mem fun {a b} ha hb hab => ?_
      rw [hold a ha, hold b hb]
      exact hab
    · intro a ha b hb
      rw [List.mem_singleton.mp hb, hnew, hold a ha]
      exact h.stamp_lt a ha
  · intro a ha
    rcases List.mem_append.mp ha with ha | ha
    · rw [hold a ha]
      exact Nat.lt_succ_of_lt (h.stamp_lt a ha)
    · rw [List.mem_singleton.mp ha, hnew]
      exact Nat.lt_succ_self _

/-- `LRU_new_entry`. -/
theorem Intact.newEntry (h : Intact given t es) (hstep : step t .newEntry = some t') :
    ∃ es', Intact given t' es' := by
  rw [← Option.some.inj hstep]
  obtain ⟨n, hacc⟩ := h.accounted
  have hget := hacc.get t.list.nbEntryPrealloc
  have hrep := h.represents.newEntry
  unfold lruNewEntry at hrep ⊢
  rcases hpre : getPrealloc t.list.nbEntryPrealloc t.list.entryPrealloc t.list.arrays with
    ⟨_ | p, pool, arrays⟩
  · rw [hpre] at hget hrep
    exact ⟨es, hrep.1, h.ordered, h.stamp_lt, hget⟩
  · rw [hpre] at hget hrep
    obtain ⟨hp, hrep, -⟩ := hrep
    obtain ⟨hordered, hlt⟩ := h.stampNew hp
    have hfields : (lruLink { t.list with entryPrealloc := pool, arrays } p).entryPrealloc = pool ∧
        (lruLink { t.list with entryPrealloc := pool, arrays } p).arrays = arrays := by
      dsimp only [lruLink]
      rw [setEntryAt_eq]
      exact ⟨rfl, rfl⟩
    refine ⟨es ++ [p], hrep, hordered, hlt, ?_⟩
    show ∃ n, Accounted given n (lruLink { t.list with entryPrealloc := pool, arrays } p).entryPrealloc
      (lruLink { t.list with entryPrealloc := pool, arrays } p).arrays (es ++ [p])
    rw [hfields.1, hfields.2]
    exact hget

/-- Invalidation touches no pool. -/
lemma invalidateAll_same :
    (Lru.invalidateAll l ps).allocs = l.allocs ∧
      (Lru.invalidateAll l ps).entryPrealloc = l.entryPrealloc ∧
      (Lru.invalidateAll l ps).arrays = l.arrays := by
  induction ps generalizing l with
  | nil => exact ⟨rfl, rfl, rfl⟩
  | cons p ps ih =>
    have hone : (lruInvalidate l p).allocs = l.allocs ∧
        (lruInvalidate l p).entryPrealloc = l.entryPrealloc ∧
        (lruInvalidate l p).arrays = l.arrays := by
      unfold lruInvalidate
      split_ifs
      · exact ⟨rfl, rfl, rfl⟩
      · exact ⟨rfl, rfl, rfl⟩
    have hrec := @ih (lruInvalidate l p)
    rw [hone.1, hone.2.1, hone.2.2] at hrec
    exact hrec

lemma Intact.invalidateAll (h : Intact given t es) (hps : ∀ p ∈ ps, p ∈ es) :
    Intact given { t with list := Lru.invalidateAll t.list ps } es :=
  h.of_same (h.represents.invalidateAll hps) invalidateAll_same.1 invalidateAll_same.2.1
    invalidateAll_same.2.2

/-! ## Collecting -/

/-- The invalid entries other than the MRU one. -/
def LruList.dead (l : LruList) (p : ℕ) : Bool := l.isInvalid p && decide (l.mru ≠ some p)

/-- What is collected is what is dead. -/
lemma Represents.collectable_eq (h : Represents l es) : l.collectable es = es.filter l.dead := by
  rcases List.eq_nil_or_concat' es with rfl | ⟨es, m, rfl⟩
  · rfl
  · have hmru := h.mru
    rw [List.getLast?_concat] at hmru
    have hlast : l.dead m = false := by
      rw [LruList.dead, decide_eq_false (not_not.mpr hmru), Bool.and_false]
    rw [LruList.collectable, List.dropLast_concat, List.filter_append, List.filter_singleton, hlast]
    refine (List.filter_congr fun p hp => ?_).trans (List.append_nil _).symm
    have hne : l.mru ≠ some p := by
      rw [hmru]
      intro heq
      have hnd := (List.nodup_append.mp h.nodup).2.2
      exact hnd p hp m (List.mem_singleton_self m) (Option.some.inj heq).symm
    rw [LruList.dead, decide_eq_true hne, Bool.and_true]

lemma filter_notMem_filter (es : List ℕ) (f : ℕ → Bool) :
    (es.filter fun p => p ∉ es.filter f) = es.filter fun p => !f p := by
  apply List.filter_congr
  intro p hp
  simp [hp]

/-- The collected entries go back to the pool. -/
lemma unlinkAll_same :
    (Lru.unlinkAll l ps).allocs = l.allocs ∧
      (Lru.unlinkAll l ps).entryPrealloc = ps.reverse ++ l.entryPrealloc ∧
      (Lru.unlinkAll l ps).arrays = l.arrays := by
  induction ps generalizing l with
  | nil => exact ⟨rfl, rfl, rfl⟩
  | cons p ps ih =>
    have hone : (lruUnlink l p).allocs = l.allocs ∧
        (lruUnlink l p).entryPrealloc = p :: l.entryPrealloc ∧
        (lruUnlink l p).arrays = l.arrays := by
      dsimp only [lruUnlink]
      rw [setEntryAt_eq, setEntryAt_eq]
      exact ⟨rfl, rfl, rfl⟩
    have hrec := @ih (lruUnlink l p)
    rw [hone.1, hone.2.1, hone.2.2] at hrec
    rw [List.reverse_cons, List.append_assoc]
    exact hrec

/-- A collection keeps the rest of the list. -/
lemma Intact.collect (h : Intact given t es) :
    Intact given { t with list := Lru.unlinkAll t.list (t.list.collectable es) }
      (es.filter fun p => !t.list.dead p) := by
  have hrep := h.represents.collect
  have hkept := filter_notMem_filter es t.list.dead
  rw [← h.represents.collectable_eq] at hkept
  have hmem : ∀ p ∈ t.list.collectable es, p ∈ es := fun p hp => (h.represents.mem_collectable hp).1
  have hnd : (t.list.collectable es).Nodup :=
    ((List.dropLast_sublist es).nodup h.represents.nodup).filter _
  obtain ⟨n, hacc⟩ := h.accounted
  have hreleased := hacc.releaseAll h.represents.nodup hnd hmem
  obtain ⟨hallocs, hpool, harrays⟩ := @unlinkAll_same t.list (t.list.collectable es)
  rw [hkept] at hrep hreleased
  refine ⟨hrep, h.ordered.sublist List.filter_sublist, fun p hp => ?_, n, ?_⟩
  · show t.stamp p < (Lru.unlinkAll t.list (t.list.collectable es)).allocs
    rw [hallocs]
    exact h.stamp_lt p (List.mem_of_mem_filter hp)
  · show Accounted given n (Lru.unlinkAll t.list (t.list.collectable es)).entryPrealloc
      (Lru.unlinkAll t.list (t.list.collectable es)).arrays _
    rw [hpool, harrays]
    exact hreleased

/-- A clean-up that always answers. -/
lemma cleanAll_total (cleanEntry : ℕ → σ → Bool × σ) (ds : List ℕ) (rc : Status) (s : σ) :
    ∃ rc', cleanAll (fun d s => some (cleanEntry d s)) ds rc s =
      some (rc', ds.foldl (fun s d => (cleanEntry d s).2) s) ∧
      ((∀ d s, (cleanEntry d s).1 = true) → rc' = rc) := by
  induction ds generalizing rc s with
  | nil => exact ⟨rc, rfl, fun _ => rfl⟩
  | cons d ds ih =>
    obtain ⟨rc', hrec, hrc⟩ :=
      ih (if (cleanEntry d s).1 then rc else .badReleaseEntry) (cleanEntry d s).2
    refine ⟨rc', hrec, fun hok => ?_⟩
    rw [hrc hok, if_pos (hok d s)]

/-- `LRU_gc_invalid` has nothing to do or not been called often enough. -/
def LruList.gcIdle (l : LruList) : Bool :=
  decide (l.nbInvalid = 0) || decide (l.nbCallGc < l.nbCallGcInvalid)

/-- What `LRU_gc_invalid` leaves. -/
theorem Represents.gcInvalid_eq (h : Represents l es) (cleanEntry : ℕ → σ → Bool × σ) (s : σ) :
    ∃ rc, lruGcInvalid (fun d s => some (cleanEntry d s)) l s =
      some (if l.gcIdle then (.success, l, s) else
        (rc, Lru.unlinkAll l (l.collectable es),
          ((es.filter l.dead).map fun p => (l.entry p).pdata).foldl
            (fun s d => (cleanEntry d s).2) s)) ∧
      ((∀ d s, (cleanEntry d s).1 = true) → rc = .success) := by
  by_cases hnb : l.nbInvalid = 0
  · refine ⟨.success, ?_, fun _ => rfl⟩
    rw [lruGcInvalid, if_pos hnb, LruList.gcIdle, decide_eq_true hnb]
    rfl
  by_cases hcalls : l.nbCallGc < l.nbCallGcInvalid
  · refine ⟨.success, ?_, fun _ => rfl⟩
    have hidle : l.gcIdle = true := by
      rw [LruList.gcIdle, decide_eq_true hcalls, Bool.or_true]
    rw [lruGcInvalid, if_neg hnb, hidle]
    cases hmru : l.mru with
    | none =>
      -- an empty list counts no invalid entry
      have hes : es = [] := List.getLast?_eq_none_iff.mp (h.mru.symm.trans hmru)
      have hzero := h.nbInvalid
      rw [hes] at hzero
      exact absurd hzero hnb
    | some m =>
      show (if _ then _ else if _ then _ else _) = _
      rw [if_pos hcalls, ite_self]
      rfl
  · have hidle : l.gcIdle = false := by
      rw [LruList.gcIdle, decide_eq_false hnb, decide_eq_false hcalls]
      rfl
    obtain ⟨rc, hclean, hrc⟩ := cleanAll_total cleanEntry
      ((l.collectable es).map fun p => (l.entry p).pdata) .success s
    refine ⟨rc, ?_, hrc⟩
    rw [h.gcInvalid (h.nbInvalid ▸ hnb) hcalls, hclean, hidle, h.collectable_eq]
    rfl

/-! ## Runs -/

/-- Every call keeps the list intact. -/
theorem Intact.step (h : Intact given t es) {c : Call σ} (hstep : step t c = some t') :
    ∃ es', Intact given t' es' := by
  cases c with
  | newEntry => exact h.newEntry hstep
  | setData p d =>
    rw [← Option.some.inj hstep]
    exact ⟨es, h.of_same (h.represents.setData p d) rfl rfl rfl⟩
  | invalidate p =>
    simp only [Lru.step, Option.ite_none_right_eq_some, Option.some.injEq] at hstep
    obtain ⟨hp, rfl⟩ := hstep
    rw [h.represents.entriesOf_eq] at hp
    have hps : ∀ q ∈ [p], q ∈ es := fun q hq => List.mem_singleton.mp hq ▸ hp
    exact ⟨es, h.invalidateAll hps⟩
  | gcInvalid cleanEntry =>
    obtain ⟨rc, hgc, -⟩ := h.represents.gcInvalid_eq cleanEntry t.env
    rw [Lru.step, hgc, Option.map_some] at hstep
    rw [← Option.some.inj hstep]
    split_ifs
    · exact ⟨es, h⟩
    · exact ⟨_, h.collect.setEnv _⟩
  | invalidateByFunction testfunc =>
    rw [Lru.step, h.represents.invalidateByFunction, Option.map_some] at hstep
    rw [← Option.some.inj hstep]
    split_ifs
    · exact ⟨es, h⟩
    · refine ⟨es, h.invalidateAll fun p hp => ?_⟩
      exact List.dropLast_subset es (List.mem_of_mem_filter hp)
  | applyFunction myfunc =>
    rw [Lru.step, h.represents.applyFunction, Option.map_some] at hstep
    rw [← Option.some.inj hstep]
    exact ⟨es, h.setEnv _⟩

/-- Every call ends. -/
theorem Intact.total (h : Intact given t es) (c : Call σ)
    (hc : ∀ p, c = .invalidate p → p ∈ es) : (Lru.step t c).isSome := by
  cases c with
  | newEntry => rfl
  | setData p d => rfl
  | invalidate p =>
    rw [Lru.step, h.represents.entriesOf_eq, if_pos (hc p rfl)]
    rfl
  | gcInvalid cleanEntry =>
    obtain ⟨rc, hgc, -⟩ := h.represents.gcInvalid_eq cleanEntry t.env
    rw [Lru.step, hgc]
    rfl
  | invalidateByFunction testfunc =>
    rw [Lru.step, h.represents.invalidateByFunction]
    rfl
  | applyFunction myfunc =>
    rw [Lru.step, h.represents.applyFunction]
    rfl

/-- What `LRU_gc_invalid` does to a list with the entries `es` when the function that cleans
succeeds: the dead entries leave the list, each is cleaned once, and the others keep their order. -/
def Collects (l : LruList) (es : List ℕ) (cleanEntry : ℕ → σ → Bool × σ) (s : σ) : Prop :=
  ∃ l', lruGcInvalid (fun d s => some (cleanEntry d s)) l s =
      some (.success, l', ((es.filter l.dead).map fun p => (l.entry p).pdata).foldl
        (fun s d => (cleanEntry d s).2) s) ∧
    Represents l' (es.filter fun p => !l.dead p)

/-- In every state of a run from `LRU_Init` the entries are linked both ways in the order of their
insertion, the counters count them, and each entry that the allocator gave is once in the pool or
the list. Every call ends. `LRU_gc_invalid` collects when it has been called for often enough. -/
theorem runs_intact {nbEntryPrealloc nbCallGcInvalid : UInt32} {entry : ℕ → LruEntry} {env : σ}
    (hgiven : Fresh given) (hinit : lruInit nbEntryPrealloc nbCallGcInvalid entry given = some l)
    (hrun : Reachable Lru.step (Trace.init l env) t) :
    ∃ es, Intact given t es ∧
      (∀ c, (∀ p, c = .invalidate p → p ∈ es) → (Lru.step t c).isSome) ∧
      ∀ cleanEntry : ℕ → σ → Bool × σ, (∀ d s, (cleanEntry d s).1 = true) →
        if t.list.gcIdle then
          lruGcInvalid (fun d s => some (cleanEntry d s)) t.list t.env =
            some (.success, t.list, t.env)
        else Collects t.list es cleanEntry t.env := by
  have hintact : ∃ es, Intact given t es := by
    refine hrun.invariant (I := fun t => ∃ es, Intact given t es) ⟨[], init_intact hgiven env hinit⟩ ?_
    rintro t c t' ⟨es, h⟩ - hstep
    exact h.step hstep
  obtain ⟨es, h⟩ := hintact
  refine ⟨es, h, fun c => h.total c, fun cleanEntry hok => ?_⟩
  obtain ⟨rc, hgc, hrc⟩ := h.represents.gcInvalid_eq cleanEntry t.env
  split_ifs with hidle
  · rw [hgc, if_pos hidle]
  · rw [if_neg hidle, hrc hok] at hgc
    exact ⟨_, hgc, h.collect.represents⟩

/-- The arrays of a pool of two entries each. -/
def pairs (k : ℕ) : List ℕ := [2 * k + 1, 2 * k + 2]

lemma pairs_fresh : Fresh pairs where
  nodup k := by
    rw [pairs, List.nodup_cons, List.mem_singleton]
    exact ⟨by omega, List.nodup_singleton _⟩
  disjoint k k' hne p hp hp' := by
    simp only [pairs, List.mem_cons, List.not_mem_nil, or_false] at hp hp'
    omega

/-- Record what is cleaned. -/
def record (d : ℕ) (s : List ℕ) : Bool × List ℕ := (true, s ++ [d])

/-- Fill two arrays, collect the first two entries and take them again. -/
def reuse : List (Call (List ℕ)) :=
  [.newEntry, .setData 1 10, .newEntry, .setData 2 20, .newEntry, .invalidate 1,
    .invalidateByFunction fun p => decide (p = 2), .applyFunction record, .gcInvalid record, .newEntry,
    .newEntry]

/-- A run in which a collected entry is used again. -/
theorem runs_intact_reuse :
    ∃ (l : LruList) (t : Trace (List ℕ)),
      lruInit 2 2 (fun _ => ⟨none, none, .blank, 0⟩) pairs = some l ∧
      execute Lru.step (Trace.init l []) reuse = some t ∧
      entriesOf t.list = [3, 2, 1] ∧ t.env = [10, 20] ∧ Intact pairs t [3, 2, 1] := by
  have hrun : ((lruInit 2 2 (fun _ => ⟨none, none, .blank, 0⟩) pairs).bind fun l =>
      execute Lru.step (Trace.init l []) reuse).any (fun t =>
        decide (entriesOf t.list = [3, 2, 1]) && decide (t.env = [10, 20])) = true := by
    decide +kernel
  rw [Option.any_eq_true] at hrun
  obtain ⟨t, ht, hvalues⟩ := hrun
  simp only [Bool.and_eq_true, decide_eq_true_eq] at hvalues
  obtain ⟨l, hl, ht⟩ := Option.bind_eq_some_iff.mp ht
  obtain ⟨es, h, -⟩ := runs_intact pairs_fresh hl (reachable_of_execute ht)
  have hes : es = [3, 2, 1] := h.represents.entriesOf_eq.symm.trans hvalues.1
  exact ⟨l, t, hl, ht, hvalues.1, hvalues.2, hes ▸ h⟩

/-- Before `nb_call_gc_invalid` calls of `LRU_new_entry` the invalid entries stay. -/
theorem not_collects_before_30_calls :
    ∃ (l : LruList) (t : Trace (List ℕ)),
      lruInit 2 30 (fun _ => ⟨none, none, .blank, 0⟩) pairs = some l ∧
      execute Lru.step (Trace.init l []) [.newEntry, .newEntry, .invalidate 1] = some t ∧
      entriesOf t.list = [1, 2] ∧ t.list.dead 1 = true ∧
      ¬ Collects t.list (entriesOf t.list) record t.env := by
  refine ⟨_, _, rfl, rfl, rfl, rfl, ?_⟩
  rintro ⟨l', hgc, hrep⟩
  have hlist := congrArg (fun r => r.map fun r => entriesOf r.2.1) hgc
  have hentries := hrep.entriesOf_eq
  simp only [Option.map_some] at hlist
  rw [hentries] at hlist
  revert hlist
  decide

/-! ## As a queue -/

/-- The runs of the threads that share a list: an item is posted while it does not wait already, a
waiting one is marked as done, and the list is collected. -/
inductive QueueRun : LruList → Queue ℕ → Prop
  | init {nbEntryPrealloc nbCallGcInvalid : UInt32} {entry : ℕ → LruEntry} {arrays : ℕ → List ℕ}
      {l : LruList} : Fresh arrays →
      lruInit nbEntryPrealloc nbCallGcInvalid entry arrays = some l → QueueRun l .empty
  | newEntry {l l' : LruList} {q : Queue ℕ} {p d : ℕ} : QueueRun l q → d ∉ q.valid →
      lruNewEntry l = (some p, l') →
      QueueRun (l'.setEntry p fun e => { e with pdata := d }) (q.newEntry d)
  | invalidate {l : LruList} {q : Queue ℕ} {p : ℕ} : QueueRun l q → p ∈ entriesOf l →
      l.isInvalid p = false → QueueRun (lruInvalidate l p) (q.invalidate (l.entry p).pdata)
  | gcInvalid {l l' : LruList} {q : Queue ℕ} {σ : Type} {cleanEntry : ℕ → σ → Option (Bool × σ)}
      {s s' : σ} {rc : Status} : QueueRun l q → (entriesOf l).length < 2 ^ 32 →
      lruGcInvalid cleanEntry l s = some (rc, l', s') → QueueRun l' (q.gcInvalid l.nbCallGcInvalid)

lemma queue_valid : (l.queue es).valid =
    (es.filter fun p => !l.isInvalid p).map fun p => (l.entry p).pdata := by
  rw [Queue.valid, LruList.queue, List.filter_map, List.map_map]
  rfl

/-- Every run has its list of entries, the queue being the valid ones. -/
lemma QueueRun.represents {k : Queue ℕ} (h : QueueRun l k) :
    ∃ es, Represents l es ∧ l.queue es = k ∧ k.valid.Nodup := by
  induction h with
  | init harrays hinit =>
    refine ⟨[], lruInit_represents harrays hinit, ?_, List.nodup_nil⟩
    unfold lruInit at hinit
    split_ifs at hinit
    rw [← Option.some.inj hinit]
    rfl
  | newEntry _ hd hnew ih =>
    obtain ⟨es, hrep, rfl, hnd⟩ := ih
    obtain ⟨hrep', hqueue⟩ := hrep.queue_newEntry hnew _
    refine ⟨_, hrep', hqueue, ?_⟩
    rw [valid_newEntry, ← List.concat_eq_append]
    exact hnd.concat hd
  | @invalidate l _ p _ hp hvalid ih =>
    obtain ⟨es, hrep, rfl, hnd⟩ := ih
    rw [hrep.entriesOf_eq] at hp
    -- the waiting items differ, so the item of a valid entry names it
    have hdata : ∀ r ∈ es, l.isInvalid r = false → (l.entry r).pdata = (l.entry p).pdata → r = p := by
      rw [queue_valid] at hnd
      intro r hr hr' heq
      exact List.inj_on_of_nodup_map hnd (by simp [hr, hr']) (by simp [hp, hvalid]) heq
    obtain ⟨hrep', hqueue⟩ := hrep.queue_invalidate hp hdata
    refine ⟨es, hrep', hqueue, ?_⟩
    rw [valid_invalidate]
    exact hnd.filter _
  | gcInvalid _ hsmall hgc ih =>
    obtain ⟨es, hrep, rfl, hnd⟩ := ih
    rw [hrep.entriesOf_eq] at hsmall
    obtain ⟨es', hrep', hqueue⟩ := hrep.queue_gcInvalid hsmall hgc
    refine ⟨es', hrep', hqueue, ?_⟩
    rwa [valid_gcInvalid]

/-- In every run the list is the queue, and the items that wait are those posted and not done. -/
theorem queue_of_run {k : Queue ℕ} (h : QueueRun l k) :
    Represents l (entriesOf l) ∧ l.queue (entriesOf l) = k ∧
      ((entriesOf l).filter fun p => !l.isInvalid p).map (fun p => (l.entry p).pdata) = k.valid := by
  obtain ⟨es, hrep, rfl, -⟩ := h.represents
  rw [hrep.entriesOf_eq]
  exact ⟨hrep, rfl, queue_valid.symm⟩

/-- Two items, the older one done. -/
theorem queue_of_run_two : ∃ l : LruList, entriesOf l = [1, 2] ∧ l.isInvalid 1 = true ∧
    ((entriesOf l).filter fun p => !l.isInvalid p).map (fun p => (l.entry p).pdata) = [8] := by
  have hinit := @QueueRun.init 2 9 (fun _ => ⟨none, none, .blank, 0⟩) pairs _ pairs_fresh rfl
  have hfirst := hinit.newEntry (p := 1) (d := 7) (by decide) rfl
  have hsecond := hfirst.newEntry (p := 2) (d := 8) (by decide) rfl
  have hdone := hsecond.invalidate (p := 1) (by decide) (by decide)
  exact ⟨_, by decide, by decide, (queue_of_run hdone).2.2⟩

end Ganesha.Lru
