import Ganesha.LRU.Contents

/-!
# An LRU list as a queue

The threads that hand work to each other through an LRU list use it as a queue: `LRU_new_entry` puts
an item at its end, `LRU_invalidate` marks it as done, and `LRU_gc_invalid` drops the marked items
before the last one.
-/

namespace Ganesha.Lru

variable {α : Type}

/-- The items of a list with whether their entries are valid, oldest first, and `nb_call_gc`. -/
structure Queue (α : Type) where
  entries : List (α × Bool)
  nbCallGc : UInt32
  deriving DecidableEq

/-- A list without entries. -/
def Queue.empty : Queue α := ⟨[], 0⟩

/-- `LRU_new_entry`, with the data that the caller stores in it. -/
def Queue.newEntry (q : Queue α) (a : α) : Queue α := ⟨q.entries ++ [(a, true)], q.nbCallGc + 1⟩

/-- `LRU_invalidate` of the entry with the data `a`. -/
def Queue.invalidate [DecidableEq α] (q : Queue α) (a : α) : Queue α :=
  { q with entries := q.entries.map fun e => if e.1 = a then (e.1, false) else e }

/-- What `LRU_gc_invalid` leaves. -/
def Queue.keep (entries : List (α × Bool)) : List (α × Bool) :=
  entries.dropLast.filter (·.2) ++ entries.getLast?.toList

/-- `LRU_gc_invalid`. -/
def Queue.gcInvalid (q : Queue α) (nbCallGcInvalid : UInt32) : Queue α :=
  if q.nbCallGc < nbCallGcInvalid then q else { q with entries := Queue.keep q.entries }

/-- The items that are not done. -/
def Queue.valid (q : Queue α) : List α := (q.entries.filter (·.2)).map Prod.fst

variable {q : Queue α} {a b : α}

@[simp] lemma valid_newEntry : (q.newEntry a).valid = q.valid ++ [a] := by
  simp [Queue.valid, Queue.newEntry]

/-- The queue without the entry. -/
@[simp] lemma valid_invalidate [DecidableEq α] : (q.invalidate a).valid = q.valid.filter (· ≠ a) := by
  rw [Queue.valid, Queue.valid, Queue.invalidate]
  induction q.entries with
  | nil => rfl
  | cons e es ih =>
    obtain ⟨b, ok⟩ := e
    rw [List.map_cons, List.filter_cons, List.filter_cons]
    by_cases hb : b = a
    · cases ok with
      | false => simpa [hb] using ih
      | true => simpa [hb] using ih
    · cases ok with
      | false => simpa [hb] using ih
      | true => simpa [hb] using ih

lemma keep_of_valid {entries : List (α × Bool)} (h : ∀ e ∈ entries, e.2 = true) :
    Queue.keep entries = entries := by
  rcases List.eq_nil_or_concat' entries with rfl | ⟨es, e, rfl⟩
  · rfl
  · rw [Queue.keep, List.dropLast_concat, List.getLast?_concat, List.filter_eq_self.mpr fun e' he' =>
      h e' (List.mem_append_left _ he')]
    rfl

lemma filter_keep (entries : List (α × Bool)) :
    (Queue.keep entries).filter (·.2) = entries.filter (·.2) := by
  rcases List.eq_nil_or_concat' entries with rfl | ⟨es, e, rfl⟩
  · rfl
  · rw [Queue.keep, List.dropLast_concat, List.getLast?_concat, List.filter_append, List.filter_append,
      List.filter_filter]
    simp

@[simp] lemma valid_gcInvalid {n : UInt32} : (q.gcInvalid n).valid = q.valid := by
  rw [Queue.gcInvalid]
  split_ifs
  · rfl
  · rw [Queue.valid, Queue.valid, filter_keep]

/-! ## The lists of entries -/

variable {l l' : LruList} {es : List ℕ} {p : ℕ}

/-- The queue that the entries `es` of a list are. -/
def LruList.queue (l : LruList) (es : List ℕ) : Queue ℕ :=
  ⟨es.map fun p => ((l.entry p).pdata, !l.isInvalid p), l.nbCallGc⟩

/-- A new entry is the last of the queue. -/
lemma Represents.queue_newEntry (h : Represents l es) (hnew : lruNewEntry l = (some p, l')) (d : ℕ) :
    Represents (l'.setEntry p fun e => { e with pdata := d }) (es ++ [p]) ∧
      (l'.setEntry p fun e => { e with pdata := d }).queue (es ++ [p]) = (l.queue es).newEntry d := by
  have hspec := h.newEntry
  rw [hnew] at hspec
  obtain ⟨hp, hrep, hpushed⟩ := hspec
  have hcalls : l'.nbCallGc = l.nbCallGc + 1 := by
    unfold lruNewEntry at hnew
    split at hnew
    · cases hnew
    · obtain ⟨-, rfl⟩ := Prod.mk.inj hnew
      rfl
  refine ⟨hrep.setData p d, ?_⟩
  have hstate : ∀ q, ((l'.setEntry p fun e => { e with pdata := d }).entry q).validState =
      (l'.entry q).validState := by
    intro q
    rw [setEntry_entry]
    split_ifs <;> rfl
  have hold : ∀ q ∈ es, (((l'.setEntry p fun e => { e with pdata := d }).entry q).pdata,
      !(l'.setEntry p fun e => { e with pdata := d }).isInvalid q) =
        ((l.entry q).pdata, !l.isInvalid q) := by
    intro q hq
    have hne : q ≠ p := fun heq => hp (heq ▸ hq)
    rw [LruList.isInvalid, LruList.isInvalid, hstate, hpushed.validState, if_neg hne, setEntry_entry,
      if_neg hne, hpushed.pdata]
  have hself : ((l'.setEntry p fun e => { e with pdata := d }).entry p).pdata = d := by
    rw [setEntry_entry, if_pos rfl]
  have hvalid : (l'.setEntry p fun e => { e with pdata := d }).isInvalid p = false := by
    rw [LruList.isInvalid, hstate, hpushed.validState, if_pos rfl]
    rfl
  rw [LruList.queue, Queue.newEntry, List.map_append, List.map_singleton, List.map_congr_left hold,
    hself, hvalid]
  exact congrArg (Queue.mk _) hcalls

/-- An invalidated entry leaves the queue. -/
lemma Represents.queue_invalidate (h : Represents l es) (hp : p ∈ es)
    (hdata : ∀ q ∈ es, l.isInvalid q = false → (l.entry q).pdata = (l.entry p).pdata → q = p) :
    Represents (lruInvalidate l p) es ∧
      (lruInvalidate l p).queue es = (l.queue es).invalidate (l.entry p).pdata := by
  refine ⟨h.invalidate hp, ?_⟩
  have hcalls : (lruInvalidate l p).nbCallGc = l.nbCallGc := by
    unfold lruInvalidate
    split_ifs
    · rfl
    · rfl
  rw [LruList.queue, LruList.queue, Queue.invalidate, List.map_map, hcalls]
  congr 1
  refine List.map_congr_left fun q hq => ?_
  rw [LruList.isInvalid, lruInvalidate_validState, lruInvalidate_entry.2.2]
  by_cases hqp : q = p
  · subst hqp
    simp
  · by_cases heq : (l.entry q).pdata = (l.entry p).pdata
    · -- another entry with the same data is done already
      have hdone : (l.entry q).validState = .invalid := by
        simpa [LruList.isInvalid] using fun h => hqp (hdata q hq h heq)
      simp [hqp, heq, hdone]
    · simp [hqp, heq, LruList.isInvalid]

/-- Collection keeps the counter. -/
lemma unlinkAll_nbCallGc {ps : List ℕ} : (Lru.unlinkAll l ps).nbCallGc = l.nbCallGc := by
  induction ps generalizing l with
  | nil => rfl
  | cons p ps ih =>
    refine ih.trans ?_
    dsimp only [lruUnlink]
    rw [setEntryAt_eq, setEntryAt_eq]

/-- The collection keeps the queue. -/
lemma Represents.queue_collect (h : Represents l es) :
    (Lru.unlinkAll l (l.collectable es)).queue (es.filter fun p => p ∉ l.collectable es) =
      { l.queue es with entries := Queue.keep (l.queue es).entries } := by
  have hentry : ∀ q, ((Lru.unlinkAll l (l.collectable es)).entry q).pdata = (l.entry q).pdata ∧
      (Lru.unlinkAll l (l.collectable es)).isInvalid q = l.isInvalid q := by
    intro q
    rw [LruList.isInvalid, LruList.isInvalid, unlinkAll_entry.1]
    exact ⟨unlinkAll_entry.2, rfl⟩
  rw [LruList.queue, LruList.queue, unlinkAll_nbCallGc]
  simp only [hentry]
  congr 1
  rcases List.eq_nil_or_concat' es with rfl | ⟨es, m, rfl⟩
  · rfl
  have hm : m ∉ es := by
    have hnd := h.nodup
    rw [← List.concat_eq_append, List.nodup_concat] at hnd
    exact hnd.1
  have hfront : es.filter (fun q => q ∉ l.collectable (es ++ [m])) = es.filter fun q => !l.isInvalid q := by
    refine List.filter_congr fun q hq => ?_
    rw [LruList.collectable, List.dropLast_concat]
    simp [hq]
  have hlast : m ∉ l.collectable (es ++ [m]) := by
    rw [LruList.collectable, List.dropLast_concat]
    exact fun hmem => hm (List.mem_of_mem_filter hmem)
  rw [Queue.keep, List.map_append, List.map_singleton, List.dropLast_concat, List.getLast?_concat,
    List.filter_append, hfront, List.filter_map, List.map_append]
  simp [hlast, Function.comp_def]

/-- The collector of the source keeps the queue. -/
lemma Represents.queue_gcInvalid {σ : Type} {cleanEntry : ℕ → σ → Option (Bool × σ)} {s s' : σ}
    {rc : Status} (h : Represents l es) (hsmall : es.length < 2 ^ 32)
    (hgc : lruGcInvalid cleanEntry l s = some (rc, l', s')) :
    ∃ es', Represents l' es' ∧ l'.queue es' = (l.queue es).gcInvalid l.nbCallGcInvalid := by
  have hcalls : (l.queue es).nbCallGc = l.nbCallGc := rfl
  rw [Queue.gcInvalid, hcalls]
  by_cases hlt : l.nbCallGc < l.nbCallGcInvalid
  · -- every way out before the loop leaves the list as it is
    have hsame : l' = l := by
      unfold lruGcInvalid at hgc
      grind
    rw [if_pos hlt, hsame]
    exact ⟨es, h, rfl⟩
  rw [if_neg hlt]
  by_cases hnone : es.countP l.isInvalid = 0
  · have hsame : l' = l := by
      have hzero : l.nbInvalid = 0 := by rw [h.nbInvalid, hnone]; rfl
      rw [lruGcInvalid, if_pos hzero] at hgc
      exact (Prod.mk.inj (Prod.mk.inj (Option.some.inj hgc)).2).1.symm
    have hvalid : ∀ e ∈ (l.queue es).entries, e.2 = true := by
      intro e he
      obtain ⟨q, hq, rfl⟩ := List.mem_map.mp he
      have hq := List.countP_eq_zero.mp hnone q hq
      simpa using hq
    rw [hsame, keep_of_valid hvalid]
    exact ⟨es, h, rfl⟩
  · have hnb : UInt32.ofNat (es.countP l.isInvalid) ≠ 0 := by
      have hle := List.countP_le_length (p := l.isInvalid) (l := es)
      intro hzero
      have := congrArg UInt32.toNat hzero
      rw [UInt32.toNat_ofNat_of_lt' (by rw [UInt32.size]; omega)] at this
      exact hnone this
    rw [h.gcInvalid hnb hlt, Option.map_eq_some_iff] at hgc
    obtain ⟨r, -, hr⟩ := hgc
    rw [← (Prod.mk.inj (Prod.mk.inj hr).2).1]
    exact ⟨_, h.collect, h.queue_collect⟩

end Ganesha.Lru
