import Ganesha.Library.LinkedList
import Ganesha.LRU.Common
import Ganesha.Pools

/-!
# What an LRU list holds

`Represents l es`: the entries of the list are `es`, linked both ways, the counters count them and
the pool holds none of them. The two loops are folds over `es` (`lruInvalidateLoop_eq`,
`lruGcLoop_eq`): the first tags the entries that its function selects, the second takes the tagged
ones out. Neither goes as far as the MRU entry.
-/

namespace Ganesha.Lru
open Library.LinkedList Ganesha.Pools
open Ganesha.Hash (getPrealloc releasePrealloc)

variable {l l' : LruList} {es es' ps : List ℕ} {p q : ℕ} {σ : Type}

/-- The entry is tagged invalid. -/
def LruList.isInvalid (l : LruList) (p : ℕ) : Bool :=
  (l.entry p).validState = .invalid

/-- The list is `es`, oldest entry first. -/
structure Represents (l : LruList) (es : List ℕ) : Prop where
  linked : Linked (fun p => (l.entry p).next) (fun p => (l.entry p).prev) none l.lru es
  nodup : es.Nodup
  mru : l.mru = es.getLast?
  nbEntry : l.nbEntry = UInt32.ofNat es.length
  nbInvalid : l.nbInvalid = UInt32.ofNat (es.countP l.isInvalid)
  length_le : es.length ≤ l.allocs
  spare : Spare l.entryPrealloc l.arrays {p | p ∈ es}

lemma setEntry_entry (f : LruEntry → LruEntry) :
    (l.setEntry p f).entry q = if q = p then f (l.entry q) else l.entry q := by
  unfold LruList.setEntry
  rcases eq_or_ne q p with rfl | hne
  · simp
  · simp [hne]

lemma setEntryAt_entry (a : Option ℕ) (f : LruEntry → LruEntry) :
    (l.setEntryAt a f).entry q = if a = some q then f (l.entry q) else l.entry q := by
  cases a with
  | none => rfl
  | some p =>
    rw [LruList.setEntryAt, setEntry_entry]
    simp only [Option.some.injEq, eq_comm]

lemma setEntryAt_eq (a : Option ℕ) (f : LruEntry → LruEntry) :
    l.setEntryAt a f = { l with entry := (l.setEntryAt a f).entry } := by
  cases a with
  | none => rfl
  | some p => rfl

/-! ## Reading a list -/

/-- The entries of the list, with fuel for all of them. -/
lemma entriesFrom_eq {fuel : ℕ} {prev head : Option ℕ}
    (h : Linked (fun p => (l.entry p).next) (fun p => (l.entry p).prev) prev head es)
    (hfuel : es.length ≤ fuel) : entriesFrom l fuel head = es := by
  induction es generalizing fuel prev head with
  | nil =>
    rw [show head = none from h]
    cases fuel <;> rfl
  | cons p es ih =>
    rcases h with ⟨rfl, -, h⟩
    cases fuel with
    | zero => exact absurd hfuel (by simp)
    | succ fuel =>
      rw [entriesFrom, ih h (Nat.le_of_succ_le_succ hfuel)]

lemma Represents.entriesOf_eq (h : Represents l es) : entriesOf l = es :=
  entriesFrom_eq h.linked h.length_le

lemma Represents.prev_mru (h : Represents l (es ++ [p])) :
    (l.entry p).prev = none ↔ es = [] := by
  rw [h.linked.prev_eq]
  split_ifs with hes
  · exact ⟨fun _ => hes, fun _ => rfl⟩
  · rw [List.getLast?_eq_none_iff]

/-- Only the last entry is `mru`. -/
lemma Represents.ne_mru {es₁ es₂ : List ℕ} (h : Represents l (es₁ ++ p :: es₂)) (hne : es₂ ≠ []) :
    some p ≠ l.mru := by
  intro heq
  have hnd := (List.nodup_append.mp h.nodup).2.1
  obtain ⟨m, hm⟩ := Option.ne_none_iff_exists'.mp (mt List.getLast?_eq_none_iff.mp hne)
  have hlast : (es₁ ++ p :: es₂).getLast? = some m := by
    rw [List.getLast?_append, List.getLast?_cons, hm]
    rfl
  rw [h.mru, hlast] at heq
  exact (List.nodup_cons.mp hnd).1 (Option.some.inj heq ▸ List.mem_of_getLast? hm)

/-! ## A new list and a new entry -/

/-- The entries of the arrays are all different. -/
structure Fresh (arrays : ℕ → List ℕ) : Prop where
  nodup : ∀ k, (arrays k).Nodup
  disjoint : ∀ k k', k ≠ k' → (arrays k).Disjoint (arrays k')

/-- A new list is empty. -/
theorem lruInit_represents {nbEntryPrealloc nbCallGcInvalid : UInt32} {entry : ℕ → LruEntry}
    {arrays : ℕ → List ℕ} (harrays : Fresh arrays)
    (h : lruInit nbEntryPrealloc nbCallGcInvalid entry arrays = some l) : Represents l [] := by
  unfold lruInit at h
  split_ifs at h
  rw [← Option.some.inj h]
  refine ⟨rfl, List.nodup_nil, rfl, rfl, rfl, le_rfl, harrays.nodup 0, ?_, ?_, ?_, ?_⟩
  · exact fun _ _ => List.not_mem_nil
  · exact fun k => harrays.nodup (k + 1)
  · exact fun k p hp => ⟨List.not_mem_nil, fun hp0 => harrays.disjoint (k + 1) 0 (by omega) hp hp0⟩
  · exact fun k k' hne => harrays.disjoint (k + 1) (k' + 1) (by omega)

lemma lruLink_entry_of_ne (hp : p ≠ q) :
    (lruLink l p).entry q =
      if l.mru = some q then { l.entry q with next := some p } else l.entry q := by
  show ((l.setEntry p _).setEntryAt l.mru _).entry q = _
  rw [setEntryAt_entry, setEntry_entry, if_neg hp.symm]

lemma lruLink_entry_self (hp : l.mru ≠ some p) :
    (lruLink l p).entry p =
      { l.entry p with validState := .valid, next := none, prev := l.mru } := by
  show ((l.setEntry p _).setEntryAt l.mru _).entry p = _
  rw [setEntryAt_entry, setEntry_entry, if_neg hp, if_pos rfl]

/-- What `LRU_new_entry` leaves when it gives the entry `p`. -/
structure Pushed (l l' : LruList) (p : ℕ) : Prop where
  validState : ∀ q, (l'.entry q).validState = if q = p then .valid else (l.entry q).validState
  pdata : ∀ q, (l'.entry q).pdata = (l.entry q).pdata
  nbCallGcInvalid : l'.nbCallGcInvalid = l.nbCallGcInvalid

lemma isInvalid_congr {f : LruList} (h : ∀ q ∈ es, (f.entry q).validState = (l.entry q).validState) :
    es.countP f.isInvalid = es.countP l.isInvalid := by
  apply List.countP_congr
  intro q hq
  rw [LruList.isInvalid, LruList.isInvalid, h q hq]

/-- A new entry is linked at the end. -/
lemma Represents.link (h : Represents l es) (hp : p ∉ es) :
    Linked (fun q => ((lruLink l p).entry q).next) (fun q => ((lruLink l p).entry q).prev) none
      (lruLink l p).lru (es ++ [p]) := by
  have hne : ∀ q ∈ es, p ≠ q := fun q hq heq => hp (heq ▸ hq)
  have hmru : l.mru ≠ some p := by
    rw [h.mru]
    exact fun heq => hp (List.mem_of_getLast? heq)
  have hself := lruLink_entry_self hmru
  have hprev : ((lruLink l p).entry p).prev = l.mru := by rw [hself]
  have hnext : ((lruLink l p).entry p).next = none := by rw [hself]
  have hlru : (lruLink l p).lru = if l.mru = none then some p else l.lru := rfl
  rcases eq_or_ne es [] with rfl | hes
  · have hnone : l.mru = none := h.mru
    rw [if_pos hnone] at hlru
    exact ⟨hlru, hprev.trans hnone, hnext⟩
  · have hsome : l.mru ≠ none := by
      rw [h.mru]
      exact mt List.getLast?_eq_none_iff.mp hes
    rw [hlru, if_neg hsome]
    refine h.linked.append h.nodup hes hnext (hprev.trans h.mru) (fun q hq => ?_) fun q hq => ?_
    · rw [lruLink_entry_of_ne (hne q hq), h.mru]
      split_ifs <;> rfl
    · rw [lruLink_entry_of_ne (hne q hq)]
      split_ifs <;> rfl

/-- What `LRU_new_entry` gives. -/
theorem Represents.newEntry (h : Represents l es) :
    match lruNewEntry l with
    | (none, l') => Represents l' es ∧ l'.entry = l.entry ∧ l'.nbCallGcInvalid = l.nbCallGcInvalid
    | (some p, l') => p ∉ es ∧ Represents l' (es ++ [p]) ∧ Pushed l l' p := by
  have hget := h.spare.get l.nbEntryPrealloc
  unfold lruNewEntry
  rcases hpre : getPrealloc l.nbEntryPrealloc l.entryPrealloc l.arrays with ⟨_ | p, pool, arrays⟩
  · rw [hpre] at hget
    exact ⟨⟨h.linked, h.nodup, h.mru, h.nbEntry, h.nbInvalid, h.length_le, hget⟩, rfl, rfl⟩
  · rw [hpre] at hget
    obtain ⟨hp, hspare⟩ := hget
    have hp : p ∉ es := hp
    let l₁ : LruList := { l with entryPrealloc := pool, arrays }
    -- the pools are not in any other field of `Represents`
    have h₁ : Represents l₁ es := by
      refine ⟨h.linked, h.nodup, h.mru, h.nbEntry, h.nbInvalid, h.length_le, hspare.mono ?_⟩
      exact fun q hq => Set.mem_insert_of_mem p hq
    have hmru : l₁.mru ≠ some p := by
      rw [h₁.mru]
      exact fun heq => hp (List.mem_of_getLast? heq)
    have hself := lruLink_entry_self hmru
    have hfields : (lruLink l₁ p).mru = some p ∧ (lruLink l₁ p).nbEntry = l.nbEntry + 1 ∧
        (lruLink l₁ p).nbInvalid = l.nbInvalid ∧ (lruLink l₁ p).allocs = l.allocs + 1 ∧
        (lruLink l₁ p).entryPrealloc = pool ∧ (lruLink l₁ p).arrays = arrays ∧
        (lruLink l₁ p).nbCallGcInvalid = l.nbCallGcInvalid := by
      dsimp only [lruLink]
      rw [setEntryAt_eq]
      exact ⟨rfl, rfl, rfl, rfl, rfl, rfl, rfl⟩
    have hpushed : Pushed l (lruLink l₁ p) p := by
      refine ⟨fun q => ?_, fun q => ?_, hfields.2.2.2.2.2.2⟩
      · rcases eq_or_ne q p with rfl | hne
        · rw [hself, if_pos rfl]
        · rw [lruLink_entry_of_ne hne.symm, if_neg hne]
          split_ifs <;> rfl
      · rcases eq_or_ne q p with rfl | hne
        · rw [hself]
        · rw [lruLink_entry_of_ne hne.symm]
          split_ifs <;> rfl
    obtain ⟨hmru', hnb, hinv, hallocs, hpool, harrays, -⟩ := hfields
    have hcount : (es ++ [p]).countP (lruLink l₁ p).isInvalid = es.countP l.isInvalid := by
      rw [List.countP_append, isInvalid_congr (l := l) fun q hq => ?_]
      · rw [List.countP_singleton, LruList.isInvalid, hself]
        rfl
      · have hne : q ≠ p := fun heq => hp (heq ▸ hq)
        rw [hpushed.validState, if_neg hne]
    refine ⟨hp, ⟨h₁.link hp, ?_, ?_, ?_, ?_, ?_, ?_⟩, hpushed⟩
    · rw [← List.concat_eq_append]
      exact h.nodup.concat hp
    · rw [hmru', List.getLast?_concat]
    · rw [hnb, h.nbEntry, List.length_append, List.length_singleton, UInt32.ofNat_add]
      rfl
    · rw [hinv, hcount, h.nbInvalid]
    · rw [hallocs, List.length_append]
      exact Nat.succ_le_succ h.length_le
    · rw [hpool, harrays]
      refine hspare.mono fun q hq => ?_
      rcases List.mem_append.mp hq with hq | hq
      · exact Set.mem_insert_of_mem p hq
      · exact Set.mem_insert_iff.mpr (.inl (List.mem_singleton.mp hq))

/-- Data may be written without touching the links. -/
lemma Represents.setData (h : Represents l es) (e d : ℕ) :
    Represents (l.setEntry e fun a => { a with pdata := d }) es := by
  have hentry : ∀ a, ((l.setEntry e fun a => { a with pdata := d }).entry a).next = (l.entry a).next ∧
      ((l.setEntry e fun a => { a with pdata := d }).entry a).prev = (l.entry a).prev ∧
      ((l.setEntry e fun a => { a with pdata := d }).entry a).validState = (l.entry a).validState := by
    intro a
    rw [setEntry_entry]
    split_ifs <;> exact ⟨rfl, rfl, rfl⟩
  refine ⟨h.linked.congr fun a _ => ⟨(hentry a).1, (hentry a).2.1⟩, h.nodup, h.mru, h.nbEntry, ?_,
    h.length_le, h.spare⟩
  rw [isInvalid_congr fun a _ => (hentry a).2.2]
  exact h.nbInvalid

/-! ## Tagging entries -/

/-- Tag the entries of a list. -/
def invalidateAll (l : LruList) (ps : List ℕ) : LruList :=
  ps.foldl lruInvalidate l

/-- Which entries are invalid after one was invalidated. -/
lemma lruInvalidate_validState :
    ((lruInvalidate l p).entry q).validState =
      if q = p then .invalid else (l.entry q).validState := by
  unfold lruInvalidate LruList.setEntry
  by_cases hp : (l.entry p).validState = .invalid
  · rw [if_neg (not_not.mpr hp)]
    split_ifs with heq
    · rw [heq, hp]
    · rfl
  · rw [if_pos hp]
    rcases eq_or_ne q p with rfl | hne
    · simp
    · simp [hne]

/-- Invalidation keeps links and data. -/
lemma lruInvalidate_entry :
    ((lruInvalidate l p).entry q).next = (l.entry q).next ∧
      ((lruInvalidate l p).entry q).prev = (l.entry q).prev ∧
      ((lruInvalidate l p).entry q).pdata = (l.entry q).pdata := by
  unfold lruInvalidate LruList.setEntry
  split_ifs
  · rcases eq_or_ne q p with rfl | hne
    · simp
    · simp [hne]
  · exact ⟨rfl, rfl, rfl⟩

/-- `LRU_invalidate` of an entry of the list. -/
theorem Represents.invalidate (h : Represents l es) (hp : p ∈ es) :
    Represents (lruInvalidate l p) es := by
  by_cases hinv : (l.entry p).validState = .invalid
  · rw [lruInvalidate, if_neg (not_not.mpr hinv)]
    exact h
  · have hlinked : Linked (fun q => ((lruInvalidate l p).entry q).next)
        (fun q => ((lruInvalidate l p).entry q).prev) none l.lru es :=
      h.linked.congr fun q _ => ⟨lruInvalidate_entry.1, lruInvalidate_entry.2.1⟩
    have hcount : es.countP (lruInvalidate l p).isInvalid = es.countP l.isInvalid + 1 := by
      obtain ⟨es₁, es₂, rfl⟩ := List.append_of_mem hp
      have hnd := List.nodup_middle.mp h.nodup
      have hne : ∀ q ∈ es₁ ++ es₂, q ≠ p := fun q hq heq => (List.nodup_cons.mp hnd).1 (heq ▸ hq)
      have hsame : ∀ q ∈ es₁ ++ es₂,
          ((lruInvalidate l p).entry q).validState = (l.entry q).validState := fun q hq => by
        rw [lruInvalidate_validState, if_neg (hne q hq)]
      have h₁ := isInvalid_congr fun q hq => hsame q (List.mem_append_left es₂ hq)
      have h₂ := isInvalid_congr fun q hq => hsame q (List.mem_append_right es₁ hq)
      have hself : (lruInvalidate l p).isInvalid p = true := by
        rw [LruList.isInvalid, lruInvalidate_validState, if_pos rfl]
        rfl
      have hold : l.isInvalid p = false := decide_eq_false hinv
      rw [List.countP_append, List.countP_append, List.countP_cons, List.countP_cons, h₁, h₂, hself,
        hold]
      simp only [if_true, Bool.false_eq_true, if_false]
      omega
    unfold lruInvalidate at hlinked hcount ⊢
    rw [if_pos hinv] at hlinked hcount ⊢
    refine ⟨hlinked, h.nodup, h.mru, h.nbEntry, ?_, h.length_le, h.spare⟩
    rw [hcount, UInt32.ofNat_add, ← h.nbInvalid]
    rfl

theorem Represents.invalidateAll (h : Represents l es) (hps : ∀ p ∈ ps, p ∈ es) :
    Represents (invalidateAll l ps) es := by
  induction ps generalizing l with
  | nil => exact h
  | cons p ps ih =>
    exact ih (h.invalidate (hps p List.mem_cons_self)) fun q hq => hps q (List.mem_cons_of_mem p hq)

/-- Which entries are invalid after several were. -/
lemma invalidateAll_validState :
    ((Lru.invalidateAll l ps).entry q).validState =
      if q ∈ ps then .invalid else (l.entry q).validState := by
  induction ps generalizing l with
  | nil => rfl
  | cons p ps ih =>
    rw [Lru.invalidateAll, List.foldl_cons]
    refine ih.trans ?_
    rw [lruInvalidate_validState]
    by_cases hmem : q ∈ ps
    · rw [if_pos hmem, if_pos (List.mem_cons_of_mem p hmem)]
    · by_cases heq : q = p
      · rw [if_neg hmem, if_pos heq, if_pos (heq ▸ List.mem_cons_self)]
      · rw [if_neg hmem, if_neg heq, if_neg (List.not_mem_cons_of_ne_of_not_mem heq hmem)]

lemma invalidateAll_pdata : ((Lru.invalidateAll l ps).entry q).pdata = (l.entry q).pdata := by
  induction ps generalizing l with
  | nil => rfl
  | cons p ps ih => exact ih.trans lruInvalidate_entry.2.2

/-- Invalidation keeps the limit. -/
lemma invalidateAll_nbCallGcInvalid :
    (Lru.invalidateAll l ps).nbCallGcInvalid = l.nbCallGcInvalid := by
  induction ps generalizing l with
  | nil => rfl
  | cons p ps ih =>
    refine ih.trans ?_
    unfold lruInvalidate
    split_ifs <;> rfl

/-- The loop over the list, by induction on what is left of it. -/
lemma lruInvalidateLoop_eq {fuel : ℕ} (es₁ : List ℕ) {es₂ : List ℕ} (h : Represents l (es₁ ++ es₂))
    (hne : es₂ ≠ []) (hfuel : es₂.length ≤ fuel) (testfunc : ℕ → Bool) :
    lruInvalidateLoop testfunc fuel es₂.head? l =
      some (Lru.invalidateAll l (es₂.dropLast.filter testfunc)) := by
  induction es₂ generalizing es₁ l fuel with
  | nil => exact absurd rfl hne
  | cons p es₂ ih =>
    cases fuel with
    | zero => exact absurd hfuel (by simp)
    | succ fuel =>
      show (if some p = l.mru then some l else lruInvalidateLoop testfunc fuel (l.entry p).next
        (if (l.entry p).validState ≠ .invalid ∧ testfunc p then lruInvalidate l p else l)) = _
      cases es₂ with
      | nil =>
        have hmru := h.mru
        rw [List.getLast?_append, List.getLast?_singleton, Option.some_or] at hmru
        rw [if_pos hmru.symm]
        rfl
      | cons q es₂ =>
        have hp := h.ne_mru (List.cons_ne_nil q es₂)
        have hnext : (l.entry p).next = (q :: es₂).head? := h.linked.next_eq
        have happ : es₁ ++ p :: q :: es₂ = es₁ ++ [p] ++ q :: es₂ := by simp
        rw [if_neg hp, hnext, List.dropLast_cons_cons, List.filter_cons]
        by_cases htest : testfunc p
        · have hstep : (if (l.entry p).validState ≠ .invalid ∧ testfunc p = true then
              lruInvalidate l p else l) = lruInvalidate l p := by
            by_cases hinv : (l.entry p).validState = .invalid
            · rw [if_neg fun hand => hand.1 hinv, lruInvalidate, if_neg (not_not.mpr hinv)]
            · rw [if_pos ⟨hinv, htest⟩]
          rw [hstep, if_pos htest]
          refine ih (es₁ ++ [p]) ?_ (List.cons_ne_nil q es₂) (Nat.le_of_succ_le_succ hfuel)
          rw [← happ]
          exact h.invalidate (List.mem_append_right es₁ List.mem_cons_self)
        · rw [if_neg fun hand => htest hand.2, if_neg htest]
          exact ih (es₁ ++ [p]) (happ ▸ h) (List.cons_ne_nil q es₂)
            (Nat.le_of_succ_le_succ hfuel)

/-- `LRU_invalidate_by_function`: nothing happens when the list is empty, or when it is so long that
`nb_entry` is 0 again. -/
theorem Represents.invalidateByFunction (h : Represents l es) (testfunc : ℕ → Bool) :
    lruInvalidateByFunction l testfunc =
      some (.success, if UInt32.ofNat es.length = 0 then l
        else Lru.invalidateAll l (es.dropLast.filter testfunc)) := by
  unfold lruInvalidateByFunction
  rw [h.nbEntry]
  by_cases hzero : UInt32.ofNat es.length = 0
  · rw [if_pos hzero, if_pos hzero]
  rw [if_neg hzero, if_neg hzero]
  have hne : es ≠ [] := fun heq => hzero (heq ▸ rfl)
  obtain ⟨es, m, rfl⟩ := (List.eq_nil_or_concat' es).resolve_left hne
  have hmru := h.mru
  rw [List.getLast?_concat] at hmru
  rw [hmru, List.dropLast_concat]
  show (if (l.entry m).prev = none then some (Status.success, l) else _) = _
  by_cases hes : es = []
  · rw [if_pos (h.prev_mru.mpr hes), hes]
    rfl
  · have hloop : lruInvalidateLoop testfunc l.allocs (es ++ [m]).head? l =
        some (Lru.invalidateAll l ((es ++ [m]).dropLast.filter testfunc)) :=
      lruInvalidateLoop_eq [] h hne h.length_le testfunc
    rw [if_neg (mt h.prev_mru.mp hes), h.linked.head_eq, hloop, List.dropLast_concat]
    rfl

/-! ## Taking entries out -/

/-- Take the entries of a list out. -/
def unlinkAll (l : LruList) (ps : List ℕ) : LruList :=
  ps.foldl lruUnlink l

lemma lruUnlink_entry :
    (lruUnlink l p).entry q =
      { l.entry q with
        next := if (l.entry p).prev = some q then (l.entry p).next else (l.entry q).next
        prev := if (l.entry p).next = some q then (l.entry p).prev else (l.entry q).prev } := by
  show ((l.setEntryAt (l.entry p).prev _).setEntryAt (l.entry p).next _).entry q = _
  rw [setEntryAt_entry, setEntryAt_entry]
  split_ifs <;> rfl

/-- An invalid entry before the MRU one is taken out. -/
theorem Represents.unlink (h : Represents l es) (hp : p ∈ es) (hinv : l.isInvalid p)
    (hmru : l.mru ≠ some p) : Represents (lruUnlink l p) (es.erase p) := by
  -- what the unlinking does to the counters
  have hfields : (lruUnlink l p).mru = l.mru ∧ (lruUnlink l p).nbEntry = l.nbEntry - 1 ∧
      (lruUnlink l p).nbInvalid = l.nbInvalid - 1 ∧ (lruUnlink l p).allocs = l.allocs ∧
      (lruUnlink l p).entryPrealloc = releasePrealloc p l.entryPrealloc ∧
      (lruUnlink l p).arrays = l.arrays := by
    dsimp only [lruUnlink]
    rw [setEntryAt_eq, setEntryAt_eq]
    exact ⟨rfl, rfl, rfl, rfl, rfl, rfl⟩
  obtain ⟨hmru', hnb, hnbinv, hallocs, hpool, harrays⟩ := hfields
  have hlinked : Linked (fun q => ((lruUnlink l p).entry q).next)
      (fun q => ((lruUnlink l p).entry q).prev) none (lruUnlink l p).lru (es.erase p) := by
    refine h.linked.remove h.nodup hp (fun q _ _ => ?_) fun q _ _ => ?_
    · rw [lruUnlink_entry]
    · rw [lruUnlink_entry]
  have hstates : ∀ q, ((lruUnlink l p).entry q).validState = (l.entry q).validState := fun q => by
    rw [lruUnlink_entry]
  have hlength := List.length_erase_of_mem hp
  have hpos : 0 < es.length := List.length_pos_of_mem hp
  have hcount : es.countP l.isInvalid = (es.erase p).countP l.isInvalid + 1 := by
    rw [(List.perm_cons_erase hp).countP_eq, List.countP_cons, hinv]
    rfl
  refine ⟨hlinked, h.nodup.erase p, ?_, ?_, ?_, ?_, ?_⟩
  · rw [hmru', h.mru]
    rw [h.mru] at hmru
    obtain ⟨es₁, es₂, rfl⟩ := List.append_of_mem hp
    have hnot : p ∉ es₁ := fun hmem =>
      (List.nodup_cons.mp (List.nodup_middle.mp h.nodup)).1 (List.mem_append_left es₂ hmem)
    rw [List.erase_append_right _ hnot, List.erase_cons_head]
    cases es₂ with
    | nil => exact absurd List.getLast?_concat hmru
    | cons q es₂ =>
      rw [List.getLast?_append, List.getLast?_append, List.getLast?_cons_cons]
  · rw [hnb, h.nbEntry, hlength, UInt32.ofNat_sub hpos]
    rfl
  · rw [hnbinv, h.nbInvalid, hcount, UInt32.ofNat_add, isInvalid_congr fun q _ => hstates q]
    exact UInt32.add_sub_cancel _ _
  · rw [hallocs, hlength]
    exact (Nat.sub_le _ _).trans h.length_le
  · rw [hpool, harrays]
    refine (h.spare.release hp).mono fun q hq => ?_
    have hq := (h.nodup.mem_erase_iff).mp hq
    exact ⟨hq.2, hq.1⟩

/-- Clean the data of some entries one after the other. -/
def cleanAll (cleanEntry : ℕ → σ → Option (Bool × σ)) : List ℕ → Status → σ → Option (Status × σ)
  | [], rc, s => some (rc, s)
  | d :: ds, rc, s =>
    match cleanEntry d s with
    | none => none
    | some (ok, s) => cleanAll cleanEntry ds (if ok then rc else .badReleaseEntry) s

/-- The collector over the list, by induction on what is left of it. -/
lemma lruGcLoop_eq {fuel : ℕ} (es₁ : List ℕ) {es₂ : List ℕ} (h : Represents l (es₁ ++ es₂))
    (hne : es₂ ≠ []) (hfuel : es₂.length ≤ fuel) (cleanEntry : ℕ → σ → Option (Bool × σ))
    (rc : Status) (s : σ) :
    lruGcLoop cleanEntry fuel es₂.head? rc l s =
      (cleanAll cleanEntry ((es₂.dropLast.filter l.isInvalid).map fun p => (l.entry p).pdata) rc
        s).map fun r => (r.1, unlinkAll l (es₂.dropLast.filter l.isInvalid), r.2) := by
  induction es₂ generalizing es₁ l fuel rc s with
  | nil => exact absurd rfl hne
  | cons p es₂ ih =>
    cases fuel with
    | zero => exact absurd hfuel (by simp)
    | succ fuel =>
      unfold lruGcLoop
      cases es₂ with
      | nil =>
        have hmru := h.mru
        rw [List.getLast?_append, List.getLast?_singleton, Option.some_or] at hmru
        rw [List.head?_cons, if_pos hmru.symm]
        rfl
      | cons q es₂ =>
        have hp := h.ne_mru (List.cons_ne_nil q es₂)
        have hnext : (l.entry p).next = (q :: es₂).head? := h.linked.next_eq
        have hmem : p ∈ es₁ ++ p :: q :: es₂ := List.mem_append_right es₁ List.mem_cons_self
        rw [List.head?_cons, if_neg hp, List.dropLast_cons_cons, List.filter_cons]
        by_cases hinv : (l.entry p).validState = .invalid
        · have hinv' : l.isInvalid p = true := decide_eq_true hinv
          have herase : (es₁ ++ p :: q :: es₂).erase p = es₁ ++ q :: es₂ := by
            have hnot : p ∉ es₁ := fun hin =>
              (List.nodup_cons.mp (List.nodup_middle.mp h.nodup)).1 (List.mem_append_left _ hin)
            rw [List.erase_append_right _ hnot, List.erase_cons_head]
          have hunlink := h.unlink hmem hinv' hp.symm
          rw [herase] at hunlink
          have hsame : (lruUnlink l p).isInvalid = l.isInvalid := by
            funext q
            rw [LruList.isInvalid, LruList.isInvalid, lruUnlink_entry]
          have hdata : (fun q => ((lruUnlink l p).entry q).pdata) = fun q => (l.entry q).pdata := by
            funext q
            rw [lruUnlink_entry]
          simp only [hinv, hinv', if_true, List.map_cons, cleanAll]
          cases hclean : cleanEntry (l.entry p).pdata s with
          | none => rfl
          | some r =>
            have hrec := ih es₁ hunlink (List.cons_ne_nil q es₂) (Nat.le_of_succ_le_succ hfuel)
              (if r.1 then rc else .badReleaseEntry) r.2
            rw [hsame, hdata] at hrec
            rw [hnext]
            exact hrec
        · have hinv' : l.isInvalid p = false := decide_eq_false hinv
          have happ : es₁ ++ p :: q :: es₂ = es₁ ++ [p] ++ q :: es₂ := by simp
          simp only [hinv, hinv', if_false, Bool.false_eq_true, hnext]
          exact ih (es₁ ++ [p]) (happ ▸ h) (List.cons_ne_nil q es₂)
            (Nat.le_of_succ_le_succ hfuel) rc s

/-- Several entries are unlinked, never the last. -/
theorem Represents.unlinkAll (h : Represents l es) (hnd : ps.Nodup)
    (hps : ∀ p ∈ ps, p ∈ es ∧ l.isInvalid p ∧ l.mru ≠ some p) :
    Represents (unlinkAll l ps) (es.filter fun p => p ∉ ps) := by
  induction ps generalizing l es with
  | nil =>
    have hall : es.filter (fun p => decide (p ∉ [])) = es := by simp
    rw [hall]
    exact h
  | cons p ps ih =>
    obtain ⟨hp, hinv, hmru⟩ := hps p List.mem_cons_self
    have hnd := List.nodup_cons.mp hnd
    have hfilter : (es.filter fun q => q ∉ p :: ps) = (es.erase p).filter fun q => q ∉ ps := by
      rw [h.nodup.erase_eq_filter, List.filter_filter]
      apply List.filter_congr
      intro q _
      by_cases hqp : q = p <;> simp [hqp]
    rw [hfilter]
    refine ih (h.unlink hp hinv hmru) hnd.2 fun q hq => ?_
    obtain ⟨hq₁, hq₂, hq₃⟩ := hps q (List.mem_cons_of_mem p hq)
    have hne : q ≠ p := fun heq => hnd.1 (heq ▸ hq)
    refine ⟨(List.mem_erase_of_ne hne).mpr hq₁, ?_, ?_⟩
    · rw [LruList.isInvalid, lruUnlink_entry]
      exact hq₂
    · dsimp only [lruUnlink]
      rw [setEntryAt_eq, setEntryAt_eq]
      exact hq₃

/-- Collection keeps state and data. -/
lemma unlinkAll_entry :
    ((Lru.unlinkAll l ps).entry q).validState = (l.entry q).validState ∧
      ((Lru.unlinkAll l ps).entry q).pdata = (l.entry q).pdata := by
  induction ps generalizing l with
  | nil => exact ⟨rfl, rfl⟩
  | cons p ps ih =>
    have hrec := ih (l := lruUnlink l p)
    rw [lruUnlink_entry] at hrec
    exact hrec

/-- Collection keeps the limit. -/
lemma unlinkAll_nbCallGcInvalid : (Lru.unlinkAll l ps).nbCallGcInvalid = l.nbCallGcInvalid := by
  induction ps generalizing l with
  | nil => rfl
  | cons p ps ih =>
    refine ih.trans ?_
    dsimp only [lruUnlink]
    rw [setEntryAt_eq, setEntryAt_eq]

/-- The entries that the next `LRU_gc_invalid` is going to take out. -/
def LruList.collectable (l : LruList) (es : List ℕ) : List ℕ :=
  es.dropLast.filter l.isInvalid

/-- What is collected. -/
lemma Represents.mem_collectable (h : Represents l es) (hp : p ∈ l.collectable es) :
    p ∈ es ∧ l.isInvalid p ∧ l.mru ≠ some p := by
  have hp := List.mem_filter.mp hp
  refine ⟨List.dropLast_subset es hp.1, hp.2, fun heq => ?_⟩
  rw [h.mru] at heq
  obtain ⟨es₁, rfl⟩ := List.getLast?_eq_some_iff.mp heq
  rw [List.dropLast_concat] at hp
  have hnd := h.nodup
  rw [List.nodup_append] at hnd
  exact hnd.2.2 p hp.1 p (List.mem_singleton_self p) rfl

/-- The collectable entries leave the list, the others stay in their order. -/
theorem Represents.collect (h : Represents l es) :
    Represents (Lru.unlinkAll l (l.collectable es)) (es.filter fun p => p ∉ l.collectable es) :=
  h.unlinkAll (((List.dropLast_sublist es).nodup h.nodup).filter _) fun _ hp => h.mem_collectable hp

/-- What was just invalidated is collected. -/
lemma collectable_invalidateAll (h : ∀ p ∈ es, l.isInvalid p = false) (testfunc : ℕ → Bool) :
    (Lru.invalidateAll l (es.dropLast.filter testfunc)).collectable es =
      es.dropLast.filter testfunc := by
  apply List.filter_congr
  intro p hp
  have hold : (l.entry p).validState ≠ .invalid :=
    of_decide_eq_false (h p (List.dropLast_subset es hp))
  rw [LruList.isInvalid, invalidateAll_validState]
  by_cases htest : testfunc p
  · simp [hp, htest]
  · simp [htest, hold]

/-- `LRU_gc_invalid` when it does its work: the collectable entries are cleaned, oldest first, and
only they leave the list. -/
theorem Represents.gcInvalid (h : Represents l es) (hnb : UInt32.ofNat (es.countP l.isInvalid) ≠ 0)
    (hcalls : ¬ l.nbCallGc < l.nbCallGcInvalid) (cleanEntry : ℕ → σ → Option (Bool × σ)) (s : σ) :
    lruGcInvalid cleanEntry l s =
      (cleanAll cleanEntry ((l.collectable es).map fun p => (l.entry p).pdata) .success s).map
        fun r => (r.1, Lru.unlinkAll l (l.collectable es), r.2) := by
  unfold lruGcInvalid
  have hne : es ≠ [] := fun heq => hnb (heq ▸ rfl)
  rw [if_neg (h.nbInvalid ▸ hnb)]
  obtain ⟨es, m, rfl⟩ := (List.eq_nil_or_concat' es).resolve_left hne
  have hmru := h.mru
  rw [List.getLast?_concat] at hmru
  rw [hmru]
  show (if (l.entry m).prev = none then some (Status.success, l, s) else _) = _
  by_cases hes : es = []
  · rw [if_pos (h.prev_mru.mpr hes), hes]
    rfl
  · have hloop := lruGcLoop_eq [] h hne h.length_le cleanEntry .success s
    rw [if_neg (mt h.prev_mru.mp hes), if_neg hcalls, h.linked.head_eq]
    exact hloop

end Ganesha.Lru
