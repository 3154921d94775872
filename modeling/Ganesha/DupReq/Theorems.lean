import Mathlib.Data.Nat.Pairing
import Ganesha.DupReq.Common
import Ganesha.LRU.Contents

/-!
# The hash table and the LRU lists of the duplicate request cache

A record is filed twice, under its xid in the hash table and by its age in the LRU list of a worker.
The two go together as long as no xid is added that is still in the table, and each record that is
taken from the pool gets its node of the table and its entry of the list (`Sound`): then the records
in the table are those of the valid LRU entries (`Filed`), the records are in the pool, to come, or
in the table (`Kept`), and a garbage collection forgets the records of the entries it takes out and
no other (`Collects`).
-/

namespace Ganesha.DupReq
open Library.Transition Ganesha.Lru Ganesha.Pools
open Ganesha.Hash (getPrealloc releasePrealloc)

variable {R : Type} {s s' s₀ : Server R} {w w' : ℕ} {p q : ℕ} {xid : Int64}

/-- The valid entries of the LRU list of a worker. -/
def validEntries (s : Server R) (w : ℕ) : List ℕ :=
  (entriesOf (s.worker w).duplicateRequest).filter fun e =>
    ((s.worker w).duplicateRequest.entry e).validState = .valid

/-- The record of an LRU entry. -/
def recordOf (s : Server R) (w e : ℕ) : ℕ :=
  ((s.worker w).duplicateRequest.entry e).pdata

/-- Each record of the table is the one of exactly one valid LRU entry, and the other way round. -/
structure Filed (s : Server R) : Prop where
  hashed : ∀ xid p, s.htDupreq xid = some p →
    ∃! a : ℕ × ℕ, a.2 ∈ validEntries s a.1 ∧ recordOf s a.1 a.2 = p
  listed : ∀ w, ∀ e ∈ validEntries s w,
    ∃! xid, s.htDupreq xid = some (recordOf s w e)
  xid : ∀ xid p, s.htDupreq xid = some p → (s.dupreq p).xid = xid

/-- Every record that a worker started with is in its pool once, to come, or in the table for one of
its LRU entries, and in one of these places only. -/
structure Kept (s₀ s : Server R) : Prop where
  once : ∀ w, Spare (s.worker w).dupreqPool (s.worker w).dupreqArrays
    {p | ∃ xid, s.htDupreq xid = some p}
  kept : ∀ w p, Stocked (s₀.worker w).dupreqPool (s₀.worker w).dupreqArrays p ↔
    Stocked (s.worker w).dupreqPool (s.worker w).dupreqArrays p ∨
      ∃ e ∈ validEntries s w, recordOf s w e = p

/-- The entries that a garbage collection takes out. -/
def collected (s : Server R) (w : ℕ) (testfunc : Server R → ℕ → ℕ → Bool) : List ℕ :=
  (entriesOf (s.worker w).duplicateRequest).dropLast.filter (testfunc s w)

/-- A garbage collection takes the entries out, releases the record of each of them once and deletes
these records, and no others, from the table. -/
structure Collects (s s' : Server R) (w : ℕ) (testfunc : Server R → ℕ → ℕ → Bool) : Prop where
  entries : entriesOf (s'.worker w).duplicateRequest =
    (entriesOf (s.worker w).duplicateRequest).filter fun e => e ∉ collected s w testfunc
  pool : (s'.worker w).dupreqPool =
    ((collected s w testfunc).map (recordOf s w)).reverse ++ (s.worker w).dupreqPool
  table : ∀ xid, s'.htDupreq xid =
    if ∃ e ∈ collected s w testfunc, s.htDupreq xid = some (recordOf s w e) then none
    else s.htDupreq xid

/-- What the cache starts with: an empty table, empty lists and pools of different records. The
parameter `nb_call_gc_invalid` of these lists is not in the configuration. -/
structure Initial (s : Server R) : Prop where
  empty : ∀ xid, s.htDupreq xid = none
  lru : ∀ w, ∃ nb entry arrays, Fresh arrays ∧
    lruInit nb 0 entry arrays = some (s.worker w).duplicateRequest
  spare : ∀ w, Spare (s.worker w).dupreqPool (s.worker w).dupreqArrays ∅
  apart : ∀ w w' p, Stocked (s.worker w).dupreqPool (s.worker w).dupreqArrays p →
    Stocked (s.worker w').dupreqPool (s.worker w').dupreqArrays p → w = w'

/-- A record taken from the pool has an xid that is not in the table, and gets a node of the table
and an LRU entry; `nb_invalid` of the list that is collected has room for all its entries. -/
def Sound (s : Server R) : Event R → Prop
  | .add w xid _ _ _ setOk =>
    (getPrealloc s.param.nbDupreqPrealloc (s.worker w).dupreqPool (s.worker w).dupreqArrays).1 ≠
        none →
      s.htDupreq xid = none ∧ setOk = true ∧ (lruNewEntry (s.worker w).duplicateRequest).1 ≠ none
  | .get _ _ => True
  | .gc w _ => (entriesOf (s.worker w).duplicateRequest).length < 2 ^ 32

instance (s : Server R) : DecidablePred (Sound s)
  | .add _ _ _ _ _ setOk => inferInstanceAs (Decidable (_ → _ ∧ setOk = true ∧ _))
  | .get _ _ => isTrue trivial
  | .gc _ _ => inferInstanceAs (Decidable (_ < _))

/-! ## The invariant -/

/-- The LRU lists are `es`, all their entries are valid, and the records they refer to are those of
the table. -/
structure Inv (s₀ s : Server R) (es : ℕ → List ℕ) : Prop where
  lru : ∀ w, Represents (s.worker w).duplicateRequest (es w)
  calls : ∀ w, (s.worker w).duplicateRequest.nbCallGcInvalid = 0
  valid : ∀ w, ∀ e ∈ es w, ((s.worker w).duplicateRequest.entry e).validState = .valid
  listed : ∀ w, ∀ e ∈ es w, s.htDupreq (s.dupreq (recordOf s w e)).xid = some (recordOf s w e)
  hashed : ∀ xid p, s.htDupreq xid = some p →
    (s.dupreq p).xid = xid ∧ ∃ w, ∃ e ∈ es w, recordOf s w e = p
  inj : ∀ w, ∀ e ∈ es w, ∀ e' ∈ es w, recordOf s w e = recordOf s w e' → e = e'
  spare : ∀ w, Spare (s.worker w).dupreqPool (s.worker w).dupreqArrays
    {p | ∃ e ∈ es w, recordOf s w e = p}
  kept : ∀ w p, Stocked (s₀.worker w).dupreqPool (s₀.worker w).dupreqArrays p ↔
    Stocked (s.worker w).dupreqPool (s.worker w).dupreqArrays p ∨ ∃ e ∈ es w, recordOf s w e = p

variable {es : ℕ → List ℕ}

lemma setWorker_worker (f : Worker → Worker) :
    (s.setWorker w f).worker w' = if w' = w then f (s.worker w) else s.worker w' := by
  unfold Server.setWorker
  rcases eq_or_ne w' w with rfl | hne
  · simp
  · simp [hne]

/-- At the start nothing is filed. -/
lemma Inv.init (h : Initial s) : Inv s s fun _ => [] where
  lru w := by
    obtain ⟨nb, entry, arrays, hfresh, hinit⟩ := h.lru w
    exact lruInit_represents hfresh hinit
  calls w := by
    obtain ⟨nb, entry, arrays, -, hinit⟩ := h.lru w
    unfold lruInit at hinit
    split_ifs at hinit
    rw [← Option.some.inj hinit]
  valid _ _ he := absurd he List.not_mem_nil
  listed _ _ he := absurd he List.not_mem_nil
  hashed xid p hp := by rw [h.empty xid] at hp; cases hp
  inj _ _ he := absurd he List.not_mem_nil
  spare w := (h.spare w).mono fun p ⟨_, he, _⟩ => absurd he List.not_mem_nil
  kept w p := by simp

lemma Inv.validEntries_eq (h : Inv s₀ s es) (w : ℕ) : validEntries s w = es w := by
  rw [validEntries, (h.lru w).entriesOf_eq, List.filter_eq_self]
  exact fun e he => decide_eq_true (h.valid w e he)

lemma Inv.unique (h₀ : Initial s₀) (h : Inv s₀ s es) {e e' : ℕ} (he : e ∈ es w) (he' : e' ∈ es w')
    (heq : recordOf s w e = recordOf s w' e') : w = w' ∧ e = e' := by
  have hw : w = w' := h₀.apart w w' (recordOf s w e) ((h.kept w _).mpr (.inr ⟨e, he, rfl⟩))
    ((h.kept w' _).mpr (.inr ⟨e', he', heq.symm⟩))
  subst hw
  exact ⟨rfl, h.inj w e he e' he' heq⟩

/-- Every entry of the table is filed with one worker. -/
lemma Inv.filed (h₀ : Initial s₀) (h : Inv s₀ s es) : Filed s where
  hashed xid p hp := by
    obtain ⟨-, w, e, he, hrec⟩ := h.hashed xid p hp
    refine ⟨(w, e), ⟨?_, hrec⟩, ?_⟩
    · rw [h.validEntries_eq]
      exact he
    · rintro ⟨w', e'⟩ ⟨he', hrec'⟩
      rw [h.validEntries_eq] at he'
      obtain ⟨rfl, rfl⟩ := h.unique h₀ he' he (hrec'.trans hrec.symm)
      rfl
  listed w e he := by
    rw [h.validEntries_eq] at he
    refine ⟨_, h.listed w e he, fun xid hxid => ?_⟩
    exact ((h.hashed xid _ hxid).1).symm
  xid xid p hp := (h.hashed xid p hp).1

/-- A record in the table is in no pool. -/
lemma Inv.not_stocked (h₀ : Initial s₀) (h : Inv s₀ s es) (hp : s.htDupreq xid = some p) :
    ¬ Stocked (s.worker w).dupreqPool (s.worker w).dupreqArrays p := by
  intro hstock
  obtain ⟨-, w', e, he, hrec⟩ := h.hashed xid p hp
  have hw : w = w' := h₀.apart w w' p ((h.kept w p).mpr (.inl hstock))
    ((h.kept w' p).mpr (.inr ⟨e, he, hrec⟩))
  subst hw
  rcases hstock with hpool | ⟨k, hk⟩
  · exact (h.spare w).pool_free p hpool ⟨e, he, hrec⟩
  · exact ((h.spare w).free k p hk).1 ⟨e, he, hrec⟩

/-- The worker's pools keep what they were given. -/
lemma Inv.keeps (h₀ : Initial s₀) (h : Inv s₀ s es) : Kept s₀ s where
  once w :=
    { pool_nodup := (h.spare w).pool_nodup
      pool_free := fun _ hp ⟨_, hxid⟩ => h.not_stocked h₀ hxid (.inl hp)
      nodup := (h.spare w).nodup
      free := fun k p hp =>
        ⟨fun ⟨_, hxid⟩ => h.not_stocked h₀ hxid (.inr ⟨k, hp⟩), ((h.spare w).free k p hp).2⟩
      disjoint := (h.spare w).disjoint }
  kept w p := by
    rw [h.validEntries_eq]
    exact h.kept w p

/-! ## Additions and lookups -/

/-- The invariant reads the lists, the table and the xids. -/
lemma Inv.congr (h : Inv s₀ s es) (hworker : s'.worker = s.worker) (htable : s'.htDupreq = s.htDupreq)
    (hxid : ∀ q, (s'.dupreq q).xid = (s.dupreq q).xid) : Inv s₀ s' es := by
  have hrec : ∀ w e, recordOf s' w e = recordOf s w e := fun w e => by
    rw [recordOf, hworker]
    rfl
  constructor
  · rw [hworker]
    exact h.lru
  · rw [hworker]
    exact h.calls
  · rw [hworker]
    exact h.valid
  · intro w e he
    rw [hrec, hxid, htable]
    exact h.listed w e he
  · intro xid p hp
    rw [htable] at hp
    rw [hxid]
    simp only [hrec]
    exact h.hashed xid p hp
  · simp only [hrec]
    exact h.inj
  · simp only [hrec, hworker]
    exact h.spare
  · simp only [hrec, hworker]
    exact h.kept

/-- A lookup changes times only. -/
theorem Inv.get (h : Inv s₀ s es) (now : ℤ) : Inv s₀ (nfsDupreqGet s xid now).2.2 es := by
  unfold nfsDupreqGet
  cases hp : s.htDupreq xid with
  | none => exact h
  | some p =>
    refine h.congr rfl rfl fun q => ?_
    show (Function.update s.dupreq p _ q).xid = _
    rcases eq_or_ne q p with rfl | hne
    · rw [Function.update_self]
    · rw [Function.update_of_ne hne]

/-- A worker takes another array of records. -/
lemma Inv.refill (h : Inv s₀ s es) {pool : List ℕ} {arrays : ℕ → List ℕ}
    (hspare : Spare pool arrays {p | ∃ e ∈ es w, recordOf s w e = p})
    (hstock : ∀ q, Stocked (s.worker w).dupreqPool (s.worker w).dupreqArrays q ↔
      Stocked pool arrays q) :
    Inv s₀ (s.setWorker w fun d => { d with dupreqPool := pool, dupreqArrays := arrays }) es := by
  set s' := s.setWorker w fun d => { d with dupreqPool := pool, dupreqArrays := arrays } with hs'
  have hlru : ∀ w', (s'.worker w').duplicateRequest = (s.worker w').duplicateRequest := by
    intro w'
    rw [hs', setWorker_worker]
    split_ifs with heq
    · rw [heq]
    · rfl
  -- the entries keep their records
  have hrec : ∀ w e, recordOf s' w e = recordOf s w e := fun w e => by
    rw [recordOf, hlru]
    rfl
  constructor
  · simp only [hlru]
    exact h.lru
  · simp only [hlru]
    exact h.calls
  · simp only [hlru]
    exact h.valid
  · simp only [hrec]
    exact h.listed
  · simp only [hrec]
    exact h.hashed
  · simp only [hrec]
    exact h.inj
  · intro w'
    simp only [hrec]
    rw [hs', setWorker_worker]
    split_ifs with heq
    · rw [heq]
      exact hspare
    · exact h.spare w'
  · intro w' p
    simp only [hrec]
    rw [hs', setWorker_worker]
    split_ifs with heq
    · rw [heq, h.kept w p, hstock p]
    · exact h.kept w' p

/-- A record is filed: the list, the table and the pool follow. -/
lemma Inv.push (h₀ : Initial s₀) (h : Inv s₀ s es) {e : ℕ} {l : LruList} {d : Worker}
    {dupreq : DupreqEntry R} (hxid : s.htDupreq xid = none) (hdxid : dupreq.xid = xid)
    (hstock : ∀ q, Stocked (s.worker w).dupreqPool (s.worker w).dupreqArrays q ↔
      q = p ∨ Stocked d.dupreqPool d.dupreqArrays q)
    (hspare : Spare d.dupreqPool d.dupreqArrays (insert p {p | ∃ e ∈ es w, recordOf s w e = p}))
    (hlru : Represents l (es w ++ [e])) (he : e ∉ es w)
    (hpushed : Pushed (s.worker w).duplicateRequest l e)
    (hd : d.duplicateRequest = l.setEntry e fun a => { a with pdata := p })
    (hworker : ∀ w', s'.worker w' = if w' = w then d else s.worker w')
    (htable : s'.htDupreq = Function.update s.htDupreq xid (some p))
    (hdupreq : s'.dupreq = Function.update s.dupreq p dupreq) :
    Inv s₀ s' (Function.update es w (es w ++ [e])) := by
  have hself : s'.worker w = d := by rw [hworker, if_pos rfl]
  have hother : ∀ w', w' ≠ w → s'.worker w' = s.worker w' := fun w' hne => by
    rw [hworker, if_neg hne]
  have hstate : ∀ a, (d.duplicateRequest.entry a).validState = (l.entry a).validState := by
    intro a
    rw [hd, setEntry_entry]
    split_ifs <;> rfl
  have hrep : Represents d.duplicateRequest (es w ++ [e]) := hd ▸ hlru.setData e p
  have hrec : ∀ w', ∀ a ∈ es w', recordOf s' w' a = recordOf s w' a := by
    intro w' a ha
    rcases eq_or_ne w' w with rfl | hne
    · have hae : a ≠ e := fun heq => he (heq ▸ ha)
      rw [recordOf, hself, hd, setEntry_entry, if_neg hae, hpushed.pdata]
      rfl
    · rw [recordOf, hother w' hne]
      rfl
  have hrece : recordOf s' w e = p := by
    rw [recordOf, hself, hd, setEntry_entry, if_pos rfl]
  have hmem : ∀ w' a, a ∈ Function.update es w (es w ++ [e]) w' ↔
      a ∈ es w' ∨ w' = w ∧ a = e := by
    intro w' a
    rcases eq_or_ne w' w with rfl | hne
    · rw [Function.update_self, List.mem_append, List.mem_singleton]
      simp
    · rw [Function.update_of_ne hne]
      simp [hne]
  -- the record is new, so no entry refers to it
  have hnew : ∀ w', ∀ a ∈ es w', recordOf s w' a ≠ p := by
    intro w' a ha heq
    have hp : Stocked (s.worker w).dupreqPool (s.worker w).dupreqArrays p :=
      (hstock p).mpr (.inl rfl)
    exact h.not_stocked h₀ (heq ▸ h.listed w' a ha) hp
  have hdup : ∀ q, q ≠ p → s'.dupreq q = s.dupreq q := fun q hq => by
    rw [hdupreq, Function.update_of_ne hq]
  have hdupp : (s'.dupreq p).xid = xid := by rw [hdupreq, Function.update_self, hdxid]
  have hlookup : ∀ x q, s.htDupreq x = some q → s'.htDupreq x = some q := by
    intro x q hq
    have hx : x ≠ xid := fun heq => by rw [heq, hxid] at hq; cases hq
    rw [htable, Function.update_of_ne hx, hq]
  constructor
  · intro w'
    rcases eq_or_ne w' w with rfl | hne
    · rw [hself, Function.update_self]
      exact hrep
    · rw [hother w' hne, Function.update_of_ne hne]
      exact h.lru w'
  · intro w'
    rcases eq_or_ne w' w with rfl | hne
    · rw [hself, hd]
      exact hpushed.nbCallGcInvalid.trans (h.calls _)
    · rw [hother w' hne]
      exact h.calls w'
  · intro w' a ha
    rcases (hmem w' a).mp ha with hin | ⟨rfl, rfl⟩
    · rcases eq_or_ne w' w with rfl | hne
      · have hae : a ≠ e := fun heq => he (heq ▸ hin)
        rw [hself, hstate, hpushed.validState, if_neg hae]
        exact h.valid _ a hin
      · rw [hother w' hne]
        exact h.valid w' a hin
    · rw [hself, hstate, hpushed.validState, if_pos rfl]
  · intro w' a ha
    rcases (hmem w' a).mp ha with ha | ⟨rfl, rfl⟩
    · rw [hrec w' a ha, hdup _ (hnew w' a ha)]
      exact hlookup _ _ (h.listed w' a ha)
    · rw [hrece, hdupp, htable, Function.update_self]
  · intro x q hq
    by_cases hx : x = xid
    · rw [hx, htable, Function.update_self] at hq
      have hq := Option.some.inj hq
      subst hq
      exact ⟨hdupp.trans hx.symm, w, e, (hmem w e).mpr (.inr ⟨rfl, rfl⟩), hrece⟩
    · rw [htable, Function.update_of_ne hx] at hq
      obtain ⟨hqx, w', a, ha, haq⟩ := h.hashed x q hq
      have hqp : q ≠ p := haq ▸ hnew w' a ha
      refine ⟨by rw [hdup q hqp, hqx], w', a, (hmem w' a).mpr (.inl ha), ?_⟩
      rw [hrec w' a ha, haq]
  · intro w' a ha b hb heq
    rcases (hmem w' a).mp ha with ina | ⟨rfl, rfl⟩
    · rcases (hmem w' b).mp hb with inb | ⟨rfl, rfl⟩
      · rw [hrec w' a ina, hrec w' b inb] at heq
        exact h.inj w' a ina b inb heq
      · rw [hrec _ a ina, hrece] at heq
        exact absurd heq (hnew _ a ina)
    · rcases (hmem _ b).mp hb with inb | ⟨-, rfl⟩
      · rw [hrec _ b inb, hrece] at heq
        exact absurd heq.symm (hnew _ b inb)
      · rfl
  · intro w'
    rcases eq_or_ne w' w with rfl | hne
    · rw [hself]
      refine hspare.mono ?_
      rintro q ⟨a, ha, rfl⟩
      rcases (hmem _ a).mp ha with ha | ⟨-, rfl⟩
      · exact .inr ⟨a, ha, (hrec _ a ha).symm⟩
      · exact .inl hrece
    · rw [hother w' hne, Function.update_of_ne hne]
      refine (h.spare w').mono ?_
      rintro q ⟨a, ha, rfl⟩
      exact ⟨a, ha, (hrec w' a ha).symm⟩
  · intro w' q
    have hused : (∃ a ∈ Function.update es w (es w ++ [e]) w', recordOf s' w' a = q) ↔
        (∃ a ∈ es w', recordOf s w' a = q) ∨ w' = w ∧ q = p := by
      constructor
      · rintro ⟨a, ha, rfl⟩
        rcases (hmem w' a).mp ha with ha | ⟨rfl, rfl⟩
        · exact .inl ⟨a, ha, (hrec w' a ha).symm⟩
        · exact .inr ⟨rfl, hrece⟩
      · rintro (⟨a, ha, rfl⟩ | ⟨rfl, rfl⟩)
        · exact ⟨a, (hmem w' a).mpr (.inl ha), hrec w' a ha⟩
        · exact ⟨e, (hmem _ e).mpr (.inr ⟨rfl, rfl⟩), hrece⟩
    rw [hused, h.kept w' q]
    rcases eq_or_ne w' w with rfl | hne
    · rw [hself, hstock q, or_comm (a := q = p), or_assoc, or_comm (a := q = p)]
      simp
    · rw [hother w' hne]
      simp [hne]

/-- An addition, with the exits that give the record back. -/
theorem Inv.add (h₀ : Initial s₀) (h : Inv s₀ s es) {req : SvcReq} {resNfs : R} {now : ℤ}
    {setOk : Bool} (hsound : Sound s (.add w xid req resNfs now setOk)) :
    ∃ es', Inv s₀ (nfsDupreqAdd s w xid req resNfs now setOk).2 es' := by
  have hget := (h.spare w).get s.param.nbDupreqPrealloc
  have hstock := stocked_get (s.worker w).dupreqPool (s.worker w).dupreqArrays
    s.param.nbDupreqPrealloc
  simp only [Sound] at hsound
  simp only [nfsDupreqAdd]
  rcases hpre : getPrealloc s.param.nbDupreqPrealloc (s.worker w).dupreqPool
    (s.worker w).dupreqArrays with ⟨_ | p, pool, arrays⟩
  · rw [hpre] at hget hstock
    exact ⟨es, h.refill hget hstock⟩
  · rw [hpre] at hget hstock hsound
    obtain ⟨hxid, rfl, hnew⟩ := hsound (Option.some_ne_none p)
    have hnewEntry := (h.lru w).newEntry
    rcases hlru : lruNewEntry (s.worker w).duplicateRequest with ⟨_ | e, l⟩
    · rw [hlru] at hnew
      exact absurd rfl hnew
    rw [hlru] at hnewEntry
    obtain ⟨he, hrep, hpushed⟩ := hnewEntry
    let d : Worker := ⟨l.setEntry e fun a => { a with pdata := p }, pool, arrays⟩
    let dupreq : DupreqEntry R := ⟨xid, resNfs, req.rqProg, req.rqVers, req.rqProc, now⟩
    have hresult : (dupreqInsert ((s.setWorker w fun d =>
        { d with dupreqPool := pool, dupreqArrays := arrays }).setDupreq p fun _ => dupreq) w xid p
        true).2 = { s with
          worker := Function.update s.worker w d
          dupreq := Function.update s.dupreq p dupreq
          htDupreq := Function.update s.htDupreq xid (some p) } := by
      simp [dupreqInsert, hashTableSet, Server.setWorker, Server.setDupreq, hlru, d]
    refine ⟨Function.update es w (es w ++ [e]), ?_⟩
    rw [hresult]
    refine h.push h₀ (d := d) hxid rfl hstock hget.2 hrep he hpushed rfl (fun w' => ?_) rfl rfl
    exact Function.update_apply _ _ _ _

/-! ## Garbage collection -/

/-- The records `ds` are taken out of the table and put back to the pool of the worker `w`. -/
structure Cleaned (s s' : Server R) (w : ℕ) (ds : List ℕ) : Prop where
  table : ∀ xid, s'.htDupreq xid =
    if ∃ d ∈ ds, s.htDupreq xid = some d then none else s.htDupreq xid
  xid : ∀ q, (s'.dupreq q).xid = (s.dupreq q).xid
  worker : s'.worker = Function.update s.worker w
    { s.worker w with dupreqPool := ds.reverse ++ (s.worker w).dupreqPool }

/-- One entry is taken out of the table. -/
lemma cleanEntryDupreq_spec {r : Bool × Server R} (hp : s.htDupreq (s.dupreq p).xid = some p)
    (hkeys : ∀ x q, s.htDupreq x = some q → (s.dupreq q).xid = x)
    (h : cleanEntryDupreq w p s = some r) : Cleaned s r.2 w [p] := by
  simp only [cleanEntryDupreq, hp] at h
  split at h
  · cases h
  · cases h
    refine ⟨fun x => ?_, fun q => ?_, rfl⟩
    · show Function.update s.htDupreq (s.dupreq p).xid none x = _
      by_cases hx : x = (s.dupreq p).xid
      · rw [hx, Function.update_self, if_pos ⟨p, List.mem_singleton_self p, hp⟩]
      · have hnot : ¬ ∃ d ∈ [p], s.htDupreq x = some d := by
          rintro ⟨d, hd, hxd⟩
          rw [List.mem_singleton.mp hd] at hxd
          exact hx (hkeys x p hxd).symm
        rw [Function.update_of_ne hx, if_neg hnot]
    · show (Function.update s.dupreq p _ q).xid = _
      rcases eq_or_ne q p with rfl | hne
      · rw [Function.update_self]
      · rw [Function.update_of_ne hne]

/-- One entry more in front. -/
lemma Cleaned.cons {s₁ : Server R} {ds : List ℕ} (h₁ : Cleaned s s₁ w [p])
    (h₂ : Cleaned s₁ s' w ds) : Cleaned s s' w (p :: ds) where
  table xid := by
    rw [h₂.table, h₁.table]
    simp only [List.mem_cons, exists_eq_or_imp]
    by_cases hp : s.htDupreq xid = some p
    · simp [hp]
    · simp [hp]
  xid q := (h₂.xid q).trans (h₁.xid q)
  worker := by
    rw [h₂.worker, h₁.worker]
    simp

/-- The entries of a list, one after the other. -/
lemma cleanAll_cleaned {ds : List ℕ} {rc : Lru.Status} {r : Lru.Status × Server R}
    (hnd : ds.Nodup) (hds : ∀ d ∈ ds, s.htDupreq (s.dupreq d).xid = some d)
    (hkeys : ∀ x q, s.htDupreq x = some q → (s.dupreq q).xid = x)
    (h : cleanAll (cleanEntryDupreq w) ds rc s = some r) : Cleaned s r.2 w ds := by
  induction ds generalizing s rc with
  | nil =>
    cases h
    exact ⟨fun xid => by simp, fun _ => rfl, by simp⟩
  | cons d ds ih =>
    unfold cleanAll at h
    split at h
    · cases h
    · rename_i ok s₁ hclean
      have h₁ := cleanEntryDupreq_spec (hds d List.mem_cons_self) hkeys hclean
      have hnd := List.nodup_cons.mp hnd
      refine h₁.cons (ih hnd.2 (fun d' hd' => ?_) (fun x q hq => ?_) h)
      · have hlook := hds d' (List.mem_cons_of_mem d hd')
        have hnot : ¬ ∃ a ∈ [d], s.htDupreq (s.dupreq d').xid = some a := by
          rintro ⟨a, ha, heq⟩
          rw [List.mem_singleton.mp ha, hlook] at heq
          exact hnd.1 (Option.some.inj heq ▸ hd')
        rw [h₁.xid, h₁.table, if_neg hnot, hlook]
      · rw [h₁.xid]
        rw [h₁.table] at hq
        split_ifs at hq
        exact hkeys x q hq

section Gc
variable {testfunc : Server R → ℕ → ℕ → Bool}

lemma Inv.collected_eq (h : Inv s₀ s es) :
    collected s w testfunc = (es w).dropLast.filter (testfunc s w) := by
  rw [collected, (h.lru w).entriesOf_eq]

lemma Inv.mem_of_collected (h : Inv s₀ s es) {e : ℕ} (he : e ∈ collected s w testfunc) :
    e ∈ es w := by
  rw [h.collected_eq] at he
  exact List.dropLast_subset _ (List.mem_filter.mp he).1

/-- The LRU list of the worker after `LRU_invalidate_by_function`. -/
def tagged (s : Server R) (w : ℕ) (testfunc : Server R → ℕ → ℕ → Bool) : LruList :=
  invalidateAll (s.worker w).duplicateRequest (collected s w testfunc)

lemma Inv.tagged (h : Inv s₀ s es) (w : ℕ) (testfunc : Server R → ℕ → ℕ → Bool) :
    Represents (tagged s w testfunc) (es w) :=
  (h.lru w).invalidateAll fun _ => h.mem_of_collected

lemma Inv.collectable (h : Inv s₀ s es) (w : ℕ) (testfunc : Server R → ℕ → ℕ → Bool) :
    (DupReq.tagged s w testfunc).collectable (es w) = collected s w testfunc := by
  rw [DupReq.tagged, h.collected_eq]
  refine collectable_invalidateAll (fun p hp => ?_) (testfunc s w)
  rw [LruList.isInvalid, h.valid w p hp]
  rfl

/-- The collector is the clean-up of the expired entries. -/
lemma Inv.gc_eq (h : Inv s₀ s es) (hlength : (es w).length < 2 ^ 32) :
    dupreqGc s w (testfunc s w) =
      (cleanAll (cleanEntryDupreq w) ((collected s w testfunc).map (recordOf s w)) .success s).map
        fun r => r.2.setWorker w fun d =>
          { d with
            duplicateRequest := unlinkAll (DupReq.tagged s w testfunc) (collected s w testfunc) } := by
  have htag : lruInvalidateByFunction (s.worker w).duplicateRequest (testfunc s w) =
      some (.success, DupReq.tagged s w testfunc) := by
    rw [(h.lru w).invalidateByFunction, DupReq.tagged, h.collected_eq]
    split_ifs with hzero
    · -- a length that is 0 in 32 bits is 0
      have hempty := congrArg UInt32.toNat hzero
      rw [UInt32.toNat_ofNat_of_lt' hlength] at hempty
      rw [List.length_eq_zero_iff.mp hempty]
      rfl
    · rfl
  have hcollect := h.collectable w testfunc
  have hrep := h.tagged w testfunc
  have hdata : (fun p => ((DupReq.tagged s w testfunc).entry p).pdata) = recordOf s w := by
    funext p
    exact invalidateAll_pdata
  unfold dupreqGc
  rw [htag]
  simp only
  by_cases hcount : (es w).countP (DupReq.tagged s w testfunc).isInvalid = 0
  · -- nothing is tagged
    have hnil : collected s w testfunc = [] := by
      rw [← hcollect, LruList.collectable, List.filter_eq_nil_iff]
      intro p hp
      exact List.countP_eq_zero.mp hcount p (List.dropLast_subset _ hp)
    have hgc : lruGcInvalid (cleanEntryDupreq w) (DupReq.tagged s w testfunc) s =
        some (.success, DupReq.tagged s w testfunc, s) := by
      unfold lruGcInvalid
      rw [if_pos (by rw [hrep.nbInvalid, hcount]; rfl)]
    rw [hgc, hnil]
    rfl
  · have hnb : UInt32.ofNat ((es w).countP (DupReq.tagged s w testfunc).isInvalid) ≠ 0 := by
      intro hzero
      have hzero := congrArg UInt32.toNat hzero
      rw [UInt32.toNat_ofNat_of_lt' (List.countP_le_length.trans_lt hlength)] at hzero
      exact hcount hzero
    have hcalls : ¬ (DupReq.tagged s w testfunc).nbCallGc <
        (DupReq.tagged s w testfunc).nbCallGcInvalid := by
      rw [DupReq.tagged, invalidateAll_nbCallGcInvalid, h.calls w, UInt32.lt_iff_toNat_lt]
      exact Nat.not_lt_zero _
    rw [hrep.gcInvalid hnb hcalls, hcollect, hdata]
    cases cleanAll (cleanEntryDupreq w) ((collected s w testfunc).map (recordOf s w)) .success s <;>
      rfl

/-- The records collected are those of the worker. -/
lemma Inv.mem_records (h₀ : Initial s₀) (h : Inv s₀ s es) {e : ℕ} (he : e ∈ es w') :
    recordOf s w' e ∈ (collected s w testfunc).map (recordOf s w) ↔
      w' = w ∧ e ∈ collected s w testfunc := by
  rw [List.mem_map]
  constructor
  · rintro ⟨a, ha, heq⟩
    obtain ⟨rfl, rfl⟩ := h.unique h₀ (h.mem_of_collected ha) he heq
    exact ⟨rfl, ha⟩
  · rintro ⟨rfl, he⟩
    exact ⟨e, he, rfl⟩

/-- The records of the collected entries leave the table for the pool. -/
theorem Inv.gc (h₀ : Initial s₀) (h : Inv s₀ s es) (hlength : (es w).length < 2 ^ 32)
    (hstep : dupreqGc s w (testfunc s w) = some s') :
    Inv s₀ s' (Function.update es w ((es w).filter fun e => e ∉ collected s w testfunc)) ∧
      Collects s s' w testfunc := by
  rw [h.gc_eq hlength, Option.map_eq_some_iff] at hstep
  obtain ⟨r, hclean, hs'⟩ := hstep
  set ps := collected s w testfunc with hps
  have hnd : ps.Nodup := by
    rw [hps, h.collected_eq]
    exact ((List.dropLast_sublist _).nodup (h.lru w).nodup).filter _
  -- different entries have different records
  have hndrec : (ps.map (recordOf s w)).Nodup := hnd.map_on fun a ha b hb heq =>
    h.inj w a (h.mem_of_collected ha) b (h.mem_of_collected hb) heq
  have hcleaned : Cleaned s r.2 w (ps.map (recordOf s w)) := by
    refine cleanAll_cleaned hndrec (fun d hd => ?_) (fun x q hq => (h.hashed x q hq).1) hclean
    obtain ⟨e, he, rfl⟩ := List.mem_map.mp hd
    exact h.listed w e (h.mem_of_collected he)
  have htable : ∀ x, s'.htDupreq x =
      if ∃ d ∈ ps.map (recordOf s w), s.htDupreq x = some d then none else s.htDupreq x := by
    intro x
    rw [← hs']
    exact hcleaned.table x
  have hxid : ∀ q, (s'.dupreq q).xid = (s.dupreq q).xid := by
    intro q
    rw [← hs']
    exact hcleaned.xid q
  have hself : s'.worker w = ⟨unlinkAll (DupReq.tagged s w testfunc) ps,
      (ps.map (recordOf s w)).reverse ++ (s.worker w).dupreqPool, (s.worker w).dupreqArrays⟩ := by
    rw [← hs', setWorker_worker, if_pos rfl, hcleaned.worker, Function.update_self]
  have hother : ∀ w', w' ≠ w → s'.worker w' = s.worker w' := fun w' hne => by
    rw [← hs', setWorker_worker, if_neg hne, hcleaned.worker, Function.update_of_ne hne]
  -- the list is the old one without the collected entries
  have hrep : Represents (s'.worker w).duplicateRequest ((es w).filter fun e => e ∉ ps) := by
    have hcollect := (h.tagged w testfunc).collect
    rw [h.collectable] at hcollect
    rw [hself]
    exact hcollect
  have hrec : ∀ w' e, recordOf s' w' e = recordOf s w' e := by
    intro w' e
    rcases eq_or_ne w' w with rfl | hne
    · rw [recordOf, hself]
      exact unlinkAll_entry.2.trans invalidateAll_pdata
    · rw [recordOf, hother w' hne]
      rfl
  have hmem : ∀ w' a, a ∈ Function.update es w ((es w).filter fun e => e ∉ ps) w' ↔
      a ∈ es w' ∧ ¬ (w' = w ∧ a ∈ ps) := by
    intro w' a
    rcases eq_or_ne w' w with rfl | hne
    · rw [Function.update_self, List.mem_filter]
      simp
    · rw [Function.update_of_ne hne]
      simp [hne]
  have hkeep : ∀ w' a, a ∈ es w' → ¬ (w' = w ∧ a ∈ ps) →
      s'.htDupreq (s.dupreq (recordOf s w' a)).xid = some (recordOf s w' a) := by
    intro w' a ha hnot
    have hlook := h.listed w' a ha
    have hno : ¬ ∃ d ∈ ps.map (recordOf s w), s.htDupreq (s.dupreq (recordOf s w' a)).xid = some d := by
      rintro ⟨d, hd, heq⟩
      rw [hlook] at heq
      exact hnot ((h.mem_records h₀ ha).mp (Option.some.inj heq ▸ hd))
    rw [htable, if_neg hno, hlook]
  have hused : ∀ w' q, (∃ a ∈ Function.update es w ((es w).filter fun e => e ∉ ps) w',
      recordOf s' w' a = q) ↔ ∃ a ∈ es w', recordOf s w' a = q ∧ ¬ (w' = w ∧ a ∈ ps) := by
    intro w' q
    simp only [hmem, hrec]
    constructor
    · rintro ⟨a, ⟨ha, hnot⟩, haq⟩
      exact ⟨a, ha, haq, hnot⟩
    · rintro ⟨a, ha, haq, hnot⟩
      exact ⟨a, ⟨ha, hnot⟩, haq⟩
  refine ⟨⟨?_, ?_, ?_, ?_, ?_, ?_, ?_, ?_⟩, ?_, ?_, ?_⟩
  · intro w'
    rcases eq_or_ne w' w with rfl | hne
    · rw [Function.update_self]
      exact hrep
    · rw [hother w' hne, Function.update_of_ne hne]
      exact h.lru w'
  · intro w'
    rcases eq_or_ne w' w with rfl | hne
    · rw [hself]
      exact unlinkAll_nbCallGcInvalid.trans (invalidateAll_nbCallGcInvalid.trans (h.calls _))
    · rw [hother w' hne]
      exact h.calls w'
  · intro w' a ha
    obtain ⟨hin, hnot⟩ := (hmem w' a).mp ha
    rcases eq_or_ne w' w with rfl | hne
    · have hout : a ∉ ps := fun hps => hnot ⟨rfl, hps⟩
      rw [hself]
      refine unlinkAll_entry.1.trans ?_
      rw [DupReq.tagged, invalidateAll_validState, if_neg hout]
      exact h.valid _ a hin
    · rw [hother w' hne]
      exact h.valid w' a hin
  · intro w' a ha
    obtain ⟨hin, hnot⟩ := (hmem w' a).mp ha
    rw [hrec, hxid]
    exact hkeep w' a hin hnot
  · intro x q hq
    rw [htable] at hq
    split_ifs at hq with hex
    obtain ⟨hqx, w', a, ha, haq⟩ := h.hashed x q hq
    refine ⟨(hxid q).trans hqx, w', a, (hmem w' a).mpr ⟨ha, fun hand => hex ?_⟩, ?_⟩
    · refine ⟨q, ?_, hq⟩
      rw [← haq]
      exact (h.mem_records h₀ ha).mpr hand
    · rw [hrec, haq]
  · intro w' a ha b hb heq
    rw [hrec, hrec] at heq
    exact h.inj w' a ((hmem w' a).mp ha).1 b ((hmem w' b).mp hb).1 heq
  · intro w'
    rcases eq_or_ne w' w with rfl | hne
    · rw [hself]
      refine ((h.spare w').releaseAll hndrec fun q hq => ?_).mono fun q hq => ?_
      · obtain ⟨a, ha, rfl⟩ := List.mem_map.mp hq
        exact ⟨a, h.mem_of_collected ha, rfl⟩
      · obtain ⟨a, ha, rfl, hnot⟩ := (hused w' q).mp hq
        exact ⟨⟨a, ha, rfl⟩, fun hin => hnot ((h.mem_records h₀ ha).mp hin)⟩
    · rw [hother w' hne]
      refine (h.spare w').mono fun q hq => ?_
      obtain ⟨a, ha, hrec, -⟩ := (hused w' q).mp hq
      exact ⟨a, ha, hrec⟩
  · intro w' q
    rw [hused, h.kept w' q]
    rcases eq_or_ne w' w with rfl | hne
    · rw [hself]
      simp only [Stocked, List.mem_append, List.mem_reverse]
      constructor
      · rintro ((hpool | hk) | ⟨a, ha, rfl⟩)
        · exact .inl (.inl (.inr hpool))
        · exact .inl (.inr hk)
        · by_cases hin : a ∈ ps
          · exact .inl (.inl (.inl ((h.mem_records h₀ ha).mpr ⟨rfl, hin⟩)))
          · exact .inr ⟨a, ha, rfl, fun hand => hin hand.2⟩
      · rintro (((hin | hpool) | hk) | ⟨a, ha, rfl, -⟩)
        · obtain ⟨a, ha, rfl⟩ := List.mem_map.mp hin
          exact .inr ⟨a, h.mem_of_collected ha, rfl⟩
        · exact .inl (.inl hpool)
        · exact .inl (.inr hk)
        · exact .inr ⟨a, ha, rfl⟩
    · rw [hother w' hne]
      simp [hne]
  · rw [hrep.entriesOf_eq, (h.lru w).entriesOf_eq]
  · rw [hself]
  · intro x
    have hiff : (∃ d ∈ ps.map (recordOf s w), s.htDupreq x = some d) ↔
        ∃ e ∈ ps, s.htDupreq x = some (recordOf s w e) := by simp
    rw [htable]
    exact if_congr hiff rfl rfl

end Gc

/-! ## Runs -/

/-- In a run all of whose calls are sound, the table and the lists go together, no record is lost or
put back twice, and each garbage collection forgets the records of its own entries only. -/
theorem filed_of_sound (h₀ : Initial s₀) (h : ReachableBy step Sound s₀ s) :
    Filed s ∧ Kept s₀ s ∧ ∀ w testfunc s', Sound s (.gc w testfunc) →
      step s (.gc w testfunc) = some s' → Collects s s' w testfunc := by
  have hinv : ∃ es, Inv s₀ s es := by
    refine ReachableBy.invariant (I := fun s => ∃ es, Inv s₀ s es) ⟨_, Inv.init h₀⟩ ?_ h
    rintro s ev s' ⟨es, hinv⟩ hsound hstep
    cases ev with
    | add w xid req resNfs now setOk =>
      rw [← Option.some.inj hstep]
      exact hinv.add h₀ hsound
    | get xid now =>
      rw [← Option.some.inj hstep]
      exact ⟨es, hinv.get now⟩
    | gc w testfunc =>
      have hlength : (es w).length < 2 ^ 32 := (hinv.lru w).entriesOf_eq ▸ hsound
      exact ⟨_, (hinv.gc h₀ hlength hstep).1⟩
  obtain ⟨es, hinv⟩ := hinv
  refine ⟨hinv.filed h₀, hinv.keeps h₀, fun w testfunc s' hsound hstep => ?_⟩
  exact (hinv.gc h₀ ((hinv.lru w).entriesOf_eq ▸ hsound) hstep).2

/-- A cache in which every array has one record or one entry. -/
def sampleCache : Server ℕ where
  param :=
    { nfsProgram := 100003
      mntProgram := 100005
      nlmProgram := none
      rquotaProgram := none
      nbDupreqPrealloc := 1
      expirationDupreq := 180
      freeFunction := fun _ _ res => res }
  htDupreq := fun _ => none
  dupreq := fun _ => ⟨0, 0, 0, 0, 0, 0⟩
  worker := fun w =>
    { duplicateRequest :=
        { lru := none
          mru := none
          nbEntry := 0
          nbInvalid := 0
          nbCallGc := 0
          nbEntryPrealloc := 1
          nbCallGcInvalid := 0
          entryPrealloc := [0]
          entry := fun _ => ⟨none, none, .blank, 0⟩
          arrays := fun k => [k + 1]
          allocs := 0 }
      dupreqPool := [Nat.pair w 0]
      dupreqArrays := fun k => [Nat.pair w (k + 1)] }

/-- The sample cache is empty. -/
lemma sampleCache_initial : Initial sampleCache where
  empty _ := rfl
  lru w := ⟨1, fun _ => ⟨none, none, .blank, 0⟩, fun k => [k],
    ⟨fun k => List.nodup_singleton k, fun k k' hne => by simpa using hne.symm⟩, rfl⟩
  spare w := by
    refine ⟨List.nodup_singleton _, fun _ _ => Set.notMem_empty _, fun _ => List.nodup_singleton _,
      fun k p hp => ⟨Set.notMem_empty _, ?_⟩, fun k k' hne => ?_⟩
    · rw [List.mem_singleton.mp hp]
      simp [sampleCache]
    · simpa [sampleCache] using hne.symm
  apart w w' p := by
    simp only [Stocked, sampleCache, List.mem_singleton]
    rintro (rfl | ⟨k, rfl⟩) (heq | ⟨k', heq⟩) <;> exact (Nat.pair_eq_pair.mp heq).1

/-- A call of NFSv3 with the transfer id `xid`. -/
def sampleAdd (xid : Int64) (now : ℤ) : Event ℕ :=
  .add 0 xid ⟨100003, 3, 8⟩ 7 now true

/-- Two calls are added, and the first one is collected when it has expired. -/
theorem filed_after_expiration :
    (execute step sampleCache
      [sampleAdd 5 0, sampleAdd 6 200, .gc 0 (nfsDupreqGcFunction 201)]).any
        (fun s => s.htDupreq 5 = none ∧ validEntries s 0 = [1]) = true ∧
      ∀ s, execute step sampleCache
        [sampleAdd 5 0, sampleAdd 6 200, .gc 0 (nfsDupreqGcFunction 201)] = some s →
        Filed s ∧ Kept sampleCache s := by
  refine ⟨by decide +kernel, fun s hs => ?_⟩
  have hreach := reachableBy_of_execute (C := Sound) hs (by decide +kernel)
  have hfiled := filed_of_sound sampleCache_initial hreach
  exact ⟨hfiled.1, hfiled.2.1⟩

/-- The transfer id 5 is added again before its first record has expired. The old record keeps its
LRU entry but is no longer in the table. -/
theorem not_filed_after_repeated_xid :
    ¬ ∀ (s₀ s : Server ℕ), Initial s₀ → Reachable step s₀ s → Filed s := by
  intro h
  obtain ⟨s, hs⟩ : ∃ s, execute step sampleCache [sampleAdd 5 0, sampleAdd 5 1] = some s :=
    Option.isSome_iff_exists.mp (by decide +kernel)
  have hread : (execute step sampleCache [sampleAdd 5 0, sampleAdd 5 1]).all (fun s =>
      validEntries s 0 = [0, 1] ∧ recordOf s 0 0 = 0 ∧ (s.dupreq 0).xid = 5 ∧
        s.htDupreq 5 = some 1) = true := by decide +kernel
  rw [hs, Option.all_some, decide_eq_true_iff] at hread
  obtain ⟨hentries, hrecord, hxid, hlook⟩ := hread
  have hfiled := h sampleCache s sampleCache_initial
    (reachableBy_of_execute hs (by decide +kernel))
  obtain ⟨x, hx, -⟩ := hfiled.listed 0 0 (hentries ▸ List.mem_cons_self)
  rw [hrecord] at hx
  have hx5 : x = 5 := (hfiled.xid x 0 hx).symm.trans hxid
  rw [hx5, hlook] at hx
  cases hx

end Ganesha.DupReq
