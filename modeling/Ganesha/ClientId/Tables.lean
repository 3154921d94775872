import Ganesha.ClientId.Common
import Ganesha.Pools

/-!
# The two tables of the client records

A record is found under its clientid and under its name, or under neither (`SameRecords`), in every
run in which a clientid keeps its name and a name its clientid (`Matched`). No record ever goes back
to a pool, so each one is where it should be (`Returned`) only as long as no record is replaced,
removed or given up (`Quiet`).
-/

namespace Ganesha.ClientId
open Library.Transition Ganesha.Pools
open Ganesha.Hash (getPrealloc releasePrealloc)

variable {s s' s₀ : Clients} {w : ℕ} {clientid : UInt64} {record : ClientRecord} {allocs : Allocs}
  {p q : ℕ}

/-- The record is in one of the tables. -/
def InUse (s : Clients) (p : ℕ) : Prop :=
  (∃ c, s.htClientId c = some p) ∨ ∃ n, s.htClientIdReverse n = some p

/-- The two tables describe the same records. -/
structure SameRecords (s : Clients) : Prop where
  clientid : ∀ c p, s.htClientId c = some p → (s.record p).clientid = c
  name : ∀ n p, s.htClientIdReverse n = some p → (s.record p).clientName = n
  same : ∀ p, s.htClientId (s.record p).clientid = some p ↔
    s.htClientIdReverse (s.record p).clientName = some p

/-- What `nfs_client_id_get` finds is found by `nfs_client_id_get_reverse` under its name, and the
other way round. -/
structure SameLookups (s : Clients) : Prop where
  clientid : ∀ c r, nfsClientIdGet s c true = (.success, some r) →
    r.clientid = c ∧ nfsClientIdGetReverse s r.clientName = (.success, some r)
  name : ∀ n r, nfsClientIdGetReverse s n = (.success, some r) →
    r.clientName = n ∧ nfsClientIdGet s r.clientid true = (.success, some r)

/-- A record that was taken is in the tables and in no pool, or it is once in a pool. -/
def Returned (s : Clients) : Prop :=
  ∀ p ∈ s.used, InUse s p ∧ (∀ w, p ∉ s.clientidPool w) ∨
    ¬ InUse s p ∧ ∃ w, (s.clientidPool w).count p = 1

/-- The tables are empty, and the arrays to come hold different records, in no pool. -/
structure Initial (s : Clients) : Prop where
  empty : ∀ c, s.htClientId c = none
  emptyReverse : ∀ n, s.htClientIdReverse n = none
  used : s.used = []
  spare : Spare [] s.arrays ∅
  apart : ∀ w k, ∀ p ∈ s.arrays k, p ∉ s.clientidPool w

/-- A call that takes a record has no pool to take it from, and stores it under its own clientid; it
replaces a record of the same name and clientid only, and the second table takes what the first one
has taken. -/
def Matched (s : Clients) : Event → Prop
  | .add w clientid record allocs | .set w clientid record allocs =>
    (getPrealloc s.nbClientIdPrealloc (s.clientidPool w) s.arrays).1 ≠ none →
      s.clientidPool w = [] ∧ record.clientid = clientid ∧
        (∀ q ∈ s.htClientId clientid, (s.record q).clientName = record.clientName) ∧
        (∀ q ∈ s.htClientIdReverse record.clientName, (s.record q).clientid = clientid) ∧
        (allocs.setOk → allocs.reverseOk)
  | .remove _ _ _ => True

/-- A call that takes a record stores it as a new one; no record is removed. -/
def Quiet (s : Clients) : Event → Prop
  | .add w clientid _ allocs | .set w clientid _ allocs =>
    (getPrealloc s.nbClientIdPrealloc (s.clientidPool w) s.arrays).1 ≠ none →
      s.htClientId clientid = none ∧ allocs.clientidOk ∧ allocs.nameOk ∧ allocs.setOk
  | .remove _ clientid allocOk => allocOk → s.htClientId clientid = none

/-! ## The invariant -/

/-- The tables hold records that were taken, which are not in the pools nor in the arrays to come. -/
structure Inv (s : Clients) : Prop where
  same : SameRecords s
  used : ∀ p, InUse s p → p ∈ s.used
  spare : Spare [] s.arrays {p | p ∈ s.used}
  apart : ∀ w k, ∀ p ∈ s.arrays k, p ∉ s.clientidPool w
  pools : ∀ w, ∀ p ∈ s.used, p ∉ s.clientidPool w

/-- At the start no record is in use. -/
lemma Inv.init (h : Initial s) : Inv s where
  same :=
    { clientid := fun c p hp => by rw [h.empty] at hp; cases hp
      name := fun n p hp => by rw [h.emptyReverse] at hp; cases hp
      same := fun p => by rw [h.empty, h.emptyReverse] }
  used p hp := by
    rcases hp with ⟨c, hc⟩ | ⟨n, hn⟩
    · rw [h.empty] at hc
      cases hc
    · rw [h.emptyReverse] at hn
      cases hn
  spare := h.spare.mono fun p hp => by
    rw [Set.mem_ofPred_eq, h.used] at hp
    cases hp
  apart := h.apart
  pools w p hp := by
    rw [h.used] at hp
    cases hp

/-- A record in use is found by its id. -/
lemma SameRecords.lookup (h : SameRecords s) (hp : InUse s p) :
    s.htClientId (s.record p).clientid = some p := by
  rcases hp with ⟨c, hc⟩ | ⟨n, hn⟩
  · rw [h.clientid c p hc]
    exact hc
  · apply (h.same p).mpr
    rw [h.name n p hn]
    exact hn

lemma nfsClientIdGet_eq_success {c : UInt64} :
    nfsClientIdGet s c true = (.success, some record) ↔
      ∃ p, s.htClientId c = some p ∧ s.record p = record := by
  unfold nfsClientIdGet
  rw [if_neg (not_not_intro rfl)]
  cases s.htClientId c <;> simp

lemma nfsClientIdGetReverse_eq_success {n : List UInt8} :
    nfsClientIdGetReverse s n = (.success, some record) ↔
      ∃ p, s.htClientIdReverse n = some p ∧ s.record p = record := by
  unfold nfsClientIdGetReverse
  cases s.htClientIdReverse n <;> simp

/-- Both tables lead to one place for a record, so the two lookups copy the same bytes. -/
lemma SameRecords.lookups (h : SameRecords s) : SameLookups s where
  clientid c r hget := by
    obtain ⟨p, hp, rfl⟩ := nfsClientIdGet_eq_success.mp hget
    have hc := h.clientid c p hp
    have hname := (h.same p).mp (hc ▸ hp)
    exact ⟨hc, nfsClientIdGetReverse_eq_success.mpr ⟨p, hname, rfl⟩⟩
  name n r hget := by
    obtain ⟨p, hp, rfl⟩ := nfsClientIdGetReverse_eq_success.mp hget
    have hn := h.name n p hp
    have hid := (h.same p).mpr (hn ▸ hp)
    exact ⟨hn, nfsClientIdGet_eq_success.mpr ⟨p, hid, rfl⟩⟩

/-! ## Storing a record -/

/-- The tables with a record stored under its two keys. -/
def stored (s : Clients) (clientid : UInt64) (record : ClientRecord) (p : ℕ) : Clients :=
  { s with
    record := Function.update s.record p record
    htClientId := Function.update s.htClientId clientid (some p)
    htClientIdReverse := Function.update s.htClientIdReverse record.clientName (some p) }

/-- The insertion where only the table of ids can fail. -/
lemma clientIdInsert_eq (hreverse : s.htClientId clientid ≠ none ∨ allocs.setOk →
    s.htClientIdReverse record.clientName ≠ none ∨ allocs.reverseOk) :
    (clientIdInsert s clientid record p allocs).2 =
      if allocs.clientidOk ∧ allocs.nameOk then
        if s.htClientId clientid ≠ none ∨ allocs.setOk then stored s clientid record p
        else { s with record := Function.update s.record p record }
      else s := by
  unfold clientIdInsert hashTableSet stored
  by_cases hkeys : allocs.clientidOk ∧ allocs.nameOk
  · have hnot : ¬ (¬ allocs.clientidOk = true ∨ ¬ allocs.nameOk = true) := by
      rw [hkeys.1, hkeys.2]
      decide
    rw [if_neg hnot, if_pos hkeys]
    by_cases hset : s.htClientId clientid ≠ none ∨ allocs.setOk
    · simp only [if_pos hset, if_pos (hreverse hset)]
    · simp only [if_neg hset]
  · have hnot : ¬ allocs.clientidOk = true ∨ ¬ allocs.nameOk = true := by
      rw [← not_and_or]
      exact hkeys
    rw [if_pos hnot, if_neg hkeys]

lemma stored_htClientId (c : UInt64) : (stored s clientid record p).htClientId c =
    if c = clientid then some p else s.htClientId c :=
  Function.update_apply _ _ _ _

lemma stored_reverse (n : List UInt8) : (stored s clientid record p).htClientIdReverse n =
    if n = record.clientName then some p else s.htClientIdReverse n :=
  Function.update_apply _ _ _ _

lemma stored_record (q : ℕ) : (stored s clientid record p).record q =
    if q = p then record else s.record q :=
  Function.update_apply _ _ _ _

/-- A record is filed under both keys. -/
lemma SameRecords.store (h : SameRecords s) (hp : ¬ InUse s p) (hclientid : record.clientid = clientid)
    (hname : ∀ q ∈ s.htClientId clientid, (s.record q).clientName = record.clientName)
    (hid : ∀ q ∈ s.htClientIdReverse record.clientName, (s.record q).clientid = clientid) :
    SameRecords (stored s clientid record p) := by
  have hne : ∀ q, InUse s q → q ≠ p := fun q hq heq => hp (heq ▸ hq)
  refine ⟨fun c q hq => ?_, fun n q hq => ?_, fun q => ?_⟩
  · rw [stored_htClientId] at hq
    split_ifs at hq with hc
    · rw [← Option.some.inj hq, stored_record, if_pos rfl, hclientid, hc]
    · rw [stored_record, if_neg (hne q (.inl ⟨c, hq⟩))]
      exact h.clientid c q hq
  · rw [stored_reverse] at hq
    split_ifs at hq with hn
    · rw [← Option.some.inj hq, stored_record, if_pos rfl, hn]
    · rw [stored_record, if_neg (hne q (.inr ⟨n, hq⟩))]
      exact h.name n q hq
  · rw [stored_record]
    split_ifs with hqp
    · rw [stored_htClientId, stored_reverse, if_pos hclientid, if_pos rfl]
    · have hsame := h.same q
      -- `q` is replaced in both tables or in none
      have hboth : s.htClientId (s.record q).clientid = some q →
          ((s.record q).clientid = clientid ↔ (s.record q).clientName = record.clientName) := by
        intro hq
        exact ⟨fun heq => hname q (heq ▸ hq), fun heq => hid q (heq ▸ hsame.mp hq)⟩
      have hpq : some p ≠ some q := fun heq => hqp (Option.some.inj heq).symm
      rw [stored_htClientId, stored_reverse]
      split_ifs with hc hn hn
      · exact Iff.rfl
      · refine ⟨fun heq => absurd heq hpq, fun hq => ?_⟩
        exact absurd ((hboth (hsame.mpr hq)).mp hc) hn
      · refine ⟨fun hq => ?_, fun heq => absurd heq hpq⟩
        exact absurd ((hboth hq).mpr hn) hc
      · exact hsame

/-- A record that is not in use may be written. -/
lemma SameRecords.write (h : SameRecords s) (hp : ¬ InUse s p) :
    SameRecords { s with record := Function.update s.record p record } := by
  have hold : ∀ q, InUse s q → Function.update s.record p record q = s.record q := by
    intro q hq
    have hne : q ≠ p := fun heq => hp (heq ▸ hq)
    exact Function.update_of_ne hne _ _
  refine ⟨fun c q hq => ?_, fun n q hq => ?_, fun q => ?_⟩
  · show (Function.update s.record p record q).clientid = c
    rw [hold q (.inl ⟨c, hq⟩)]
    exact h.clientid c q hq
  · show (Function.update s.record p record q).clientName = n
    rw [hold q (.inr ⟨n, hq⟩)]
    exact h.name n q hq
  · show s.htClientId (Function.update s.record p record q).clientid = some q ↔
      s.htClientIdReverse (Function.update s.record p record q).clientName = some q
    rcases eq_or_ne q p with rfl | hne
    · exact iff_of_false (fun hq => hp (.inl ⟨_, hq⟩)) fun hq => hp (.inr ⟨_, hq⟩)
    · rw [Function.update_of_ne hne]
      exact h.same q

/-- What a call leaves that takes the record `p`. -/
structure Takes (s s' : Clients) (p : ℕ) : Prop where
  used : s'.used = p :: s.used
  inUse : ∀ q, InUse s' q → q = p ∨ InUse s q

/-- `GET_PREALLOC` gives a record to a call of the worker `w`. -/
def Gives (s : Clients) (w : ℕ) : Prop :=
  (getPrealloc s.nbClientIdPrealloc (s.clientidPool w) s.arrays).1 ≠ none

/-- A call of `nfs_client_id_add` or `nfs_client_id_set`: it gets no record; it takes one and stores
it; or it takes one and gives it up. -/
inductive Stores (s : Clients) (w : ℕ) (clientid : UInt64) (allocs : Allocs) (s' : Clients) : Prop
  | refused (gives : ¬ Gives s w) (used : s'.used = s.used) (inUse : ∀ q, InUse s' q ↔ InUse s q)
  | stored (p : ℕ) (gives : Gives s w) (takes : Takes s s' p) (inUse : InUse s' p)
    (replaced : ∀ q ∈ s.htClientId clientid, ¬ InUse s' q)
    (kept : s.htClientId clientid = none → ∀ q, InUse s q → InUse s' q)
    (keys : allocs.clientidOk ∧ allocs.nameOk)
    (node : s.htClientId clientid ≠ none ∨ allocs.setOk)
  | lost (p : ℕ) (gives : Gives s w) (takes : Takes s s' p) (inUse : ¬ InUse s' p)
    (failed : ¬ (allocs.clientidOk ∧ allocs.nameOk ∧ allocs.setOk))

/-- SETCLIENTID keeps the tables in step when both keys name one record. -/
theorem Inv.store (h : Inv s)
    (hmatched : (getPrealloc s.nbClientIdPrealloc (s.clientidPool w) s.arrays).1 ≠ none →
      s.clientidPool w = [] ∧ record.clientid = clientid ∧
        (∀ q ∈ s.htClientId clientid, (s.record q).clientName = record.clientName) ∧
        (∀ q ∈ s.htClientIdReverse record.clientName, (s.record q).clientid = clientid) ∧
        (allocs.setOk → allocs.reverseOk)) :
    Inv (clientIdStore s clientid record (s.clientidPool w) allocs).2.1 ∧
      Stores s w clientid allocs
        (clientIdStore s clientid record (s.clientidPool w) allocs).2.1 := by
  have hpool : s.clientidPool w = [] := by
    cases hp : s.clientidPool w with
    | nil => rfl
    | cons p pool =>
      rw [hp] at hmatched
      exact (hmatched (Option.some_ne_none p)).1
  have hgives : Gives s w ↔ (getPrealloc s.nbClientIdPrealloc [] s.arrays).1 ≠ none := by
    rw [Gives, hpool]
  rw [hpool] at hmatched ⊢
  have hget := h.spare.get s.nbClientIdPrealloc
  have hstock := stocked_get [] s.arrays s.nbClientIdPrealloc
  unfold clientIdStore
  rcases hpre : getPrealloc s.nbClientIdPrealloc [] s.arrays with ⟨_ | p, pool, arrays⟩
  · rw [hpre] at hget hstock hgives
    have hsub : ∀ k, ∀ q ∈ arrays k, ∃ k, q ∈ s.arrays k := fun k q hq =>
      ((hstock q).mpr (.inr ⟨k, hq⟩)).resolve_left List.not_mem_nil
    refine ⟨⟨⟨h.same.clientid, h.same.name, h.same.same⟩, h.used, hget.drop, fun w k q hq => ?_,
      h.pools⟩, .refused (fun hg => hgives.mp hg rfl) rfl fun _ => Iff.rfl⟩
    obtain ⟨k, hk⟩ := hsub k q hq
    exact h.apart w k q hk
  · rw [hpre] at hget hstock hmatched hgives
    have hgives := hgives.mpr (Option.some_ne_none p)
    obtain ⟨-, hid, hname, hback, hok⟩ := hmatched (Option.some_ne_none p)
    obtain ⟨hp, hspare⟩ := hget
    have hp : p ∉ s.used := hp
    have hnot : ¬ InUse s p := fun hin => hp (h.used p hin)
    have hsub : ∀ q, q = p ∨ Stocked pool arrays q → ∃ k, q ∈ s.arrays k := fun q hq =>
      ((hstock q).mpr hq).resolve_left List.not_mem_nil
    set s₁ : Clients := { s with arrays, used := p :: s.used } with hs₁
    have hinv₁ : Inv s₁ := by
      refine ⟨⟨h.same.clientid, h.same.name, h.same.same⟩,
        fun q hq => List.mem_cons_of_mem p (h.used q hq), hspare.drop.mono ?_, ?_, ?_⟩
      · rintro q hq
        exact (List.mem_cons.mp hq).imp id id
      · intro w k q hq
        obtain ⟨k, hk⟩ := hsub q (.inr (.inr ⟨k, hq⟩))
        exact h.apart w k q hk
      · intro w q hq
        rcases List.mem_cons.mp hq with rfl | hq
        · obtain ⟨k, hk⟩ := hsub q (.inl rfl)
          exact h.apart w k q hk
        · exact h.pools w q hq
    -- the second table has the name of a record that is replaced
    have hreverse : s₁.htClientId clientid ≠ none ∨ allocs.setOk = true →
        s₁.htClientIdReverse record.clientName ≠ none ∨ allocs.reverseOk = true := by
      rintro (hset | hset)
      · left
        obtain ⟨q, hq⟩ := Option.ne_none_iff_exists'.mp hset
        have hsame := (h.same.same q).mp (by rw [h.same.clientid _ _ hq]; exact hq)
        rw [hname q hq] at hsame
        exact fun hnone => Option.some_ne_none q (hsame.symm.trans hnone)
      · exact .inr (hok hset)
    have hinsert := clientIdInsert_eq (p := p) hreverse
    show Inv (clientIdInsert s₁ clientid record p allocs).2 ∧
      Stores s w clientid allocs (clientIdInsert s₁ clientid record p allocs).2
    rw [hinsert]
    by_cases hkeys : allocs.clientidOk = true ∧ allocs.nameOk = true
    · rw [if_pos hkeys]
      by_cases hset : s₁.htClientId clientid ≠ none ∨ allocs.setOk = true
      · rw [if_pos hset]
        have hsame : SameRecords (stored s₁ clientid record p) :=
          hinv₁.same.store hnot hid hname hback
        have hin : ∀ q, InUse (stored s₁ clientid record p) q → q = p ∨ InUse s q := by
          rintro q (⟨c, hc⟩ | ⟨n, hn⟩)
          · rw [stored_htClientId] at hc
            split_ifs at hc
            · exact .inl (Option.some.inj hc).symm
            · exact .inr (.inl ⟨c, hc⟩)
          · rw [stored_reverse] at hn
            split_ifs at hn
            · exact .inl (Option.some.inj hn).symm
            · exact .inr (.inr ⟨n, hn⟩)
        have hinp : InUse (stored s₁ clientid record p) p :=
          .inl ⟨clientid, by rw [stored_htClientId, if_pos rfl]⟩
        refine ⟨⟨hsame, fun q hq => ?_, hinv₁.spare, hinv₁.apart, hinv₁.pools⟩,
          .stored p hgives ⟨rfl, hin⟩ hinp (fun q hq hin => ?_) (fun hnone q hq => ?_) hkeys hset⟩
        · rcases hin q hq with rfl | hq
          · exact List.mem_cons_self
          · exact List.mem_cons_of_mem p (h.used q hq)
        · have hqp : q ≠ p := fun heq => hnot (.inl ⟨clientid, heq ▸ hq⟩)
          have hqid := h.same.clientid clientid q hq
          have hqname := hname q hq
          rcases hin with ⟨c, hc⟩ | ⟨n, hn⟩
          · have hcid := hsame.clientid c q hc
            rw [stored_record, if_neg hqp] at hcid
            rw [stored_htClientId, if_pos (hcid.symm.trans hqid)] at hc
            exact hqp (Option.some.inj hc).symm
          · have hnname := hsame.name n q hn
            rw [stored_record, if_neg hqp] at hnname
            rw [stored_reverse, if_pos (hnname.symm.trans hqname)] at hn
            exact hqp (Option.some.inj hn).symm
        · have hlook := h.same.lookup hq
          have hne : (s.record q).clientid ≠ clientid := fun heq => by
            rw [heq, hnone] at hlook
            cases hlook
          refine .inl ⟨(s.record q).clientid, ?_⟩
          rw [stored_htClientId, if_neg hne]
          exact hlook
      · rw [if_neg hset]
        refine ⟨⟨hinv₁.same.write hnot, hinv₁.used, hinv₁.spare, hinv₁.apart, hinv₁.pools⟩,
          .lost p hgives ⟨rfl, fun q hq => .inr hq⟩ hnot fun hall => hset (.inr hall.2.2)⟩
    · rw [if_neg hkeys]
      exact ⟨hinv₁, .lost p hgives ⟨rfl, fun q hq => .inr hq⟩ hnot
        fun hall => hkeys ⟨hall.1, hall.2.1⟩⟩

/-! ## Removing a record -/

/-- The tables without a record. -/
def removed (s : Clients) (p : ℕ) : Clients :=
  { s with
    htClientId := Function.update s.htClientId (s.record p).clientid none
    htClientIdReverse := Function.update s.htClientIdReverse (s.record p).clientName none }

lemma nfsClientIdRemove_eq (h : SameRecords s) (hp : s.htClientId clientid = some p)
    (pool : List ℕ) :
    nfsClientIdRemove s clientid pool true = (.success, removed s p, releasePrealloc p pool) := by
  have hid := h.clientid clientid p hp
  have hname : s.htClientIdReverse (s.record p).clientName = some p :=
    (h.same p).mp (by rw [hid]; exact hp)
  simp [nfsClientIdRemove, hp, hname, removed, hid]

lemma removed_htClientId (c : UInt64) : (removed s p).htClientId c =
    if c = (s.record p).clientid then none else s.htClientId c :=
  Function.update_apply _ _ _ _

lemma removed_reverse (n : List UInt8) : (removed s p).htClientIdReverse n =
    if n = (s.record p).clientName then none else s.htClientIdReverse n :=
  Function.update_apply _ _ _ _

/-- The records left after a removal. -/
lemma SameRecords.inUse_removed (h : SameRecords s) (hp : InUse s p) :
    InUse (removed s p) q ↔ InUse s q ∧ q ≠ p := by
  have hlook := h.lookup hp
  have hname := (h.same p).mp hlook
  constructor
  · rintro (⟨c, hc⟩ | ⟨n, hn⟩)
    · rw [removed_htClientId] at hc
      split_ifs at hc with heq
      refine ⟨.inl ⟨c, hc⟩, fun hqp => heq ?_⟩
      rw [← h.clientid c q hc, hqp]
    · rw [removed_reverse] at hn
      split_ifs at hn with heq
      refine ⟨.inr ⟨n, hn⟩, fun hqp => heq ?_⟩
      rw [← h.name n q hn, hqp]
  · rintro ⟨hq, hqp⟩
    have hlookq := h.lookup hq
    refine .inl ⟨(s.record q).clientid, ?_⟩
    have hne : (s.record q).clientid ≠ (s.record p).clientid := fun heq => by
      rw [heq, hlook] at hlookq
      exact hqp (Option.some.inj hlookq).symm
    rw [removed_htClientId, if_neg hne, hlookq]

/-- A removal takes both keys away. -/
lemma SameRecords.remove (h : SameRecords s) (hp : InUse s p) : SameRecords (removed s p) := by
  have hin : ∀ q, InUse (removed s p) q ↔ InUse s q ∧ q ≠ p := fun q => h.inUse_removed hp
  have hlook : ∀ c q, (removed s p).htClientId c = some q → s.htClientId c = some q := by
    intro c q hq
    rw [removed_htClientId] at hq
    split_ifs at hq
    exact hq
  have hback : ∀ n q, (removed s p).htClientIdReverse n = some q →
      s.htClientIdReverse n = some q := by
    intro n q hq
    rw [removed_reverse] at hq
    split_ifs at hq
    exact hq
  refine ⟨fun c q hq => h.clientid c q (hlook c q hq), fun n q hq => h.name n q (hback n q hq),
    fun q => ⟨fun hq => ?_, fun hq => ?_⟩⟩
  · have hne : q ≠ p := ((hin q).mp (.inl ⟨_, hq⟩)).2
    have hname := (h.same q).mp (hlook _ q hq)
    have hdiff : (s.record q).clientName ≠ (s.record p).clientName := fun heq => by
      rw [heq, (h.same p).mp (h.lookup hp)] at hname
      exact hne (Option.some.inj hname).symm
    show (removed s p).htClientIdReverse (s.record q).clientName = some q
    rw [removed_reverse, if_neg hdiff, hname]
  · have hne : q ≠ p := ((hin q).mp (.inr ⟨_, hq⟩)).2
    have hid := (h.same q).mpr (hback _ q hq)
    have hdiff : (s.record q).clientid ≠ (s.record p).clientid := fun heq => by
      rw [heq, h.lookup hp] at hid
      exact hne (Option.some.inj hid).symm
    show (removed s p).htClientId (s.record q).clientid = some q
    rw [removed_htClientId, if_neg hdiff, hid]

/-! ## Runs -/

/-- Nothing is lost if all records taken are in use. -/
lemma Inv.returned_iff (h : Inv s) : Returned s ↔ ∀ p ∈ s.used, InUse s p := by
  constructor
  · intro hret p hp
    rcases hret p hp with ⟨hin, -⟩ | ⟨-, w, hcount⟩
    · exact hin
    · have hmem : p ∈ s.clientidPool w := List.count_pos_iff.mp (by omega)
      exact absurd hmem (h.pools w p hp)
  · intro hall p hp
    exact .inl ⟨hall p hp, fun w => h.pools w p hp⟩

/-- What comes back to the pool of the worker. -/
lemma Stores.returned (h : Inv s) (h' : Inv s') (hstores : Stores s w clientid allocs s') :
    ((Gives s w → s.htClientId clientid = none ∧ allocs.clientidOk ∧ allocs.nameOk ∧ allocs.setOk) →
        Returned s → Returned s') ∧
      (¬ (Gives s w → s.htClientId clientid = none ∧ allocs.clientidOk ∧ allocs.nameOk ∧
        allocs.setOk) → ¬ Returned s') := by
  rw [h.returned_iff, h'.returned_iff]
  cases hstores with
  | refused gives used inUse =>
    refine ⟨fun _ hall p hp => (inUse p).mpr (hall p (used ▸ hp)), fun hnot => ?_⟩
    exact absurd (fun hg => absurd hg gives) hnot
  | stored p gives takes inUse replaced kept keys node =>
    constructor
    · intro hquiet hall q hq
      rw [takes.used, List.mem_cons] at hq
      rcases hq with rfl | hq
      · exact inUse
      · exact kept (hquiet gives).1 q (hall q hq)
    · intro hnot hall
      refine hnot fun _ => ?_
      cases hold : s.htClientId clientid with
      | none => exact ⟨rfl, keys.1, keys.2, node.resolve_left fun hne => hne hold⟩
      | some q =>
        have hq : q ∈ s'.used := by
          rw [takes.used]
          exact List.mem_cons_of_mem p (h.used q (.inl ⟨clientid, hold⟩))
        exact absurd (hall q hq) (replaced q hold)
  | lost p gives takes inUse failed =>
    constructor
    · exact fun hquiet => absurd (hquiet gives).2 failed
    · intro _ hall
      exact inUse (hall p (takes.used ▸ List.mem_cons_self))

/-- What a step leaves: the invariant, and a record out of place exactly when the step is not
quiet. -/
theorem Inv.step (h : Inv s) {ev : Event} (hmatched : Matched s ev) (hstep : step s ev = some s') :
    Inv s' ∧ (Quiet s ev → Returned s → Returned s') ∧ (¬ Quiet s ev → ¬ Returned s') := by
  cases ev with
  | add w clientid record allocs =>
    have hstep := Option.some.inj hstep
    obtain ⟨hinv, hstores⟩ := h.store hmatched
    subst hstep
    exact ⟨hinv, hstores.returned h hinv⟩
  | set w clientid record allocs =>
    have hstep := Option.some.inj hstep
    obtain ⟨hinv, hstores⟩ := h.store hmatched
    subst hstep
    exact ⟨hinv, hstores.returned h hinv⟩
  | remove w clientid allocOk =>
    have hstep := Option.some.inj hstep
    subst hstep
    cases allocOk with
    | false => exact ⟨h, fun _ hret => hret, fun hnot => absurd nofun hnot⟩
    | true =>
      cases hp : s.htClientId clientid with
      | none =>
        have hsame : (nfsClientIdRemove s clientid (s.clientidPool w) true).2.1 = s := by
          simp [nfsClientIdRemove, hp]
        rw [hsame]
        exact ⟨h, fun _ hret => hret, fun hnot => absurd (fun _ => hp) hnot⟩
      | some p =>
        have hin : InUse s p := .inl ⟨clientid, hp⟩
        rw [nfsClientIdRemove_eq h.same hp]
        have hinv : Inv (removed s p) := by
          refine ⟨h.same.remove hin, fun q hq => ?_, h.spare, h.apart, h.pools⟩
          exact h.used q ((h.same.inUse_removed hin).mp hq).1
        refine ⟨hinv, fun hquiet => ?_, fun _ hret => ?_⟩
        · have hnone := hquiet rfl
          rw [hp] at hnone
          cases hnone
        · have hin' := hinv.returned_iff.mp hret p (h.used p hin)
          exact ((h.same.inUse_removed hin).mp hin').2 rfl

/-- A run in which clientids and names belong together keeps the tables together; its records are
where they should be as long as its steps are quiet, and not after a step that is not. -/
theorem sameRecords_of_matched (h₀ : Initial s₀) :
    (∀ s, ReachableBy step Matched s₀ s → SameRecords s ∧ SameLookups s) ∧
    (∀ s, ReachableBy step (fun s ev => Matched s ev ∧ Quiet s ev) s₀ s →
      SameRecords s ∧ Returned s) ∧
    ∀ s ev s', ReachableBy step Matched s₀ s → Matched s ev → ¬ Quiet s ev →
      step s ev = some s' → ¬ Returned s' := by
  have hinv : ∀ s, ReachableBy step Matched s₀ s → Inv s := fun s h =>
    ReachableBy.invariant (I := Inv) (Inv.init h₀)
      (fun s ev s' hinv hmatched hstep => (hinv.step hmatched hstep).1) h
  refine ⟨fun s h => ⟨(hinv s h).same, (hinv s h).same.lookups⟩, fun s h => ?_,
    fun s ev s' h hmatched hnot hstep => ?_⟩
  · have hboth : Inv s ∧ Returned s := by
      refine ReachableBy.invariant (I := fun s => Inv s ∧ Returned s)
        ⟨Inv.init h₀, fun p hp => ?_⟩ ?_ h
      · rw [h₀.used] at hp
        cases hp
      · rintro s ev s' ⟨hinv, hret⟩ ⟨hmatched, hquiet⟩ hstep
        obtain ⟨hinv', hkeep, -⟩ := hinv.step hmatched hstep
        exact ⟨hinv', hkeep hquiet hret⟩
    exact ⟨hboth.1.same, hboth.2⟩
  · exact ((hinv s h).step hmatched hstep).2.2 hnot

instance (s : Clients) : DecidablePred (Matched s)
  | .add _ _ _ _ | .set _ _ _ _ =>
    inferInstanceAs (Decidable (_ → _ ∧ _ ∧ (∀ _ ∈ _, _) ∧ (∀ _ ∈ _, _) ∧ _))
  | .remove _ _ _ => isTrue trivial

instance (s : Clients) : DecidablePred (Quiet s)
  | .add _ _ _ _ | .set _ _ _ _ => inferInstanceAs (Decidable (_ → _ ∧ _ ∧ _ ∧ _))
  | .remove _ _ _ => inferInstanceAs (Decidable (_ → _))

/-- Tables without records; the workers have no pool, and the arrays have two records. -/
def sampleClients : Clients where
  nbClientIdPrealloc := 2
  htClientId := fun _ => none
  htClientIdReverse := fun _ => none
  record := fun _ => ⟨[], 0, 0, [], [], [], [], 0, .unconfirmed, 0⟩
  clientidPool := fun _ => []
  arrays := fun k => [2 * k, 2 * k + 1]
  used := []

/-- The sample tables are empty. -/
lemma sampleClients_initial : Initial sampleClients where
  empty _ := rfl
  emptyReverse _ := rfl
  used := rfl
  spare := by
    refine ⟨List.nodup_nil, fun _ _ => Set.notMem_empty _, fun k => ?_, fun k p hp => ?_,
      fun k k' hne => ?_⟩
    · simp [sampleClients]
    · exact ⟨Set.notMem_empty _, List.not_mem_nil⟩
    · intro p hp hp'
      simp only [sampleClients, List.mem_cons, List.not_mem_nil, or_false] at hp hp'
      omega
  apart _ _ _ _ := List.not_mem_nil

/-- A record of a client with a name of one byte. -/
def sampleRecord (name : UInt8) (clientid : UInt64) : ClientRecord :=
  ⟨[name], clientid, 0, [], [], [], [], 0, .unconfirmed, 0⟩

/-- The records of two clients are added. -/
theorem sameRecords_after_two_clients :
    (execute step sampleClients
      [.add 0 10 (sampleRecord 97 10) ⟨true, true, true, true⟩,
       .add 0 20 (sampleRecord 98 20) ⟨true, true, true, true⟩]).any
        (fun s => s.htClientId 20 = some 2 ∧ s.htClientIdReverse [98] = some 2) = true ∧
      ∀ s, execute step sampleClients
        [.add 0 10 (sampleRecord 97 10) ⟨true, true, true, true⟩,
         .add 0 20 (sampleRecord 98 20) ⟨true, true, true, true⟩] = some s →
        SameRecords s ∧ Returned s := by
  refine ⟨by decide +kernel, fun s hs => ?_⟩
  exact (sameRecords_of_matched sampleClients_initial).2.1 s
    (reachableBy_of_execute hs (by decide +kernel))

/-- A record is added and removed: it is put back to a pool that only `nfs_client_id_remove` has. -/
theorem not_returned_after_remove :
    ¬ ∀ s₀ s, Initial s₀ → Reachable step s₀ s → SameRecords s ∧ Returned s := by
  intro h
  let events : List Event :=
    [.add 0 10 (sampleRecord 97 10) ⟨true, true, true, true⟩, .remove 0 10 true]
  obtain ⟨s, hs⟩ : ∃ s, execute step sampleClients events = some s :=
    Option.isSome_iff_exists.mp (by decide +kernel)
  have hread : (execute step sampleClients events).map (fun s => (s.used, s.clientidPool)) =
      some ([0], fun _ => []) := rfl
  rw [hs, Option.map_some, Option.some.injEq, Prod.mk.injEq] at hread
  obtain ⟨-, hret⟩ := h sampleClients s sampleClients_initial
    (reachableBy_of_execute hs (by decide +kernel))
  have hempty : s.htClientId = Function.update (Function.update (fun _ => none) 10 (some 0)) 10 none ∧
      s.htClientIdReverse =
        Function.update (Function.update (fun _ => none) [97] (some 0)) [97] none := by
    have hsome : some s = execute step sampleClients events := hs.symm
    cases hsome
    exact ⟨rfl, rfl⟩
  rcases hret 0 (hread.1 ▸ List.mem_cons_self) with ⟨hin, -⟩ | ⟨-, w, hcount⟩
  · rcases hin with ⟨c, hc⟩ | ⟨n, hn⟩
    · rw [hempty.1, Function.update_idem, Function.update_apply] at hc
      split_ifs at hc
    · rw [hempty.2, Function.update_idem, Function.update_apply] at hn
      split_ifs at hn
  · rw [hread.2] at hcount
    cases hcount

end Ganesha.ClientId
