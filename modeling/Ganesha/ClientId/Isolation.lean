import Mathlib
import Ganesha.ClientId.Names
import Ganesha.Pools

/-!
# Which clients share a clientid

Two clients have different records as long as their names can be told apart by the bytes that their
clientids are made of. A record that is not confirmed is confirmed by any SETCLIENTID_CONFIRM with its
clientid, whatever its verifier.
-/

namespace Ganesha.ClientId
open Library.Transition Ganesha.Pools
open Ganesha.Hash (getPrealloc releasePrealloc)

variable {s s' s₀ : Server} {c c' : Clients} {w p q : ℕ} {clientid : UInt64} {record : ClientRecord}
  {allocs : Allocs} {pool : List ℕ} {N : Set (List UInt8)}

/-! ## What the properties are about -/

/-- Clients with different names have different clientids and no record in common. -/
def Isolated (s : Server) : Prop :=
  ∀ a ∈ s.answers, ∀ b ∈ s.answers, a.name ≠ b.name →
    a.clientid ≠ b.clientid ∧
      ∀ p, s.clients.htClientId a.clientid = some p → s.clients.htClientId b.clientid ≠ some p

/-- The record of a clientid is confirmed. -/
def Confirmed (s : Server) (clientid : UInt64) : Prop :=
  ∃ p, s.clients.htClientId clientid = some p ∧ (s.clients.record p).confirmed = .confirmed

/-- The `setclientid_confirm` last issued with a clientid. -/
def lastIssued (s : Server) (clientid : UInt64) : Option (List UInt8) :=
  (s.answers.find? fun a => a.clientid = clientid).map Answer.confirm

/-- The server has no records, and its workers no pools of them. -/
structure Started (s : Server) : Prop where
  empty : ∀ c, s.clients.htClientId c = none
  pools : ∀ w, s.clients.clientidPool w = []
  spare : Spare [] s.clients.arrays {p | p ∈ s.clients.used}
  answers : s.answers = []

/-- The names are in `N`, the table by name takes what the table by clientid has taken, and a
verifier that comes for a record that is not confirmed is the one of the record. -/
def Fair (N : Set (List UInt8)) (s : Server) : Request → Prop
  | .setclientid _ args _ _ allocs => args.id ∈ N ∧ (allocs.setOk → allocs.reverseOk)
  | .setclientidConfirm _ clientid setclientidConfirm _ _ _ =>
    ∀ p ∈ s.clients.htClientId clientid, (s.clients.record p).confirmed ≠ .confirmed →
      setclientidConfirm = (s.clients.record p).verifier

/-! ## Storing records -/

/-- What storing a record does to the table by clientid: nothing, or the clientid gets a record that
was not in use. -/
structure Kept (c c' : Clients) : Prop where
  used : ∀ q ∈ c.used, q ∈ c'.used
  record : ∀ q ∈ c.used, c'.record q = c.record q
  spare : Spare [] c'.arrays {p | p ∈ c'.used}
  pools : c'.clientidPool = c.clientidPool

/-- The table by clientid stays as it is, or the clientid gets a new record. -/
inductive Filed (c : Clients) (clientid : UInt64) (record : ClientRecord) (allocs : Allocs)
    (status : Status) (c' : Clients) : Prop
  | refused (status : status ≠ .success) (table : c'.htClientId = c.htClientId)
  | stored (p : ℕ) (used : p ∈ c'.used) (new : p ∉ c.used) (record : c'.record p = record)
    (table : c'.htClientId = Function.update c.htClientId clientid (some p))
    (status : (allocs.setOk → allocs.reverseOk) → c.htClientId clientid = none → status = .success)

/-- The insertion files the record under its id or keeps nothing. -/
lemma clientIdInsert_filed {d : Clients} (clientid : UInt64) (record : ClientRecord) (allocs : Allocs)
    (hp : p ∉ c.used) (hused : p ∈ d.used) (htable : d.htClientId = c.htClientId)
    (hrecord : d.record = c.record) :
    (clientIdInsert d clientid record p allocs).2.used = d.used ∧
      (clientIdInsert d clientid record p allocs).2.arrays = d.arrays ∧
      (clientIdInsert d clientid record p allocs).2.clientidPool = d.clientidPool ∧
      (∀ q, q ≠ p → (clientIdInsert d clientid record p allocs).2.record q = c.record q) ∧
      Filed c clientid record allocs (clientIdInsert d clientid record p allocs).1
        (clientIdInsert d clientid record p allocs).2 := by
  unfold clientIdInsert hashTableSet
  rw [htable, hrecord]
  split_ifs with hkeys
  · exact ⟨rfl, rfl, rfl, fun q _ => by rw [hrecord], .refused nofun htable⟩
  · by_cases hset : c.htClientId clientid ≠ none ∨ allocs.setOk
    · by_cases hback : d.htClientIdReverse record.clientName ≠ none ∨ allocs.reverseOk
      · simp only [if_pos hset, if_pos hback]
        exact ⟨trivial, trivial, trivial, fun q hq => Function.update_of_ne hq _ _,
          .stored p hused hp (Function.update_self _ _ _) rfl fun _ _ => rfl⟩
      · simp only [if_pos hset, if_neg hback]
        refine ⟨trivial, trivial, trivial, fun q hq => Function.update_of_ne hq _ _,
          .stored p hused hp (Function.update_self _ _ _) rfl fun hok hnone => ?_⟩
        have hset := hset.resolve_left fun hne => hne hnone
        exact absurd (.inr (hok hset)) hback
    · simp only [if_neg hset]
      exact ⟨trivial, trivial, trivial, fun q hq => Function.update_of_ne hq _ _, .refused nofun rfl⟩

/-- SETCLIENTID stores through the insertion, or finds no record to take. -/
theorem clientIdStore_filed (clientid : UInt64) (record : ClientRecord) (allocs : Allocs)
    (hspare : Spare [] c.arrays {p | p ∈ c.used}) :
    Kept c (clientIdStore c clientid record [] allocs).2.1 ∧
      Filed c clientid record allocs (clientIdStore c clientid record [] allocs).1
        (clientIdStore c clientid record [] allocs).2.1 := by
  have hget := hspare.get c.nbClientIdPrealloc
  unfold clientIdStore
  rcases hpre : getPrealloc c.nbClientIdPrealloc [] c.arrays with ⟨_ | p, pool, arrays⟩
  · rw [hpre] at hget
    exact ⟨⟨fun _ hq => hq, fun _ _ => rfl, hget.drop, rfl⟩, .refused nofun rfl⟩
  · rw [hpre] at hget
    obtain ⟨hp, hspare'⟩ := hget
    have hp : p ∉ c.used := hp
    obtain ⟨hused, harrays, hpools, hrecord, hfiled⟩ :=
      clientIdInsert_filed (d := { c with arrays, used := p :: c.used }) clientid record allocs hp
        List.mem_cons_self rfl rfl
    refine ⟨⟨fun q hq => ?_, fun q hq => ?_, ?_, hpools⟩, hfiled⟩
    · exact hused ▸ List.mem_cons_of_mem p hq
    · exact hrecord q fun heq => hp (heq ▸ hq)
    · show Spare [] (clientIdInsert _ _ _ _ _).2.arrays {q | q ∈ (clientIdInsert _ _ _ _ _).2.used}
      rw [harrays, hused]
      refine hspare'.drop.mono fun q hq => ?_
      exact List.mem_cons.mp hq

/-! ## The invariant -/

/-- The clientids of the answers are the digests of their names, and the records of the table have
the clientid they are filed under, which was answered, and the verifier that went with it. -/
structure Sound (N : Set (List UInt8)) (s : Server) : Prop where
  pools : ∀ w, s.clients.clientidPool w = []
  spare : Spare [] s.clients.arrays {p | p ∈ s.clients.used}
  used : ∀ c p, s.clients.htClientId c = some p → p ∈ s.clients.used
  clientid : ∀ c p, s.clients.htClientId c = some p → (s.clients.record p).clientid = c
  verifier : ∀ c p, s.clients.htClientId c = some p →
    (s.clients.record p).verifier = confirmVerifier s.serverBootTime
  issued : ∀ c p, s.clients.htClientId c = some p → ∃ a ∈ s.answers, a.clientid = c
  answers : ∀ a ∈ s.answers, a.name ∈ N ∧ a.clientid = (nameDigest a.name).toUInt64 ∧
    a.confirm = confirmVerifier s.serverBootTime

/-- A server that has just started. -/
lemma Started.sound (h : Started s) : Sound N s where
  pools := h.pools
  spare := h.spare
  used c p hp := by rw [h.empty] at hp; cases hp
  clientid c p hp := by rw [h.empty] at hp; cases hp
  verifier c p hp := by rw [h.empty] at hp; cases hp
  issued c p hp := by rw [h.empty] at hp; cases hp
  answers a ha := by rw [h.answers] at ha; cases ha

/-- What `Sound` says of two names. -/
lemma Sound.isolated (hN : Set.InjOn nameDigest N) (h : Sound N s) : Isolated s := by
  intro a ha b hb hne
  obtain ⟨haN, haid, -⟩ := h.answers a ha
  obtain ⟨hbN, hbid, -⟩ := h.answers b hb
  have hid : a.clientid ≠ b.clientid := by
    rw [haid, hbid]
    intro heq
    exact hne (hN haN hbN (UInt32.toUInt64_inj.mp heq))
  refine ⟨hid, fun p hp hp' => hid ?_⟩
  rw [← h.clientid _ p hp, h.clientid _ p hp']

/-- The verifier in the record is the last one given out. -/
lemma Sound.lastIssued_eq (h : Sound N s) (hp : s.clients.htClientId clientid = some p) :
    lastIssued s clientid = some (s.clients.record p).verifier := by
  obtain ⟨a, ha, hid⟩ := h.issued clientid p hp
  unfold lastIssued
  cases hfind : s.answers.find? (fun a => a.clientid = clientid) with
  | none =>
    have := List.find?_eq_none.mp hfind a ha
    simp [hid] at this
  | some b =>
    have hb := List.mem_of_find?_eq_some hfind
    rw [Option.map_some, (h.answers b hb).2.2, h.verifier clientid p hp]

variable {status : Status}

/-- A record filed under its own name keeps `Sound`. -/
lemma Sound.file {answers : List Answer} (h : Sound N s) (hkept : Kept s.clients c)
    (hfiled : Filed s.clients clientid record allocs status c) (hid : record.clientid = clientid)
    (hverifier : record.verifier = confirmVerifier s.serverBootTime) (hsub : ∀ a ∈ s.answers, a ∈ answers)
    (hanswers : ∀ a ∈ answers, a.name ∈ N ∧ a.clientid = (nameDigest a.name).toUInt64 ∧
      a.confirm = confirmVerifier s.serverBootTime)
    (hissued : status = .success → ∃ a ∈ answers, a.clientid = clientid)
    (hok : s.clients.htClientId clientid = none → allocs.setOk → allocs.reverseOk) :
    Sound N { s with clients := c, answers } := by
  have hold : ∀ x q, s.clients.htClientId x = some q → c.record q = s.clients.record q :=
    fun x q hq => hkept.record q (h.used x q hq)
  have hpools : ∀ w, c.clientidPool w = [] := fun w => by rw [hkept.pools, h.pools]
  -- what is under a clientid was there before, or is the new record
  have hlook : ∀ x q, c.htClientId x = some q → s.clients.htClientId x = some q ∨
      x = clientid ∧ q ∈ c.used ∧ c.record q = record ∧ ∃ a ∈ answers, a.clientid = x := by
    intro x q hq
    cases hfiled with
    | refused _ table => exact .inl (table ▸ hq)
    | stored p used new hrecord table hstatus =>
      rw [table, Function.update_apply] at hq
      split_ifs at hq with hx
      · have hqp := Option.some.inj hq
        subst hqp hx
        refine .inr ⟨rfl, used, hrecord, ?_⟩
        cases hin : s.clients.htClientId x with
        | none => exact hissued (hstatus (hok hin) hin)
        | some r =>
          obtain ⟨a, ha, hax⟩ := h.issued x r hin
          exact ⟨a, hsub a ha, hax⟩
      · exact .inl hq
  refine ⟨hpools, hkept.spare, fun x q hq => ?_, fun x q hq => ?_, fun x q hq => ?_,
    fun x q hq => ?_, hanswers⟩
  · rcases hlook x q hq with hin | ⟨-, hused, -⟩
    · exact hkept.used q (h.used x q hin)
    · exact hused
  · rcases hlook x q hq with hin | ⟨rfl, -, hrec, -⟩
    · show (c.record q).clientid = x
      rw [hold x q hin]
      exact h.clientid x q hin
    · show (c.record q).clientid = x
      rw [hrec, hid]
  · rcases hlook x q hq with hin | ⟨rfl, -, hrec, -⟩
    · show (c.record q).verifier = _
      rw [hold x q hin]
      exact h.verifier x q hin
    · show (c.record q).verifier = _
      rw [hrec, hverifier]
  · rcases hlook x q hq with hin | ⟨rfl, -, -, ha⟩
    · obtain ⟨a, ha, hax⟩ := h.issued x q hin
      exact ⟨a, hsub a ha, hax⟩
    · exact ha

/-- Storing an unconfirmed record confirms nobody. -/
lemma Sound.confirmed_of_file {answers : List Answer} (h : Sound N s) (hkept : Kept s.clients c)
    (hfiled : Filed s.clients clientid record allocs status c) {x : UInt64}
    (hx : Confirmed { s with clients := c, answers } x) :
    Confirmed s x ∨ x = clientid ∧ record.confirmed = .confirmed := by
  obtain ⟨q, hq, hconf⟩ := hx
  have hold : ∀ q, s.clients.htClientId x = some q → c.record q = s.clients.record q :=
    fun q hq => hkept.record q (h.used x q hq)
  have hq : c.htClientId x = some q := hq
  have hconf : (c.record q).confirmed = .confirmed := hconf
  cases hfiled with
  | refused _ table =>
    rw [table] at hq
    exact .inl ⟨q, hq, hold q hq ▸ hconf⟩
  | stored p used new hrecord table _ =>
    rw [table, Function.update_apply] at hq
    split_ifs at hq with hxc
    · have hqp := Option.some.inj hq
      subst hqp
      exact .inr ⟨hxc, hrecord ▸ hconf⟩
    · exact .inl ⟨q, hq, hold q hq ▸ hconf⟩

/-! ## The requests -/

variable {getOk : Bool}

/-- A record read through the table is the one filed. -/
lemma nfsClientIdGet_eq_some (h : (nfsClientIdGet c clientid getOk).2 = some record) :
    ∃ p, c.htClientId clientid = some p ∧ c.record p = record := by
  unfold nfsClientIdGet at h
  split_ifs at h
  cases hp : c.htClientId clientid with
  | none =>
    rw [hp] at h
    cases h
  | some p =>
    rw [hp] at h
    exact ⟨p, rfl, Option.some.inj h⟩

variable {args : SetclientidArgs}

/-- The answer to a SETCLIENTID that stored its record. -/
lemma Sound.answer (h : Sound N s) (hkept : Kept s.clients c)
    (hfiled : Filed s.clients clientid record allocs status c) (hid : record.clientid = clientid)
    (hverifier : record.verifier = confirmVerifier s.serverBootTime) (hname : args.id ∈ N)
    (hdigest : clientid = (nameDigest args.id).toUInt64)
    (hok : s.clients.htClientId clientid = none → allocs.setOk → allocs.reverseOk)
    (hnot : record.confirmed ≠ .confirmed) :
    Sound N (setclientidAnswer { s with clients := c } args clientid status).2 ∧
      ∀ x, Confirmed (setclientidAnswer { s with clients := c } args clientid status).2 x →
        Confirmed s x := by
  have hfail : status ≠ .success →
      Sound N { s with clients := c, answers := s.answers } ∧
        ∀ x, Confirmed { s with clients := c, answers := s.answers } x → Confirmed s x := by
    intro hstatus
    refine ⟨h.file hkept hfiled hid hverifier (fun _ ha => ha) h.answers
      (fun heq => absurd heq hstatus) hok, fun x hx => ?_⟩
    exact (h.confirmed_of_file hkept hfiled hx).resolve_right fun hand => hnot hand.2
  cases status with
  | success =>
    refine ⟨h.file hkept hfiled hid hverifier (fun _ ha => List.mem_cons_of_mem _ ha) ?_
      (fun _ => ⟨_, List.mem_cons_self, rfl⟩) hok, fun x hx => ?_⟩
    · intro a ha
      rcases List.mem_cons.mp ha with rfl | ha
      · exact ⟨hname, hdigest, rfl⟩
      · exact h.answers a ha
    · exact (h.confirmed_of_file hkept hfiled hx).resolve_right fun hand => hnot hand.2
  | insertMallocError => exact hfail nofun
  | notFound => exact hfail nofun

/-- A record is renewed. -/
lemma setclientidUpdate_spec {credential : ℕ} {r r' : ClientRecord} (hid : r.clientid = clientid)
    (hverifier : r.verifier = confirmVerifier s.serverBootTime)
    (h : setclientidUpdate s args credential clientid r = .ok (some r')) :
    r'.clientid = clientid ∧ r'.verifier = confirmVerifier s.serverBootTime ∧
      r'.confirmed ≠ .confirmed := by
  unfold setclientidUpdate at h
  split_ifs at h with hconf hcred hsame hcb
  · cases h
    exact ⟨hid, hverifier, nofun⟩
  · cases h
  · cases h
    exact ⟨rfl, rfl, nofun⟩
  · cases h

/-- SETCLIENTID, in each of its cases. -/
theorem Sound.setclientid {credential : ℕ} {r : NfsStat × Server} (h : Sound N s) (hname : args.id ∈ N)
    (hok : allocs.setOk → allocs.reverseOk)
    (hstep : nfs4OpSetclientid s w args credential getOk allocs = some r) :
    Sound N r.2 ∧ ∀ x, Confirmed r.2 x → Confirmed s x := by
  unfold nfs4OpSetclientid at hstep
  -- names that are too long have been refused
  split_ifs at hstep with hlength
  rw [h.pools w] at hstep
  cases hcompute : nfsClientIdBasicCompute (cString args.id) with
  | none =>
    rw [hcompute] at hstep
    cases hstep
  | some clientid =>
    have hdigest := nfsClientIdBasicCompute_eq (Nat.le_of_lt hlength) hcompute
    rw [hcompute] at hstep
    simp only at hstep
    cases hget : (nfsClientIdGet s.clients clientid getOk).2 with
    | some old =>
      obtain ⟨p, hp, rfl⟩ := nfsClientIdGet_eq_some hget
      rw [hget] at hstep
      simp only at hstep
      split at hstep
      · cases hstep
        exact ⟨h, fun _ hx => hx⟩
      · -- nothing is stored, the clientid is answered again
        cases hstep
        refine ⟨⟨h.pools, h.spare, h.used, h.clientid, h.verifier, fun x q hq => ?_, fun a ha => ?_⟩,
          fun _ hx => hx⟩
        · obtain ⟨a, ha, hax⟩ := h.issued x q hq
          exact ⟨a, List.mem_cons_of_mem _ ha, hax⟩
        · rcases List.mem_cons.mp ha with rfl | ha
          · exact ⟨hname, hdigest, rfl⟩
          · exact h.answers a ha
      · rename_i r' hupdate
        obtain ⟨hid, hverifier, hnot⟩ :=
          setclientidUpdate_spec (h.clientid _ _ hp) (h.verifier _ _ hp) hupdate
        obtain ⟨hkept, hfiled⟩ := clientIdStore_filed clientid r' allocs h.spare
        cases hstep
        exact h.answer hkept hfiled hid hverifier hname hdigest (fun _ => hok) hnot
    | none =>
      rw [hget] at hstep
      obtain ⟨hkept, hfiled⟩ := clientIdStore_filed clientid
        (args.fill s.serverBootTime clientid .unconfirmed credential) allocs h.spare
      cases hstep
      exact h.answer hkept hfiled rfl rfl hname hdigest (fun _ => hok) nofun

/-- SETCLIENTID_CONFIRM confirms at most the record of its clientid, which was not confirmed. -/
theorem Sound.setclientidConfirm {setclientidConfirm : List UInt8} {now : ℤ} (h : Sound N s) :
    Sound N (nfs4OpSetclientidConfirm s w clientid setclientidConfirm now getOk allocs).2 ∧
      ∀ x, Confirmed (nfs4OpSetclientidConfirm s w clientid setclientidConfirm now getOk allocs).2 x →
        Confirmed s x ∨ x = clientid ∧ ∃ p, s.clients.htClientId clientid = some p ∧
          (s.clients.record p).confirmed ≠ .confirmed := by
  unfold nfs4OpSetclientidConfirm
  rw [h.pools w]
  cases hget : (nfsClientIdGet s.clients clientid getOk).2 with
  | none => exact ⟨h, fun _ hx => .inl hx⟩
  | some old =>
    obtain ⟨p, hp, rfl⟩ := nfsClientIdGet_eq_some hget
    by_cases hconf : (s.clients.record p).confirmed = .confirmed
    · simp only [if_pos hconf]
      exact ⟨h, fun _ hx => .inl hx⟩
    · simp only [if_neg hconf]
      obtain ⟨hkept, hfiled⟩ := clientIdStore_filed clientid
        { s.clients.record p with confirmed := .confirmed, lastRenew := now } allocs h.spare
      refine ⟨h.file hkept hfiled (h.clientid _ _ hp) (h.verifier _ _ hp) (fun _ ha => ha) h.answers
        (fun _ => h.issued _ _ hp) (fun hnone => ?_), fun x hx => ?_⟩
      · rw [hp] at hnone
        cases hnone
      · exact (h.confirmed_of_file hkept hfiled hx).imp id fun hand => ⟨hand.1, p, hp, hconf⟩

/-- One request of either kind. -/
theorem Sound.request {request : Request} (h : Sound N s) (hfair : Fair N s request)
    (hstep : serve s request = some s') :
    Sound N s' ∧ ∀ x, Confirmed s' x → Confirmed s x ∨
      ∃ w v now getOk allocs, request = .setclientidConfirm w x v now getOk allocs ∧
        lastIssued s x = some v := by
  cases request with
  | setclientid w args credential getOk allocs =>
    obtain ⟨r, hr, rfl⟩ := Option.map_eq_some_iff.mp hstep
    obtain ⟨hsound, hconf⟩ := h.setclientid hfair.1 hfair.2 hr
    exact ⟨hsound, fun x hx => .inl (hconf x hx)⟩
  | setclientidConfirm w clientid v now getOk allocs =>
    have hstep := Option.some.inj hstep
    subst hstep
    obtain ⟨hsound, hconf⟩ := h.setclientidConfirm
    refine ⟨hsound, fun x hx => ?_⟩
    rcases hconf x hx with hold | ⟨rfl, p, hp, hnot⟩
    · exact .inl hold
    · refine .inr ⟨w, v, now, getOk, allocs, rfl, ?_⟩
      rw [h.lastIssued_eq hp, hfair p hp hnot]

/-- In a run whose names can be told apart, and whose verifiers are right, clients with different names
have different clientids and records, and a record is confirmed only with the verifier last issued for
it. -/
theorem isolated_of_legible (hN : Legible N) (h₀ : Started s₀)
    (h : ReachableBy serve (Fair N) s₀ s) :
    Isolated s ∧ ∀ request s', Fair N s request → serve s request = some s' →
      ∀ x, Confirmed s' x → ¬ Confirmed s x →
        ∃ w v now getOk allocs, request = .setclientidConfirm w x v now getOk allocs ∧
          lastIssued s x = some v := by
  have hsound : Sound N s := ReachableBy.invariant (I := Sound N) h₀.sound
    (fun s request s' hsound hfair hstep => (hsound.request hfair hstep).1) h
  refine ⟨hsound.isolated hN.injOn, fun request s' hfair hstep x hx hnot => ?_⟩
  exact ((hsound.request hfair hstep).2 x hx).resolve_left hnot

instance [DecidablePred (· ∈ N)] (s : Server) : DecidablePred (Fair N s)
  | .setclientid _ _ _ _ _ => inferInstanceAs (Decidable (_ ∧ (_ → _)))
  | .setclientidConfirm _ _ _ _ _ _ => inferInstanceAs (Decidable (∀ _ ∈ _, _ → _))

/-- A server without clients. -/
def sampleServer : Server where
  clients :=
    { nbClientIdPrealloc := 2
      htClientId := fun _ => none
      htClientIdReverse := fun _ => none
      record := fun _ => ⟨[], 0, 0, [], [], [], [], 0, .unconfirmed, 0⟩
      clientidPool := fun _ => []
      arrays := fun k => [2 * k, 2 * k + 1]
      used := [] }
  serverBootTime := 1300000000
  compareClientcred := none
  answers := []

/-- The sample server has handed out nothing. -/
lemma sampleServer_started : Started sampleServer where
  empty _ := rfl
  pools _ := rfl
  spare := by
    refine ⟨List.nodup_nil, fun _ hp => absurd hp List.not_mem_nil, fun k => ?_, fun k p hp => ?_,
      fun k k' hne => ?_⟩
    · simp [sampleServer]
    · exact ⟨List.not_mem_nil, List.not_mem_nil⟩
    · intro p hp hp'
      simp only [sampleServer, List.mem_cons, List.not_mem_nil, or_false] at hp hp'
      omega
  answers := rfl

/-- SETCLIENTID of a client with a name, when no allocation fails. -/
def sampleSetclientid (name : List UInt8) : Request :=
  .setclientid 0 ⟨[1, 2, 3, 4, 5, 6, 7, 8], name, 0, [], []⟩ 0 true ⟨true, true, true, true⟩

/-- The clients `a` and `b`; the first one confirms its clientid 970. -/
theorem isolated_after_two_clients :
    (execute serve sampleServer
      [sampleSetclientid [97],
       .setclientidConfirm 0 970 [49, 51, 48, 48, 48, 48, 48, 0] 1 true ⟨true, true, true, true⟩,
       sampleSetclientid [98]]).any
        (fun s => s.answers.map Answer.clientid = [980, 970] ∧
          (s.clients.htClientId 970).any fun p => (s.clients.record p).confirmed = .confirmed) = true ∧
      ∀ s, execute serve sampleServer
        [sampleSetclientid [97],
         .setclientidConfirm 0 970 [49, 51, 48, 48, 48, 48, 48, 0] 1 true ⟨true, true, true, true⟩,
         sampleSetclientid [98]] = some s →
        Isolated s := by
  refine ⟨by decide +kernel, fun s hs => ?_⟩
  have hN : Legible {n | n ∈ [[97], [98]]} := by
    constructor
    all_goals simp only [Set.mem_ofPred_eq]
    · decide
    · decide
    · decide +kernel
  exact (isolated_of_legible hN sampleServer_started
    (reachableBy_of_execute hs (by decide +kernel))).1

/-- The names `ab` and `ac` differ in a byte that is not read. -/
theorem not_isolated_of_equal_digests :
    ¬ ∀ s₀ s, Started s₀ → Reachable serve s₀ s → Isolated s := by
  intro h
  obtain ⟨s, hs⟩ : ∃ s, execute serve sampleServer
      [sampleSetclientid [97, 98], sampleSetclientid [97, 99]] = some s :=
    Option.isSome_iff_exists.mp (by decide +kernel)
  have hread : (execute serve sampleServer
      [sampleSetclientid [97, 98], sampleSetclientid [97, 99]]).all (fun s =>
        s.answers = [⟨[97, 99], 971, [49, 51, 48, 48, 48, 48, 48, 0]⟩,
          ⟨[97, 98], 971, [49, 51, 48, 48, 48, 48, 48, 0]⟩]) = true := by decide +kernel
  rw [hs, Option.all_some, decide_eq_true_iff] at hread
  have hisolated := h sampleServer s sampleServer_started
    (reachableBy_of_execute hs (by decide +kernel))
  have hdiff := hisolated _ (hread ▸ List.mem_cons_self) _
    (hread ▸ List.mem_cons_of_mem _ List.mem_cons_self) (by decide)
  exact hdiff.1 rfl

end Ganesha.ClientId
