import Ganesha.ClientId.Isolation
import Ganesha.Nfs41.ExchangeId

/-!
# Which owners share a client record

The clientid of an owner depends on every other byte of its name only, and two verifiers are told apart by their
bytes before the first `NUL`. The flags that are refused are not those that are undefined.
-/

namespace Ganesha.Nfs41
open Library.Transition
open Ganesha.ClientId (ClientRecord Clients Allocs cString strncpy strncmpEq nameDigest Legible clientIdInsert clientIdStore
  clientIdStore_filed nfsClientIdSet hashTableSet nfsClientIdBasicCompute_eq cString_cString)
open Ganesha.Pools (Spare)
open Ganesha.Hash (getPrealloc)

/-- An incarnation of a client: its owner and its verifier. -/
abbrev Incarnation := List UInt8 × List UInt8

variable {I : Set Incarnation} {s s' s₀ : Exchanges} {c c' : Clients} {maker : ℕ → Incarnation} {p w : ℕ}
  {clientid : UInt64} {record : ClientRecord} {status : ClientId.Status} {stored : Option ℕ}

/-! ## What the properties are about -/

/-- The clientid of an owner. -/
def ownerClientid (owner : List UInt8) : UInt64 := (nameDigest owner).toUInt64

/-- The record is found with the answer: under its clientid, or under the name of its owner. -/
def Exchanges.Reaches (s : Exchanges) (a : Exchanged) (p : ℕ) : Prop :=
  s.server.clients.htClientId a.clientid = some p ∨
    s.server.clients.htClientIdReverse (cString a.coOwnerid) = some p

/-- Different owners have different clientids and no record in common. -/
def Isolated (s : Exchanges) : Prop :=
  ∀ a ∈ s.answers, ∀ b ∈ s.answers, a.coOwnerid ≠ b.coOwnerid →
    a.clientid ≠ b.clientid ∧ ∀ p, s.Reaches a p → ¬ s.Reaches b p

/-- Some flag is not defined. -/
def Undefined (eiaFlags : UInt32) : Prop := eiaFlags &&& ~~~allEiaFlags ≠ 0

instance (eiaFlags : UInt32) : Decidable (Undefined eiaFlags) := inferInstanceAs (Decidable (_ ≠ _))

/-- What an EXCHANGE_ID does. -/
structure Lawful (s : Exchanges) (args : ExchangeIdArgs)
    (r : Except Nfsstat4 ExchangeIdResok × Option ℕ × Server) : Prop where
  /-- A repeated request gets the same clientid, and its record is not touched. -/
  same : ∀ a ∈ s.answers, a.coOwnerid = args.coOwnerid → a.coVerifier = args.coVerifier →
    (∀ resok, r.1 = .ok resok → resok.eirClientid = a.clientid) ∧
      ∀ p, s.Reaches a p → s.maker p = (args.coOwnerid, args.coVerifier) →
        r.2.2 = s.server ∧ (¬ Undefined args.eiaFlags → ∃ resok, r.1 = .ok resok)
  /-- Only the incarnation that has asked is reached. -/
  renewed : ∀ resok, r.1 = .ok resok →
    ∀ p, (s.note args r).Reaches ⟨args.coOwnerid, args.coVerifier, resok.eirClientid⟩ p →
      (s.note args r).maker p = (args.coOwnerid, args.coVerifier)
  /-- A flag that is not defined is refused, and nothing changes. -/
  flags : Undefined args.eiaFlags → r.1 = .error .inval ∧ r.2.2 = s.server

/-- The server has no records, and its workers no pools of them. -/
structure Started (s : Exchanges) : Prop where
  clientids : ∀ x, s.server.clients.htClientId x = none
  names : ∀ name, s.server.clients.htClientIdReverse name = none
  pools : ∀ w, s.server.clients.clientidPool w = []
  spare : Spare [] s.server.clients.arrays {p | p ∈ s.server.clients.used}
  answers : s.answers = []

/-- The incarnations are in `I`, the flags that are refused are those that are not defined, the search finds
the record that there is, and a verifier that comes for a record that is not confirmed is the one of the
record. -/
def Fair (I : Set Incarnation) (s : Exchanges) : Request → Prop
  | .exchangeId _ args _ env => (args.coOwnerid, args.coVerifier) ∈ I ∧
    (flagsRefused args.eiaFlags = true ↔ Undefined args.eiaFlags) ∧
    (env.getOk = true ∨ s.server.clients.htClientId (ownerClientid args.coOwnerid) = none) ∧
    ∀ p ∈ s.server.clients.htClientId (ownerClientid args.coOwnerid),
      (s.server.clients.record p).confirmed ≠ .confirmed →
        strncmpEq (s.server.clients.record p).incomingVerifier args.coVerifier 8 = true
  | .createSession _ => True

/-! ## Verifiers -/

/-- Cutting the bytes first or the C string first is the same. -/
lemma cString_take (bytes : List UInt8) (n : ℕ) : cString (bytes.take n) = (cString bytes).take n := by
  unfold cString
  induction bytes generalizing n with
  | nil => simp
  | cons b bytes ih =>
    cases n with
    | zero => simp
    | succ n =>
      rw [List.take_succ_cons, List.takeWhile_cons, List.takeWhile_cons]
      split_ifs with hb
      · rw [List.take_succ_cons, ih]
      · rw [List.take_nil]

lemma cString_append_zeros {bytes : List UInt8} (h : cString bytes = bytes) (n : ℕ) :
    cString (bytes ++ List.replicate n 0) = bytes := by
  unfold cString at h ⊢
  rw [List.takeWhile_append, h, if_pos rfl]
  cases n with
  | zero => simp
  | succ n => simp [List.replicate_succ]

lemma strncmpEq_strncpy (made asked : List UInt8) :
    strncmpEq (strncpy made 8) asked 8 = true ↔ cString (made.take 8) = cString (asked.take 8) := by
  unfold strncmpEq strncpy
  dsimp only
  rw [decide_eq_true_iff, List.take_of_length_le (by simp), cString_append_zeros, cString_take made]
  rw [cString_take, cString_cString]

/-! ## Storing records -/

/-- What storing a record does to the tables: nothing, or only the second one does not take it, or both have
it. -/
inductive Outcome (c c' : Clients) (clientid : UInt64) (record : ClientRecord) :
    ClientId.Status → Option ℕ → Prop
  | refused {answer : ClientId.Status} {filled : Option ℕ} (failed : answer ≠ .success)
      (new : ∀ p ∈ filled, p ∉ c.used) (table : c'.htClientId = c.htClientId)
      (names : c'.htClientIdReverse = c.htClientIdReverse) :
      Outcome c c' clientid record answer filled
  | half {answer : ClientId.Status} (p : ℕ) (failed : answer ≠ .success) (new : p ∉ c.used) (used : p ∈ c'.used)
      (hrecord : c'.record p = record)
      (table : c'.htClientId = Function.update c.htClientId clientid (some p))
      (names : c'.htClientIdReverse = c.htClientIdReverse)
      (unnamed : c.htClientIdReverse record.clientName = none) :
      Outcome c c' clientid record answer (some p)
  | full (p : ℕ) (new : p ∉ c.used) (used : p ∈ c'.used) (hrecord : c'.record p = record)
      (table : c'.htClientId = Function.update c.htClientId clientid (some p))
      (names : c'.htClientIdReverse = Function.update c.htClientIdReverse record.clientName (some p)) :
      Outcome c c' clientid record .success (some p)

/-- The two exits of the insertion: a record filed under its id and its name, or nothing kept. -/
lemma clientIdInsert_outcome {d : Clients} (clientid : UInt64) (record : ClientRecord) (allocs : Allocs)
    (hp : p ∉ c.used) (hused : p ∈ d.used) (htable : d.htClientId = c.htClientId)
    (hnames : d.htClientIdReverse = c.htClientIdReverse) :
    Outcome c (clientIdInsert d clientid record p allocs).2 clientid record
      (clientIdInsert d clientid record p allocs).1 (if allocs.clientidOk ∧ allocs.nameOk then some p else none) := by
  have hmalloc : ClientId.Status.insertMallocError ≠ .success := by decide
  unfold clientIdInsert hashTableSet
  rw [htable]
  by_cases hkeys : allocs.clientidOk ∧ allocs.nameOk
  swap
  · rw [if_pos (by tauto), if_neg hkeys]
    exact .refused hmalloc (fun _ h => by cases h) htable hnames
  rw [if_neg (by tauto), if_pos hkeys]
  have hnew : ∀ q ∈ some p, q ∉ c.used := by
    rintro q ⟨⟩
    exact hp
  by_cases hset : c.htClientId clientid ≠ none ∨ allocs.setOk = true
  swap
  · simp only [if_neg hset]
    exact .refused hmalloc hnew rfl hnames
  by_cases hback : d.htClientIdReverse record.clientName ≠ none ∨ allocs.reverseOk = true
  · simp only [if_pos hset, if_pos hback]
    refine .full p hp hused (Function.update_self ..) rfl ?_
    rw [hnames]
  · simp only [if_pos hset, if_neg hback]
    refine .half p hmalloc hp hused (Function.update_self ..) rfl hnames ?_
    rw [← hnames]
    by_contra hne
    exact hback (.inl hne)

/-- What storing a record does. -/
theorem storeClient_outcome (server : Server) (w : ℕ) (clientid : UInt64) (record : ClientRecord)
    (fields : ClientFields) (allocs : Allocs) (hpools : ∀ w, server.clients.clientidPool w = [])
    (hspare : Spare [] server.clients.arrays {p | p ∈ server.clients.used}) :
    ClientId.Kept server.clients (storeClient server w clientid record fields allocs).2.2.clients ∧
      Outcome server.clients (storeClient server w clientid record fields allocs).2.2.clients clientid record
        (storeClient server w clientid record fields allocs).1
        (storeClient server w clientid record fields allocs).2.1 := by
  have hkept := (clientIdStore_filed clientid record allocs hspare).1
  have hget := hspare.get server.clients.nbClientIdPrealloc
  unfold storeClient nfsClientIdSet
  rw [hpools w]
  refine ⟨hkept, ?_⟩
  unfold clientIdStore
  cases hpre : getPrealloc server.clients.nbClientIdPrealloc [] server.clients.arrays with
  | mk answer rest =>
    obtain ⟨pool, arrays⟩ := rest
    rw [hpre] at hget
    cases answer with
    | none =>
      dsimp only
      refine .refused (by decide) (fun q hq => ?_) rfl rfl
      split_ifs at hq <;> cases hq
    | some q =>
      exact clientIdInsert_outcome (d := { server.clients with arrays, used := q :: server.clients.used }) clientid
        record allocs hget.1 List.mem_cons_self rfl rfl

/-! ## The invariant -/

/-- A record is under the clientid of the owner it was made for, with the verifier it was made for, and what
is found by a name is found by that clientid. -/
structure Tables (I : Set Incarnation) (c : Clients) (maker : ℕ → Incarnation) : Prop where
  pools : ∀ w, c.clientidPool w = []
  spare : Spare [] c.arrays {p | p ∈ c.used}
  used : ∀ x p, c.htClientId x = some p → p ∈ c.used
  made : ∀ x p, c.htClientId x = some p → maker p ∈ I ∧ x = ownerClientid (maker p).1 ∧
    (c.record p).incomingVerifier = strncpy (maker p).2 8
  named : ∀ name p, c.htClientIdReverse name = some p →
    name = cString (maker p).1 ∧ c.htClientId (ownerClientid (maker p).1) = some p

/-- The answers are for incarnations in `I`, and have the clientids of the owners. -/
def Answered (I : Set Incarnation) (answers : List Exchanged) : Prop :=
  ∀ a ∈ answers, (a.coOwnerid, a.coVerifier) ∈ I ∧ a.clientid = ownerClientid a.coOwnerid

variable {incarnation : Incarnation}

/-- Records in use keep their maker. -/
lemma noteMaker_of_used (hstored : ∀ q ∈ stored, q ∉ c.used) (hp : p ∈ c.used) :
    noteMaker maker incarnation stored p = maker p := by
  cases stored with
  | none => rfl
  | some q =>
    have hne : p ≠ q := by
      rintro rfl
      exact hstored p rfl hp
    exact Function.update_of_ne hne ..

lemma noteMaker_self : noteMaker maker incarnation (some p) p = incarnation :=
  Function.update_self ..

lemma owner_eq {x y : Incarnation} (hN : Set.InjOn nameDigest (Prod.fst '' I)) (hx : x ∈ I) (hy : y ∈ I)
    (h : ownerClientid x.1 = ownerClientid y.1) : x.1 = y.1 :=
  hN (Set.mem_image_of_mem _ hx) (Set.mem_image_of_mem _ hy) (UInt32.toUInt64_inj.mp h)

/-- A record filed for one incarnation keeps the tables of all of them. -/
lemma Tables.file (h : Tables I c maker) (hN : Set.InjOn nameDigest (Prod.fst '' I)) (hin : incarnation ∈ I)
    (hkept : ClientId.Kept c c') (hname : record.clientName = cString incarnation.1)
    (hverifier : record.incomingVerifier = strncpy incarnation.2 8) (new : p ∉ c.used) (used : p ∈ c'.used)
    (hrecord : c'.record p = record)
    (table : c'.htClientId = Function.update c.htClientId (ownerClientid incarnation.1) (some p))
    (names : ∀ name q, c'.htClientIdReverse name = some q →
      name = record.clientName ∧ q = p ∨ name ≠ record.clientName ∧ c.htClientIdReverse name = some q) :
    Tables I c' (noteMaker maker incarnation (some p)) := by
  have hself : noteMaker maker incarnation (some p) p = incarnation := noteMaker_self
  have hold : ∀ q ∈ c.used, noteMaker maker incarnation (some p) q = maker q := by
    intro q hq
    refine noteMaker_of_used (fun r hr => ?_) hq
    cases hr
    exact new
  refine ⟨fun w => by rw [hkept.pools, h.pools], hkept.spare, fun x q hq => ?_, fun x q hq => ?_,
    fun name q hq => ?_⟩
  · rw [table, Function.update_apply] at hq
    split_ifs at hq
    · cases hq
      exact used
    · exact hkept.used q (h.used x q hq)
  · rw [table, Function.update_apply] at hq
    split_ifs at hq with hx
    · cases hq
      rw [hself, hrecord]
      exact ⟨hin, hx, hverifier⟩
    · have hused := h.used x q hq
      rw [hold q hused, hkept.record q hused]
      exact h.made x q hq
  · rcases names name q hq with ⟨heq, rfl⟩ | ⟨hne, hq⟩
    · rw [hself, table, Function.update_self, heq]
      exact ⟨hname, rfl⟩
    · obtain ⟨hnamed, htable⟩ := h.named name q hq
      rw [hold q (h.used _ q htable), table]
      refine ⟨hnamed, ?_⟩
      -- another clientid, as the name is another one
      have hother : ownerClientid (maker q).1 ≠ ownerClientid incarnation.1 := by
        intro heq
        apply hne
        rw [hnamed, hname, owner_eq hN (h.made _ q htable).1 hin heq]
      rw [Function.update_of_ne hother]
      exact htable

/-- What the insertion leaves behind keeps the tables. -/
lemma Tables.store (h : Tables I c maker) (hN : Set.InjOn nameDigest (Prod.fst '' I)) (hin : incarnation ∈ I)
    (hkept : ClientId.Kept c c') (houtcome : Outcome c c' (ownerClientid incarnation.1) record status stored)
    (hname : record.clientName = cString incarnation.1)
    (hverifier : record.incomingVerifier = strncpy incarnation.2 8) :
    Tables I c' (noteMaker maker incarnation stored) ∧
      (status = .success → ∃ p, c'.htClientId (ownerClientid incarnation.1) = some p ∧
        noteMaker maker incarnation stored p = incarnation) := by
  have hpools : ∀ w, c'.clientidPool w = [] := fun w => by rw [hkept.pools, h.pools]
  cases houtcome with
  | refused failed new table names =>
    refine ⟨⟨hpools, hkept.spare, fun x p hp => ?_, fun x p hp => ?_, fun name p hp => ?_⟩,
      fun hok => absurd hok failed⟩
    · rw [table] at hp
      exact hkept.used p (h.used x p hp)
    · rw [table] at hp
      have hused := h.used x p hp
      rw [noteMaker_of_used new hused, hkept.record p hused]
      exact h.made x p hp
    · rw [names] at hp
      have hold := h.named name p hp
      rw [noteMaker_of_used new (h.used _ p hold.2), table]
      exact hold
  | half p failed new used hrecord table names unnamed =>
    refine ⟨h.file hN hin hkept hname hverifier new used hrecord table fun name q hq => ?_,
      fun hok => absurd hok failed⟩
    rw [names] at hq
    refine .inr ⟨?_, hq⟩
    rintro rfl
    rw [unnamed] at hq
    cases hq
  | full p new used hrecord table names =>
    refine ⟨h.file hN hin hkept hname hverifier new used hrecord table fun name q hq => ?_,
      fun _ => ⟨p, by rw [table, Function.update_self], noteMaker_self⟩⟩
    rw [names, Function.update_apply] at hq
    split_ifs at hq with heq
    · cases hq
      exact .inl ⟨heq, rfl⟩
    · exact .inr ⟨heq, hq⟩

lemma Tables.confirm (h : Tables I c maker) (hpools : c'.clientidPool = c.clientidPool)
    (harrays : c'.arrays = c.arrays) (hused : c'.used = c.used) (htable : c'.htClientId = c.htClientId)
    (hnames : c'.htClientIdReverse = c.htClientIdReverse)
    (hrecord : ∀ p, (c'.record p).incomingVerifier = (c.record p).incomingVerifier) : Tables I c' maker where
  pools w := by rw [hpools, h.pools]
  spare := by rw [harrays, hused]; exact h.spare
  used x p hp := by rw [htable] at hp; rw [hused]; exact h.used x p hp
  made x p hp := by rw [htable] at hp; rw [hrecord]; exact h.made x p hp
  named name p hp := by rw [hnames] at hp; rw [htable]; exact h.named name p hp

/-- A session changes no client. -/
lemma createNewSession_clients (server : Server) (p w : ℕ) (args : CreateSessionArgs) (allocs : SessionAllocs) :
    (createNewSession server p w args allocs).2.2.clients = server.clients := by
  unfold createNewSession fillSession nfs41SessionSet
  cases hget : getPrealloc server.nbPreStateV4 (server.poolSession w) server.sessionArrays with
  | mk q rest =>
    cases q with
    | none => rfl
    | some q =>
      dsimp only
      split_ifs <;> rfl

/-- CREATE_SESSION moves no record to another incarnation. -/
lemma Tables.createSession {server : Server} (h : Tables I server.clients maker) (compound : Compound) :
    Tables I (nfs4Compound server compound).2.clients maker := by
  rw [(nfs4Compound_frame server compound).1]
  unfold nfs41OpCreateSession
  cases hp : nfsClientIdGetPointer server compound.args.csaClientid compound.allocs.getOk with
  | none => exact h
  | some p =>
    dsimp only
    split_ifs
    · exact h
    · exact h
    · rw [createNewSession_clients]
      refine h.confirm rfl rfl rfl rfl rfl fun q => ?_
      show (Function.update server.clients.record p _ q).incomingVerifier = _
      rw [Function.update_apply]
      split_ifs with heq
      · rw [heq]
      · rfl

/-! ## The requests -/

/-- What holds of the server in a run. -/
structure Sound (I : Set Incarnation) (s : Exchanges) : Prop where
  tables : Tables I s.server.clients s.maker
  answers : Answered I s.answers

/-- A server that has just started. -/
lemma Started.sound (h : Started s) : Sound I s where
  tables :=
    { pools := h.pools
      spare := h.spare
      used := fun x p hp => by rw [h.clientids] at hp; cases hp
      made := fun x p hp => by rw [h.clientids] at hp; cases hp
      named := fun name p hp => by rw [h.names] at hp; cases hp }
  answers a ha := by rw [h.answers] at ha; cases ha

/-- A record an answer still reaches was made for that owner. -/
lemma Sound.maker_of_reaches {a : Exchanged} (h : Sound I s) (hN : Set.InjOn nameDigest (Prod.fst '' I))
    (ha : (a.coOwnerid, a.coVerifier) ∈ I) (hid : a.clientid = ownerClientid a.coOwnerid) (hp : s.Reaches a p) :
    (s.maker p).1 = a.coOwnerid ∧ s.server.clients.htClientId (ownerClientid a.coOwnerid) = some p := by
  rcases hp with hp | hp
  · obtain ⟨hin, hx, -⟩ := h.tables.made _ p hp
    rw [hid] at hx hp
    exact ⟨(owner_eq hN ha hin hx).symm, hp⟩
  · obtain ⟨hname, htable⟩ := h.tables.named _ p hp
    have hin := (h.tables.made _ p htable).1
    -- the digest is one of the string
    have hdigest : nameDigest a.coOwnerid = nameDigest (s.maker p).1 := by
      unfold nameDigest
      rw [hname]
    have heq := hN (Set.mem_image_of_mem _ ha) (Set.mem_image_of_mem _ hin) hdigest
    rw [← show a.coOwnerid = (s.maker p).1 from heq] at htable
    exact ⟨heq.symm, htable⟩

/-- What `Sound` says of two incarnations. -/
lemma Sound.isolated (h : Sound I s) (hN : Set.InjOn nameDigest (Prod.fst '' I)) : Isolated s := by
  intro a ha b hb hne
  obtain ⟨hain, haid⟩ := h.answers a ha
  obtain ⟨hbin, hbid⟩ := h.answers b hb
  refine ⟨fun heq => ?_, fun p hpa hpb => ?_⟩
  · rw [haid, hbid] at heq
    exact hne (owner_eq hN hain hbin heq)
  · apply hne
    rw [← (h.maker_of_reaches hN hain haid hpa).1, ← (h.maker_of_reaches hN hbin hbid hpb).1]

variable {fields : ClientFields}

lemma exchangeReply_spec {replyOk : Bool} {r : Except Nfsstat4 ExchangeIdResok}
    (h : exchangeReply clientid fields replyOk = some r) : ∃ resok, r = .ok resok ∧ resok.eirClientid = clientid := by
  unfold exchangeReply at h
  split_ifs at h
  cases h
  exact ⟨_, rfl, rfl⟩

variable {r : Except Nfsstat4 ExchangeIdResok × Option ℕ × Server}

/-- The answer names the clientid only when the insertion succeeded. -/
lemma exchangeStored_spec {replyOk : Bool} {out : ClientId.Status × Option ℕ × Server}
    (h : exchangeStored clientid fields replyOk out = some r) :
    r.2 = out.2 ∧ ∀ resok, r.1 = .ok resok → out.1 = .success ∧ resok.eirClientid = clientid := by
  obtain ⟨answer, stored, server⟩ := out
  cases answer with
  | success =>
    obtain ⟨reply, hreply, rfl⟩ := Option.map_eq_some_iff.mp h
    obtain ⟨resok', rfl, hid⟩ := exchangeReply_spec hreply
    refine ⟨rfl, fun resok hok => ?_⟩
    cases hok
    exact ⟨rfl, hid⟩
  | insertMallocError =>
    cases h
    exact ⟨rfl, fun resok hok => by cases hok⟩
  | notFound =>
    cases h
    exact ⟨rfl, fun resok hok => by cases hok⟩

variable {args : ExchangeIdArgs}

/-- One answer more. -/
lemma Answered.note (h : Answered I s.answers) (hin : (args.coOwnerid, args.coVerifier) ∈ I)
    (hid : ∀ resok, r.1 = .ok resok → resok.eirClientid = ownerClientid args.coOwnerid) :
    Answered I (s.note args r).answers := by
  obtain ⟨reply, stored, server⟩ := r
  cases reply with
  | error status => exact h
  | ok resok =>
    intro a ha
    rcases List.mem_cons.mp ha with rfl | ha
    · exact ⟨hin, hid resok rfl⟩
    · exact h a ha

/-- The answer to a renewal. -/
lemma Sound.renewed (h : Sound I (s.note args r)) (hN : Set.InjOn nameDigest (Prod.fst '' I))
    (hin : (args.coOwnerid, args.coVerifier) ∈ I)
    (hid : ∀ resok, r.1 = .ok resok → resok.eirClientid = ownerClientid args.coOwnerid)
    (hmade : ∀ resok, r.1 = .ok resok →
      ∃ q, (s.note args r).server.clients.htClientId (ownerClientid args.coOwnerid) = some q ∧
        (s.note args r).maker q = (args.coOwnerid, args.coVerifier)) :
    ∀ resok, r.1 = .ok resok →
      ∀ p, (s.note args r).Reaches ⟨args.coOwnerid, args.coVerifier, resok.eirClientid⟩ p →
        (s.note args r).maker p = (args.coOwnerid, args.coVerifier) := by
  intro resok hok p hp
  obtain ⟨q, hq, hmaker⟩ := hmade resok hok
  have htable := (h.maker_of_reaches hN hin (hid resok hok) hp).2
  rw [hq] at htable
  cases htable
  exact hmaker

/-- An exchange that stores a record keeps `Sound`. -/
lemma Sound.stores {env : ExchangeEnv} (h : Sound I s) (hN : Set.InjOn nameDigest (Prod.fst '' I))
    (hin : (args.coOwnerid, args.coVerifier) ∈ I) (hdefined : ¬ Undefined args.eiaFlags)
    (hname : record.clientName = cString args.coOwnerid)
    (hverifier : record.incomingVerifier = strncpy args.coVerifier 8)
    (hother : ∀ p, s.server.clients.htClientId (ownerClientid args.coOwnerid) = some p →
      s.maker p ≠ (args.coOwnerid, args.coVerifier))
    (hr : exchangeStored (ownerClientid args.coOwnerid) fields env.replyOk
      (storeClient s.server w (ownerClientid args.coOwnerid) record fields env.allocs) = some r) :
    Sound I (s.note args r) ∧ Lawful s args r := by
  obtain ⟨hkept, houtcome⟩ := storeClient_outcome s.server w (ownerClientid args.coOwnerid) record fields
    env.allocs h.tables.pools h.tables.spare
  obtain ⟨htables, hmade⟩ := h.tables.store hN hin hkept houtcome hname hverifier
  obtain ⟨hrest, hok⟩ := exchangeStored_spec hr
  have hid := fun resok heq => (hok resok heq).2
  have hsound : Sound I (s.note args r) := by
    refine ⟨?_, h.answers.note hin hid⟩
    show Tables I r.2.2.clients (noteMaker s.maker _ r.2.1)
    rw [hrest]
    exact htables
  refine ⟨hsound, fun a ha howner hver => ⟨fun resok heq => ?_, fun p hp hmaker => ?_⟩, ?_,
    fun hundef => absurd hundef hdefined⟩
  · rw [hid resok heq, (h.answers a ha).2, howner]
  · obtain ⟨hain, haid⟩ := h.answers a ha
    have htable := (h.maker_of_reaches hN hain haid hp).2
    rw [howner] at htable
    exact absurd hmaker (hother p htable)
  · refine hsound.renewed hN hin hid fun resok heq => ?_
    show ∃ q, r.2.2.clients.htClientId _ = some q ∧ noteMaker s.maker _ r.2.1 q = _
    rw [hrest]
    exact hmade (hok resok heq).1

/-- An exchange that answers from the record it found keeps `Sound`. -/
lemma Sound.keeps {resok : ExchangeIdResok} (h : Sound I s) (hN : Set.InjOn nameDigest (Prod.fst '' I))
    (hin : (args.coOwnerid, args.coVerifier) ∈ I) (hdefined : ¬ Undefined args.eiaFlags)
    (hid : resok.eirClientid = ownerClientid args.coOwnerid)
    (htable : s.server.clients.htClientId (ownerClientid args.coOwnerid) = some p)
    (hmaker : s.maker p = (args.coOwnerid, args.coVerifier)) :
    Sound I (s.note args (.ok resok, none, s.server)) ∧ Lawful s args (.ok resok, none, s.server) := by
  have hids : ∀ resok', Except.ok (ε := Nfsstat4) resok = .ok resok' →
      resok'.eirClientid = ownerClientid args.coOwnerid := by
    intro resok' heq
    cases heq
    exact hid
  have hsound : Sound I (s.note args (.ok resok, none, s.server)) :=
    ⟨h.tables, h.answers.note hin hids⟩
  refine ⟨hsound, fun a ha howner _ => ⟨fun resok' heq => ?_, fun _ _ _ => ⟨rfl, fun _ => ⟨resok, rfl⟩⟩⟩, ?_,
    fun hundef => absurd hundef hdefined⟩
  · rw [hids resok' heq, (h.answers a ha).2, howner]
  · exact hsound.renewed hN hin hids fun _ _ => ⟨p, htable, hmaker⟩

/-- A refused request. -/
lemma Sound.refuses {error : Nfsstat4} (h : Sound I s) (hflags : Undefined args.eiaFlags → error = .inval)
    (hnot : ¬ Undefined args.eiaFlags → s.server.clients.htClientId (ownerClientid args.coOwnerid) = none)
    (hN : Set.InjOn nameDigest (Prod.fst '' I)) :
    Sound I (s.note args (.error error, none, s.server)) ∧ Lawful s args (.error error, none, s.server) := by
  refine ⟨⟨h.tables, h.answers⟩, fun a ha howner hver => ⟨fun _ heq => (by cases heq), fun p hp hmaker => ?_⟩,
    fun _ heq => (by cases heq), fun hundef => ⟨by rw [hflags hundef], rfl⟩⟩
  refine ⟨rfl, fun hdefined => ?_⟩
  obtain ⟨hain, haid⟩ := h.answers a ha
  have htable := (h.maker_of_reaches hN hain haid hp).2
  rw [howner, hnot hdefined] at htable
  cases htable

/-- A request. -/
theorem Sound.exchangeId {credential : ℕ} {env : ExchangeEnv} (h : Sound I s)
    (hN : Set.InjOn nameDigest (Prod.fst '' I))
    (hI : Set.InjOn (fun x : Incarnation => (x.1, cString (x.2.take 8))) I)
    (hfair : Fair I s (.exchangeId w args credential env))
    (hr : nfs41OpExchangeId s.server s.serverBootTime w args credential env = some r) :
    Sound I (s.note args r) ∧ Lawful s args r := by
  obtain ⟨hin, hflags, hget, hunconfirmed⟩ := hfair
  unfold nfs41OpExchangeId at hr
  by_cases hlength : args.coOwnerid.length < maxnamlen
  swap
  · rw [if_neg hlength] at hr
    cases hr
  rw [if_pos hlength] at hr
  obtain ⟨clientid, hcompute, hr⟩ := Option.bind_eq_some_iff.mp hr
  have hdigest : clientid = ownerClientid args.coOwnerid :=
    nfsClientIdBasicCompute_eq (Nat.le_of_lt hlength) hcompute
  subst hdigest
  by_cases hrefused : flagsRefused args.eiaFlags = true
  · rw [if_pos hrefused] at hr
    cases hr
    exact h.refuses (fun _ => rfl) (fun hnot => absurd (hflags.mp hrefused) hnot) hN
  rw [if_neg hrefused] at hr
  have hdefined : ¬ Undefined args.eiaFlags := fun hundef => hrefused (hflags.mpr hundef)
  unfold nfsClientIdGet at hr
  cases hp : nfsClientIdGetPointer s.server (ownerClientid args.coOwnerid) env.getOk with
  | none =>
    rw [hp] at hr
    have hnone : s.server.clients.htClientId (ownerClientid args.coOwnerid) = none := by
      rcases hget with hget | hnone
      · unfold nfsClientIdGetPointer at hp
        rw [if_pos hget] at hp
        exact hp
      · exact hnone
    dsimp only [Option.map_none] at hr
    unfold exchangeNew at hr
    cases hhost : env.hostname with
    | none =>
      rw [hhost] at hr
      cases hr
      exact h.refuses (fun hundef => absurd hundef hdefined) (fun _ => hnone) hN
    | some hostname =>
      rw [hhost] at hr
      refine h.stores hN hin hdefined ?_ ?_ (fun p hp' => ?_) hr
      · rfl
      · rfl
      · rw [hnone] at hp'
        cases hp'
  | some p =>
    rw [hp] at hr
    have htable := getPointer_eq_some hp
    obtain ⟨hmin, howner, hverifier⟩ := h.tables.made _ p htable
    have hsame := owner_eq hN hin hmin howner
    dsimp only [Option.map_some] at hr
    unfold exchangeKnown at hr
    split_ifs at hr with hnew
    · -- a client that has rebooted
      refine h.stores hN hin hdefined ?_ ?_ (fun q hq hmaker => ?_) hr
      · rfl
      · rfl
      · rw [htable] at hq
        cases hq
        rw [hmaker] at hverifier
        apply hnew.2
        rw [hverifier]
        exact (strncmpEq_strncpy ..).mpr rfl
    · obtain ⟨reply, hreply, rfl⟩ := Option.map_eq_some_iff.mp hr
      obtain ⟨resok, rfl, hid⟩ := exchangeReply_spec hreply
      -- the record is the one of this incarnation
      have heq : strncmpEq (s.server.clients.record p).incomingVerifier args.coVerifier 8 = true := by
        by_cases hconfirmed : (s.server.clients.record p).confirmed = .confirmed
        · by_contra hne
          exact hnew ⟨hconfirmed, hne⟩
        · exact hunconfirmed p htable hconfirmed
      rw [hverifier, strncmpEq_strncpy] at heq
      have hmaker : s.maker p = (args.coOwnerid, args.coVerifier) := by
        apply hI hmin hin
        show ((s.maker p).1, cString ((s.maker p).2.take 8)) = (args.coOwnerid, cString (args.coVerifier.take 8))
        rw [← hsame, heq]
      exact h.keeps hN hin hdefined hid htable hmaker

/-- One request of either kind. -/
theorem Sound.request {request : Request} (h : Sound I s) (hN : Set.InjOn nameDigest (Prod.fst '' I))
    (hI : Set.InjOn (fun x : Incarnation => (x.1, cString (x.2.take 8))) I) (hfair : Fair I s request)
    (hstep : serve s request = some s') : Sound I s' := by
  cases request with
  | exchangeId w args credential env =>
    obtain ⟨r, hr, rfl⟩ := Option.map_eq_some_iff.mp hstep
    exact (h.exchangeId hN hI hfair hr).1
  | createSession c =>
    cases hstep
    exact ⟨h.tables.createSession c, h.answers⟩

/-- In a run whose owners can be told apart, whose verifiers of one owner differ before a `NUL`, and that is
fair, different owners have different clientids and records, and every EXCHANGE_ID does what it should. -/
theorem exchanged_of_fair (hN : Legible (Prod.fst '' I))
    (hI : Set.InjOn (fun x : Incarnation => (x.1, cString (x.2.take 8))) I) (h₀ : Started s₀)
    (h : ReachableBy serve (Fair I) s₀ s) :
    Isolated s ∧ ∀ w args credential env r, Fair I s (.exchangeId w args credential env) →
      nfs41OpExchangeId s.server s.serverBootTime w args credential env = some r → Lawful s args r := by
  have hsound : Sound I s := ReachableBy.invariant (I := Sound I) h₀.sound
    (fun s request s' hsound hfair hstep => hsound.request hN.injOn hI hfair hstep) h
  exact ⟨hsound.isolated hN.injOn,
    fun w args credential env r hfair hr => (hsound.exchangeId hN.injOn hI hfair hr).2⟩

instance [DecidablePred (· ∈ I)] (s : Exchanges) : DecidablePred (Fair I s)
  | .exchangeId _ args _ env =>
    have : Decidable (s.server.clients.htClientId (ownerClientid args.coOwnerid) = none) := inferInstance
    have : Decidable (∀ p ∈ s.server.clients.htClientId (ownerClientid args.coOwnerid),
        (s.server.clients.record p).confirmed ≠ .confirmed →
          strncmpEq (s.server.clients.record p).incomingVerifier args.coVerifier 8 = true) :=
      Option.decidableForallMem _
    inferInstanceAs (Decidable ((args.coOwnerid, args.coVerifier) ∈ I ∧
      (flagsRefused args.eiaFlags = true ↔ Undefined args.eiaFlags) ∧
      (env.getOk = true ∨ s.server.clients.htClientId (ownerClientid args.coOwnerid) = none) ∧
      ∀ p ∈ s.server.clients.htClientId (ownerClientid args.coOwnerid),
        (s.server.clients.record p).confirmed ≠ .confirmed →
          strncmpEq (s.server.clients.record p).incomingVerifier args.coVerifier 8 = true))
  | .createSession _ => inferInstanceAs (Decidable True)

/-- A server without clients and sessions. -/
def sampleExchanges : Exchanges where
  server :=
    { soleClient with
      clients := ClientId.sampleServer.clients }
  serverBootTime := 1300000000
  answers := []
  maker _ := ([], [])

lemma sampleExchanges_started : Started sampleExchanges where
  clientids _ := rfl
  names _ := rfl
  pools _ := rfl
  spare := ClientId.sampleServer_started.spare
  answers := rfl

/-- The request of a client, when nothing fails. -/
def sampleExchangeArgs (owner : List UInt8) (eiaFlags : UInt32) : ExchangeIdArgs :=
  ⟨[1, 2, 3, 4, 5, 6, 7, 8], owner, eiaFlags⟩

def sampleEnv : ExchangeEnv where
  getOk := true
  allocs := ⟨true, true, true, true⟩
  replyOk := true
  hostname := some [104]
  stackRecord := soleClient.clients.record 0
  stackFields := soleClient.fields 0

/-- The clients `a` and `b`, the first one of which creates a session. -/
def twoOwners : List Request :=
  [.exchangeId 0 (sampleExchangeArgs [97] 0) 0 sampleEnv,
   .createSession { undefinedFlag with args := { undefinedFlag.args with csaClientid := 970, csaFlags := 0 } },
   .exchangeId 0 (sampleExchangeArgs [98] 0) 0 sampleEnv]

/-- Two owners with different digests get two ids, one of them confirmed. -/
theorem exchanged_of_twoOwners :
    (execute serve sampleExchanges twoOwners).any
        (fun s => s.answers.map Exchanged.clientid = [980, 970] ∧
          (s.server.clients.htClientId 970).any fun p =>
            (s.server.clients.record p).confirmed = .confirmed) = true ∧
      ∀ s, execute serve sampleExchanges twoOwners = some s → Isolated s := by
  refine ⟨by decide +kernel, fun s hs => ?_⟩
  have hN : Legible (Prod.fst ''
      {i : Incarnation | i ∈ [([97], [1, 2, 3, 4, 5, 6, 7, 8]), ([98], [1, 2, 3, 4, 5, 6, 7, 8])]}) := by
    constructor
    all_goals simp only [Set.forall_mem_image, Set.mem_ofPred_eq]
    · decide
    · decide
    · decide +kernel
  have hI : Set.InjOn (fun x : Incarnation => (x.1, cString (x.2.take 8)))
      {i : Incarnation | i ∈ [([97], [1, 2, 3, 4, 5, 6, 7, 8]), ([98], [1, 2, 3, 4, 5, 6, 7, 8])]} := by
    intro i hi j hj heq
    simp only [Set.mem_ofPred_eq, List.mem_cons, List.not_mem_nil, or_false] at hi hj
    rcases hi with rfl | rfl <;> rcases hj with rfl | rfl
    · rfl
    · exact absurd heq (by decide)
    · exact absurd heq (by decide)
    · rfl
  exact (exchanged_of_fair hN hI sampleExchanges_started
    (reachableBy_of_execute hs (by decide +kernel))).1

/-- The flag 4 is not defined, and is not refused. -/
theorem not_exchanged_of_undefinedFlag :
    ¬ ∀ s₀ s, Started s₀ → Reachable serve s₀ s → Isolated s ∧ ∀ w args credential env r,
      nfs41OpExchangeId s.server s.serverBootTime w args credential env = some r → Lawful s args r := by
  intro h
  have hlaw := (h sampleExchanges sampleExchanges sampleExchanges_started .init).2 0
    (sampleExchangeArgs [97] 4) 0 sampleEnv
  have hread : (nfs41OpExchangeId sampleExchanges.server sampleExchanges.serverBootTime 0 (sampleExchangeArgs [97] 4) 0
      sampleEnv).any (fun r => r.1.isOk) = true := by decide +kernel
  cases hr : nfs41OpExchangeId sampleExchanges.server sampleExchanges.serverBootTime 0 (sampleExchangeArgs [97] 4) 0
      sampleEnv with
  | none =>
    rw [hr] at hread
    cases hread
  | some r =>
    rw [hr] at hread
    have hinval := ((hlaw r hr).flags (by decide)).1
    rw [Option.any_some, hinval] at hread
    cases hread

end Ganesha.Nfs41
