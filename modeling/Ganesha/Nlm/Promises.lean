import Ganesha.Nlm.Requests

/-!
# What the clients were told

The server with what its clients believe: a client has a lock when the reply to LOCK says granted or
when a GRANTED_MSG was sent, until it unlocks, cancels or refuses it, or its host is recovered.
-/

namespace Ganesha.Nlm
open Library.Transition

/-- A lock that a client was told to have, on the bytes from `start` to before `stop`. -/
structure Promise where
  callerName : List UInt8
  oh : Netobj
  svid : Int32
  fh : Netobj
  cookie : Netobj
  start : ℕ
  stop : ℕ
  exclusive : Bool

/-- The bytes of the file that the client has. -/
def Promise.bytes (a : Promise) : Set ℕ := {x | a.start ≤ x ∧ x < a.stop}

/-- The lock of an entry, as the client is told about it. -/
def Entry.promise (e : Entry) : Promise where
  callerName := e.callerName
  oh := e.oh
  svid := e.svid
  fh := e.fh
  cookie := e.cookie
  start := e.start.toNat
  stop := (rangeEnd e.start e.len).toNat
  exclusive := e.exclusive

/-- The client is the one that sent the request, and the file is the same. -/
def Promise.sameOwner (a : Promise) (lock : Lock) : Prop :=
  a.callerName = lock.callerName ∧ a.fh = lock.fh ∧ a.oh = lock.oh ∧ a.svid = lock.svid

instance (a : Promise) (lock : Lock) : Decidable (a.sameOwner lock) :=
  inferInstanceAs (Decidable (_ ∧ _))

/-- What a client still has after it has given up a range. -/
def Promise.cut (lock : Lock) (a : Promise) : List Promise :=
  if a.sameOwner lock then
    [{ a with stop := min a.stop lock.offset.toNat },
     { a with start := max a.start (rangeEnd lock.offset lock.len).toNat }]
  else [a]

/-- The server, and what the clients were told. -/
structure World where
  server : Server
  told : List Promise

/-- A step of the server, or the answer of a client that refuses a grant. -/
inductive Move
  | event (ev : Event)
  | refuse (cookie : Netobj)

/-- What the client of a LOCK request is told. -/
def lockTold (s : Server) (arg : LockArgs) (allocOk : Bool) : List Promise :=
  match addToLocklist s arg allocOk with
  | (_, none) => []
  | (s', some p) => if (s'.entry p).state = .granted then [(arg.toEntry .granted).promise] else []

/-- What the clients were told after a step. -/
def World.toldAfter (w : World) : Event → List Promise
  | .lock arg allocOk => w.told ++ lockTold w.server arg allocOk
  | .unlock lock _ => w.told.flatMap (Promise.cut lock)
  | .cancel lock exclusive =>
    if (findLockEntry w.server lock exclusive .blocked).isSome then w.told.flatMap (Promise.cut lock)
    else w.told
  | .smNotify name _ => w.told.filter fun a => a.callerName ≠ name
  | .grantedRes cookie gracePeriod =>
    if gracePeriod then w.told.filter fun a => a.cookie ≠ cookie else w.told
  | .grantBlocked _ _ => w.told
  | .sendGrant p rpcOk _ | .resendGrant p rpcOk _ =>
    w.told ++ if rpcOk then [(w.server.entry p).promise] else []

/-- One step. -/
def advance (w : World) : Move → Option World
  | .event ev => (serve w.server ev).map fun s => { server := s, told := w.toldAfter ev }
  | .refuse cookie => some
      { server := nlm4GrantedRes w.server cookie false
        told := w.told.filter fun a => a.cookie ≠ cookie }

/-- The world when the server starts. -/
def World.initial : World where
  server := Nlm.initial
  told := []

/-- Two different owners do not have conflicting locks. -/
def Exclusive (w : World) : Prop :=
  ∀ a ∈ w.told, ∀ b ∈ w.told, (a.callerName, a.oh, a.svid) ≠ (b.callerName, b.oh, b.svid) →
    a.fh = b.fh → a.exclusive ∨ b.exclusive → Disjoint a.bytes b.bytes

/-- The granted entry is the one of the client, and has this byte. -/
def Covers (s : Server) (p : ℕ) (a : Promise) (x : ℕ) : Prop :=
  p ∈ s.lockList ∧ (s.entry p).state = .granted ∧ a.sameOwner (s.entry p).lock ∧
    x ∈ (s.entry p).bytes ∧ (a.exclusive → (s.entry p).exclusive)

/-- Every byte that a client has is in a granted entry of this client. -/
def Covered (s : Server) (told : List Promise) : Prop :=
  ∀ a ∈ told, ∀ x ∈ a.bytes, ∃ p, Covers s p a x

instance (e : Entry) (x : ℕ) : Decidable (x ∈ e.bytes) := inferInstanceAs (Decidable (_ ∧ _))

instance (a : Promise) (x : ℕ) : Decidable (x ∈ a.bytes) := inferInstanceAs (Decidable (_ ∧ _))

/-- What the clients were told is kept: an unlock does not put back exactly one piece of a granted
lock, and no GRANTED_MSG is sent successfully. -/
def Faithful (w : World) : Move → Prop
  | .event (.unlock lock _) =>
    (w.server.lockList.flatMap (remains w.server lock)).length = 1 →
      ∀ p ∈ w.server.lockList, ∀ f ∈ remains w.server lock p, f.state = .blocked
  | .event (.sendGrant _ rpcOk _) | .event (.resendGrant _ rpcOk _) => rpcOk = false
  | _ => True

instance (w : World) : DecidablePred (Faithful w)
  | .event (.unlock _ _) => inferInstanceAs (Decidable (_ = 1 → ∀ p ∈ w.server.lockList, _))
  | .event (.sendGrant _ _ _) | .event (.resendGrant _ _ _) => inferInstanceAs (Decidable (_ = false))
  | .event (.lock _ _) | .event (.cancel _ _) | .event (.smNotify _ _) => isTrue trivial
  | .event (.grantedRes _ _) | .event (.grantBlocked _ _) | .refuse _ => isTrue trivial

/-- The ranges of the requests. -/
def Move.Sized : Move → Prop
  | .event (.lock arg _) => arg.alock.Sized
  | .event (.unlock lock _) => lock.Sized
  | _ => True

instance : DecidablePred Move.Sized
  | .event (.lock arg _) => inferInstanceAs (Decidable arg.alock.Sized)
  | .event (.unlock lock _) => inferInstanceAs (Decidable lock.Sized)
  | .event (.cancel _ _) | .event (.smNotify _ _) | .event (.grantedRes _ _) => isTrue trivial
  | .event (.grantBlocked _ _) | .event (.sendGrant _ _ _) => isTrue trivial
  | .event (.resendGrant _ _ _) | .refuse _ => isTrue trivial

variable {s s' : Server} {w w' : World} {told told' : List Promise} {p q : ℕ} {lock : Lock}

/-- Promises that are covered by the list do not conflict. -/
lemma exclusive_of_covered (hs : Orderly w.server w.server.lockList)
    (hcov : Covered w.server w.told) : Exclusive w := by
  intro a ha b hb howner hfh hexcl
  rw [Set.disjoint_left]
  intro x hxa hxb
  obtain ⟨p, hp, hgp, hop, hxp, hep⟩ := hcov a ha x hxa
  obtain ⟨q, hq, hgq, hoq, hxq, heq⟩ := hcov b hb x hxb
  have hne : p ≠ q := by
    rintro rfl
    apply howner
    rw [hop.1, hop.2.2.1, hop.2.2.2, hoq.1, hoq.2.2.1, hoq.2.2.2]
  have hfh' : (w.server.entry p).fh = (w.server.entry q).fh := hop.2.1.symm.trans (hfh.trans hoq.2.1)
  rcases hs.compatible p hp q hq hne hfh' hgp hgq with hdisjoint | ⟨hnp, hnq⟩
  · exact Set.disjoint_left.mp hdisjoint hxp hxq
  · rcases hexcl with h | h
    · exact hnp (hep h)
    · exact hnq (heq h)

/-! ## Entries that stay -/

/-- A part of what was told, with the same client. -/
def Smaller (a b : Promise) : Prop :=
  a.bytes ⊆ b.bytes ∧ a.callerName = b.callerName ∧ a.oh = b.oh ∧ a.svid = b.svid ∧ a.fh = b.fh ∧
    a.exclusive = b.exclusive ∧ a.cookie = b.cookie

lemma Smaller.refl (a : Promise) : Smaller a a := ⟨subset_rfl, rfl, rfl, rfl, rfl, rfl, rfl⟩

/-- A message to the client is to be sent for the entry. -/
def Pending (s : Server) (p : ℕ) : Prop := .sendGrant p ∈ s.queue ∨ .resendGrant p ∈ s.queue

/-- The entry has this byte, it is from the request that was told, and no message will remove it. -/
structure Firm (s : Server) (p : ℕ) (a : Promise) (x : ℕ) : Prop where
  covers : Covers s p a x
  cookie : (s.entry p).cookie = a.cookie
  settled : ¬ Pending s p

/-- Every byte that a client has is in such an entry. -/
def Kept (s : Server) (told : List Promise) : Prop :=
  ∀ a ∈ told, ∀ x ∈ a.bytes, ∃ p, Firm s p a x

lemma Kept.covered (h : Kept s told) : Covered s told := by
  intro a ha x hx
  obtain ⟨p, hp⟩ := h a ha x hx
  exact ⟨p, hp.covers⟩

/-- Byte by byte. -/
lemma Kept.of_kept (h : Kept s told) (hsub : ∀ a ∈ told', ∃ b ∈ told, Smaller a b)
    (hkept : ∀ p a x, a ∈ told' → x ∈ a.bytes → Firm s p a x → ∃ q, Firm s' q a x) :
    Kept s' told' := by
  intro a ha x hx
  obtain ⟨b, hb, hbytes, hname, hoh, hsvid, hfh, hexcl, hcookie⟩ := hsub a ha
  obtain ⟨p, ⟨hp, hg, howner, hxp, hep⟩, hcookieP, hsettled⟩ := h b hb x (hbytes hx)
  refine hkept p a x ha hx ⟨⟨hp, hg, ?_, hxp, ?_⟩, hcookieP.trans hcookie.symm, hsettled⟩
  · unfold Promise.sameOwner
    rw [hname, hoh, hsvid, hfh]
    exact howner
  · rw [hexcl]
    exact hep

/-! ## The list stays in order -/

lemma Orderly.same (h : Orderly s s.lockList) (hlist : s'.lockList = s.lockList)
    (hentry : s'.entry = s.entry) (hnext : s'.next = s.next) : Orderly s' s'.lockList := by
  rw [hlist]
  exact h.congr (fun _ _ => by rw [hentry]) hnext.ge

lemma Orderly.without (h : Orderly s s.lockList) (hlist : s'.lockList = s.lockList.erase p)
    (hentry : s'.entry = s.entry) (hnext : s'.next = s.next) : Orderly s' s'.lockList := by
  rw [hlist]
  exact h.erase.congr (fun _ _ => by rw [hentry]) hnext.ge

/-- Every step of the server keeps the list orderly. -/
lemma Orderly.serve {ev : Event} (h : Orderly s s.lockList) (hsized : Move.Sized (.event ev))
    (hs : serve s ev = some s') : Orderly s' s'.lockList := by
  cases ev with
  | lock arg allocOk =>
    have hadd : Orderly (Nlm.addToLocklist s arg allocOk).1 _ := h.addToLocklist hsized
    rw [← Option.some.inj hs]
    unfold nlm4Lock
    split
    · rename_i hr
      rw [hr] at hadd
      exact hadd
    · rename_i hr
      rw [hr] at hadd
      exact hadd.same rfl rfl rfl
  | unlock lock copyOk =>
    rw [← Option.some.inj hs]
    unfold nlm4Unlock
    split
    · exact h
    · rename_i p hfind
      have hinc : Orderly (incRef s p) (incRef s p).lockList := h.same rfl rfl rfl
      refine (hinc.deleteLockEntry hsized).same ?_ ?_ ?_
      · split_ifs <;> rfl
      · split_ifs <;> rfl
      · split_ifs <;> rfl
  | cancel lock exclusive =>
    simp only [Nlm.serve, nlm4Cancel] at hs
    split at hs
    · rw [← Option.some.inj hs]
      exact h
    · obtain ⟨s₁, hs₁, rfl⟩ := Option.map_eq_some_iff.mp hs
      obtain ⟨-, rfl⟩ := removeFromLocklist_eq_some hs₁
      exact h.without rfl rfl rfl
  | smNotify name copyOk =>
    rw [← Option.some.inj hs]
    exact h.nodeRecovery
  | grantedRes cookie gracePeriod =>
    rw [← Option.some.inj hs]
    unfold nlm4GrantedRes
    split
    · exact h
    · split_ifs
      · exact h.same rfl rfl rfl
      · exact h
  | grantBlocked fh copyOk =>
    obtain ⟨s₁, hs₁, rfl⟩ := Option.map_eq_some_iff.mp hs
    obtain ⟨-, rfl⟩ := dequeue_eq_some hs₁
    have hsame : Orderly { s with queue := s.queue.erase (.grantBlocked fh) } s.lockList :=
      h.congr (fun _ _ => rfl) le_rfl
    exact hsame.doGrantBlockedLocks
  | sendGrant p rpcOk copyOk =>
    obtain ⟨s₁, hs₁, hs⟩ := Option.bind_eq_some_iff.mp hs
    obtain ⟨-, rfl⟩ := dequeue_eq_some hs₁
    obtain ⟨s₂, hs₂, rfl⟩ := Option.map_eq_some_iff.mp hs
    obtain ⟨-, rfl⟩ := removeFromLocklist_eq_some hs₂
    exact h.without rfl rfl rfl
  | resendGrant p rpcOk copyOk =>
    obtain ⟨s₁, hs₁, hs⟩ := Option.bind_eq_some_iff.mp hs
    obtain ⟨-, rfl⟩ := dequeue_eq_some hs₁
    obtain ⟨s₂, hs₂, rfl⟩ := Option.map_eq_some_iff.mp hs
    obtain ⟨-, rfl⟩ := removeFromLocklist_eq_some hs₂
    exact h.without rfl rfl rfl

/-! ## What was told is kept -/

/-- What is cut off a promise is a part of it without the range. -/
lemma mem_cut {a b : Promise} (h : a ∈ Promise.cut lock b) :
    Smaller a b ∧ (a.sameOwner lock → Disjoint a.bytes lock.bytes) := by
  unfold Promise.cut at h
  split_ifs at h with howner
  · rcases List.mem_cons.mp h with rfl | h
    · refine ⟨⟨fun x hx => ⟨hx.1, ?_⟩, rfl, rfl, rfl, rfl, rfl, rfl⟩, fun _ => ?_⟩
      · exact lt_of_lt_of_le hx.2 (min_le_left _ _)
      · rw [Set.disjoint_left]
        intro x hx hx'
        have hlt : x < lock.offset.toNat := lt_of_lt_of_le hx.2 (min_le_right _ _)
        exact absurd hx'.1 (Nat.not_le.mpr hlt)
    · rw [List.mem_singleton.mp h]
      refine ⟨⟨fun x hx => ⟨?_, hx.2⟩, rfl, rfl, rfl, rfl, rfl, rfl⟩, fun _ => ?_⟩
      · exact le_trans (le_max_left _ _) hx.1
      · rw [Set.disjoint_left]
        intro x hx hx'
        have hle : (rangeEnd lock.offset lock.len).toNat ≤ x := le_trans (le_max_right _ _) hx.1
        exact absurd hx'.2 (Nat.not_lt.mpr hle)
  · rw [List.mem_singleton.mp h]
    exact ⟨Smaller.refl b, fun hsame => absurd hsame howner⟩

/-- A byte outside of the range is in one of the pieces. -/
lemma mem_piece {e : Entry} {es : List Entry} {x : ℕ} (hes : pieces e lock = some es)
    (hx : x ∈ e.bytes) (hx' : x ∉ lock.bytes) : ∃ f ∈ es, x ∈ f.bytes := by
  simp only [pieces] at hes
  obtain ⟨hxl, hxr⟩ := hx
  by_cases hbefore : rangeEnd lock.offset lock.len < e.start
  · rw [if_pos hbefore] at hes
    exact absurd hes (by simp)
  by_cases hbehind : rangeEnd e.start e.len < lock.offset
  · rw [if_neg hbefore, if_pos hbehind] at hes
    exact absurd hes (by simp)
  rw [if_neg hbefore, if_neg hbehind] at hes
  by_cases hall : lock.offset ≤ e.start ∧ rangeEnd e.start e.len ≤ rangeEnd lock.offset lock.len
  · rw [UInt64.le_iff_toNat_le, UInt64.le_iff_toNat_le] at hall
    exact absurd ⟨hall.1.trans hxl, lt_of_lt_of_le hxr hall.2⟩ hx'
  rw [if_neg hall] at hes
  rw [← Option.some.inj hes]
  by_cases hleft : x < lock.offset.toNat
  · have hstart : e.start < lock.offset := by
      rw [UInt64.lt_iff_toNat_lt]
      omega
    refine ⟨{ e with len := lock.offset - e.start }, ?_, ?_⟩
    · rw [if_pos hstart]
      exact List.mem_append_left _ (List.mem_singleton_self _)
    · rw [mem_bytes, rangeEnd_sub hstart]
      exact ⟨hxl, hleft⟩
  · have hright : (rangeEnd lock.offset lock.len).toNat ≤ x := by
      by_contra hlt
      exact hx' ⟨Nat.not_lt.mp hleft, Nat.not_le.mp hlt⟩
    have hend : rangeEnd lock.offset lock.len < rangeEnd e.start e.len := by
      rw [UInt64.lt_iff_toNat_lt]
      omega
    refine ⟨{ e with start := rangeEnd lock.offset lock.len,
                     len := rangeEnd e.start e.len - rangeEnd lock.offset lock.len }, ?_, ?_⟩
    · rw [if_pos hend]
      exact List.mem_append_right _ (List.mem_singleton_self _)
    · rw [mem_bytes, rangeEnd_sub hend]
      exact ⟨hright, hxr⟩

lemma Covers.of_mem {a : Promise} {x : ℕ} (h : Covers s p a x) (hp : p ∈ s'.lockList)
    (hentry : s'.entry p = s.entry p) : Covers s' p a x := by
  obtain ⟨-, hg, howner, hx, he⟩ := h
  unfold Covers
  rw [hentry]
  exact ⟨hp, hg, howner, hx, he⟩

lemma Firm.of_mem {a : Promise} {x : ℕ} (h : Firm s p a x) (hp : p ∈ s'.lockList)
    (hentry : s'.entry p = s.entry p) (hpending : Pending s' p → Pending s p) : Firm s' p a x := by
  refine ⟨h.covers.of_mem hp hentry, ?_, fun hp' => h.settled (hpending hp')⟩
  rw [hentry]
  exact h.cookie

/-- The same list and queue. -/
lemma Kept.same (h : Kept s told) (hlist : s'.lockList = s.lockList) (hentry : s'.entry = s.entry)
    (hqueue : s'.queue = s.queue) : Kept s' told := by
  intro a ha x hx
  obtain ⟨p, hp⟩ := h a ha x hx
  refine ⟨p, hp.of_mem ?_ (by rw [hentry]) fun hpending => ?_⟩
  · rw [hlist]
    exact hp.covers.1
  · rw [Pending, hqueue] at hpending
    exact hpending

/-- A new entry keeps the promises. -/
lemma Kept.append {arg : LockArgs} {state : LockState} (hs : Orderly s s.lockList)
    (hbound : ∀ p, Pending s p → p < s.next) (h : Kept s told) :
    Kept { create s (arg.toEntry state) 2 with lockList := s.lockList ++ [s.next] }
      (told ++ if state = .granted then [(arg.toEntry .granted).promise] else []) := by
  intro a ha x hx
  rcases List.mem_append.mp ha with ha | ha
  · obtain ⟨p, hp⟩ := h a ha x hx
    have hold : (create s (arg.toEntry state) 2).entry p = s.entry p :=
      create_entry_of_lt (hs.lt_next p hp.covers.1)
    exact ⟨p, hp.of_mem (List.mem_append_left _ hp.covers.1) hold id⟩
  · split_ifs at ha with hstate
    · rw [List.mem_singleton.mp ha] at hx ⊢
      have hnew : (create s (arg.toEntry state) 2).entry s.next = arg.toEntry .granted := by
        rw [create_entry_next, hstate]
      refine ⟨s.next, ⟨List.mem_append_right _ (List.mem_singleton_self _), ?_⟩, ?_, fun hpending => ?_⟩
      · show ((create s (arg.toEntry state) 2).entry s.next).state = _ ∧ _
        rw [hnew]
        exact ⟨rfl, ⟨rfl, rfl, rfl, rfl⟩, hx, fun he => he⟩
      · show ((create s (arg.toEntry state) 2).entry s.next).cookie = _
        rw [hnew]
        rfl
      · exact absurd (hbound _ hpending) (Nat.lt_irrefl _)
    · exact absurd ha (by simp)

/-- LOCK keeps them. -/
lemma Kept.nlm4Lock {arg : LockArgs} {allocOk : Bool} (hs : Orderly s s.lockList)
    (hbound : ∀ p, Pending s p → p < s.next) (h : Kept s told) :
    Kept (nlm4Lock s arg allocOk) (told ++ lockTold s arg allocOk) := by
  unfold Nlm.nlm4Lock lockTold addToLocklist
  cases hblocked : blockedRequest s arg with
  | some p =>
    have hp := List.find?_some hblocked
    simp only [decide_eq_true_eq] at hp
    have hnot : (s.entry p).state ≠ .granted := by
      rw [hp.2.1]
      decide
    simp only [incRef_entry, hnot, if_false, List.append_nil]
    exact h.same rfl rfl rfl
  | none =>
    by_cases hok : allocOk
    swap
    · simpa [hok] using h
    simp only [hok, not_true_eq_false, if_false, create_entry_next]
    exact (Kept.append hs hbound h).same rfl rfl rfl

/-- The entry that leaves the list has none of the bytes that a client was told of. -/
lemma Kept.without (h : Kept s told) (hlist : s'.lockList = s.lockList.erase p)
    (hentry : s'.entry = s.entry) (hpending : ∀ q, Pending s' q → Pending s q)
    (hnone : ∀ a x, ¬ Firm s p a x) : Kept s' told := by
  intro a ha x hx
  obtain ⟨q, hq⟩ := h a ha x hx
  have hne : q ≠ p := by
    rintro rfl
    exact hnone a x hq
  refine ⟨q, hq.of_mem ?_ (by rw [hentry]) (hpending q)⟩
  rw [hlist]
  exact (List.mem_erase_of_ne hne).mpr hq.covers.1

lemma pending_append {fh : Netobj} {l : List Task} (h : .sendGrant q ∈ l ++ [.grantBlocked fh] ∨
    .resendGrant q ∈ l ++ [.grantBlocked fh]) : .sendGrant q ∈ l ∨ .resendGrant q ∈ l := by
  simpa using h

/-- A message that was not sent: its entry was not told to anyone. -/
lemma Kept.sendGrant {t : Task} {s₁ : Server} {copyOk : Bool} (h : Kept s told)
    (ht : t = .sendGrant p ∨ t = .resendGrant p) (hs₁ : dequeue s t = some s₁)
    (hs : nlm4SendGrantMsg s₁ p copyOk = some s') : Kept s' told := by
  obtain ⟨hmem, rfl⟩ := dequeue_eq_some hs₁
  obtain ⟨s₂, hs₂, rfl⟩ := Option.map_eq_some_iff.mp hs
  obtain ⟨-, rfl⟩ := removeFromLocklist_eq_some hs₂
  refine h.without rfl rfl (fun q hq => ?_) fun a x hfirm => hfirm.settled ?_
  · exact (pending_append hq).imp List.mem_of_mem_erase List.mem_of_mem_erase
  · rcases ht with rfl | rfl
    · exact Or.inl hmem
    · exact Or.inr hmem

lemma Kept.cut (h : Kept s told) : Kept s (told.flatMap (Promise.cut lock)) := by
  refine h.of_kept (fun a ha => ?_) fun p a x _ _ hcov => ⟨p, hcov⟩
  obtain ⟨b, hb, hcut⟩ := List.mem_flatMap.mp ha
  exact ⟨b, hb, (mem_cut hcut).1⟩

/-- UNLOCK keeps those outside of its range. -/
lemma Kept.unlocked {t : Server} (h : Kept s told) (hs : Orderly s s.lockList)
    (hbound : ∀ p, Pending s p → p < s.next) (hun : Unlocked lock s s')
    (hlist : t.lockList = s'.lockList) (hentry : t.entry = s'.entry)
    (hpending : ∀ q, Pending t q → Pending s q)
    (hpieces : (s.lockList.flatMap (remains s lock)).length = 1 →
      ∀ p ∈ s.lockList, ∀ f ∈ remains s lock p, f.state = .blocked) :
    Kept t (told.flatMap (Promise.cut lock)) := by
  refine h.of_kept (fun a ha => ?_) fun p a x ha hx hfirm => ?_
  · obtain ⟨b, hb, hcut⟩ := List.mem_flatMap.mp ha
    exact ⟨b, hb, (mem_cut hcut).1⟩
  obtain ⟨b, -, hcut⟩ := List.mem_flatMap.mp ha
  by_cases hr : Reached s lock p
  swap
  · refine ⟨p, hfirm.of_mem ?_ ?_ (hpending p)⟩
    · rw [hlist]
      exact hun.kept p hfirm.covers.1 hr
    · rw [hentry]
      exact hun.entry p (hs.lt_next p hfirm.covers.1)
  -- the entry was split, and the byte is in one of its pieces
  obtain ⟨⟨hp, hg, howner, hxp, he⟩, hcookie, -⟩ := hfirm
  obtain ⟨es, hes⟩ := Option.ne_none_iff_exists'.mp hr.2
  have hown : a.sameOwner lock := by
    obtain ⟨hname, hfh, hoh, hsvid⟩ := hr.1
    exact ⟨howner.1.trans hname, howner.2.1.trans hfh, howner.2.2.1.trans hoh,
      howner.2.2.2.trans hsvid⟩
  have hxlock : x ∉ lock.bytes := Set.disjoint_left.mp ((mem_cut hcut).2 hown) hx
  obtain ⟨f, hf, hxf⟩ := mem_piece hes hxp hxlock
  have hremains : f ∈ remains s lock p := by
    unfold remains
    rw [if_pos hr.1, hes]
    exact hf
  obtain ⟨-, start, len, heq⟩ := mem_remains hremains
  have hnot : (s.lockList.flatMap (remains s lock)).length ≠ 1 := by
    intro hone
    have hblocked := hpieces hone p hp f hremains
    rw [heq] at hblocked
    exact absurd (hg.symm.trans hblocked) (by decide)
  obtain ⟨q, hq, hfresh, hqf⟩ := hun.pieces hnot p hp f hremains
  refine ⟨q, ⟨?_, ?_⟩, ?_, fun hq' => ?_⟩
  · rw [hlist]
    exact hq
  · rw [hentry, hqf, heq]
    refine ⟨hg, howner, ?_, he⟩
    rw [← heq]
    exact hxf
  · rw [hentry, hqf, heq]
    exact hcookie
  · exact absurd (hbound q (hpending q hq')) (Nat.not_lt.mpr hfresh)

/-- The recovery makes no entry pending. -/
lemma pending_recoveryLoop {name : List UInt8} {copyOk : ℕ → Bool} {ps : List ℕ}
    (h : Pending (recoveryLoop name copyOk ps s) q) : Pending s q := by
  induction ps generalizing s with
  | nil => exact h
  | cons p ps ih =>
    unfold recoveryLoop at h
    split_ifs at h
    · have hentry : Pending (recoverEntry s (copyOk p) p) q := ih h
      unfold recoverEntry at hentry
      split_ifs at hentry
      · exact pending_append hentry
      · exact hentry
    · exact ih h

/-- A client that restarts is forgotten. -/
lemma Kept.nodeRecovery {name : List UInt8} {copyOk : ℕ → Bool} (h : Kept s told) :
    Kept (nodeRecovery s name copyOk) (told.filter fun a => a.callerName ≠ name) := by
  obtain ⟨hentry, -, -, hmem⟩ := recoveryLoop_spec s name copyOk s.lockList
  refine h.of_kept (fun a ha => ⟨a, List.mem_of_mem_filter ha, Smaller.refl a⟩) ?_
  intro p a x ha _ hfirm
  have hname : a.callerName ≠ name := by simpa using (List.mem_filter.mp ha).2
  refine ⟨p, hfirm.of_mem (hmem p hfirm.covers.1 ?_) (congrFun hentry p) pending_recoveryLoop⟩
  rw [show (s.entry p).callerName = a.callerName from hfirm.covers.2.2.1.1.symm]
  exact hname

lemma Kept.filter {P : Promise → Bool} (h : Kept s told) : Kept s (told.filter P) :=
  fun a ha => h a (List.mem_of_mem_filter ha)

/-- An answer that refuses a grant for now: the entry with its cookie has nothing that is told any more. -/
lemma Kept.resend {cookie : Netobj} (h : Kept s told) (hp : (s.entry p).cookie = cookie)
    (hlist : s'.lockList = s.lockList) (hentry : s'.entry = s.entry)
    (hqueue : s'.queue = s.queue ++ [.resendGrant p]) :
    Kept s' (told.filter fun a => a.cookie ≠ cookie) := by
  intro a ha x hx
  obtain ⟨ha, hcookie⟩ := List.mem_filter.mp ha
  obtain ⟨q, hq⟩ := h a ha x hx
  have hne : q ≠ p := by
    rintro rfl
    rw [← hq.cookie, hp] at hcookie
    simp at hcookie
  refine ⟨q, hq.of_mem ?_ (by rw [hentry]) fun hpending => ?_⟩
  · rw [hlist]
    exact hq.covers.1
  · rw [Pending, hqueue] at hpending
    simpa [Pending, hne] using hpending

/-- Messages are sent for entries that were blocked. -/
lemma pending_grantLoop {fh : Netobj} {copyOk : ℕ → Bool} {ps : List ℕ}
    (h : Pending (grantLoop fh copyOk ps s) q) :
    Pending s q ∨ (s.entry q).state = .blocked ∧ q ∈ ps := by
  induction ps generalizing s with
  | nil => exact Or.inl h
  | cons p ps ih =>
    unfold grantLoop at h
    split_ifs at h with hturn
    · unfold grantEntry at h
      split_ifs at h
      · exact (ih h).imp_right fun hq => ⟨hq.1, List.mem_cons_of_mem _ hq.2⟩
      · rcases ih h with hq | ⟨hstate, hq⟩
        · by_cases heq : q = p
          · rw [heq]
            exact Or.inr ⟨hturn.2, List.mem_cons_self⟩
          · refine Or.inl ?_
            simpa [Pending, markGranted, heq] using hq
        · by_cases heq : q = p
          · rw [heq]
            exact Or.inr ⟨hturn.2, List.mem_cons_self⟩
          · rw [markGranted_entry_of_ne heq] at hstate
            exact Or.inr ⟨hstate, List.mem_cons_of_mem _ hq⟩
      · exact (ih h).imp_right fun hq => ⟨hq.1, List.mem_cons_of_mem _ hq.2⟩
    · exact (ih h).imp_right fun hq => ⟨hq.1, List.mem_cons_of_mem _ hq.2⟩

/-- The blocked locks of a file are tried. -/
lemma Kept.grantBlocked {fh : Netobj} {copyOk : ℕ → Bool} (h : Kept s told) (hnodup : s.lockList.Nodup) :
    Kept (doGrantBlockedLocks { s with queue := s.queue.erase (.grantBlocked fh) } fh copyOk) told := by
  have hgrants := (grants_doGrantBlockedLocks (s := { s with
    queue := s.queue.erase (.grantBlocked fh) }) fh copyOk hnodup).1
  intro a ha x hx
  obtain ⟨p, hp⟩ := h a ha x hx
  obtain ⟨hmem, heq⟩ := hgrants.granted p hp.covers.1 hp.covers.2.1
  refine ⟨p, hp.of_mem hmem heq fun hpending => ?_⟩
  rcases pending_grantLoop hpending with hq | ⟨hblocked, -⟩
  · exact hq.imp List.mem_of_mem_erase List.mem_of_mem_erase
  · exact absurd (hp.covers.2.1.symm.trans hblocked) (by decide)

/-! ## Messages to be sent -/

lemma unlocked_incRef (h : Listed s s.lockList) : Unlocked lock s (deleteLockEntry (incRef s p) lock) := by
  have hlisted : Listed (incRef s p) (incRef s p).lockList := ⟨h.nodup, h.lt_next⟩
  exact (unlocked_deleteLockEntry hlisted).of_incRef

/-- Entries are numbered upwards. -/
lemma next_le_serve {ev : Event} (h : Listed s s.lockList) (hs : serve s ev = some s') :
    s.next ≤ s'.next := by
  cases ev with
  | lock arg allocOk =>
    rw [← Option.some.inj hs]
    unfold nlm4Lock addToLocklist
    cases blockedRequest s arg with
    | some p => exact le_rfl
    | none =>
      -- the new entry takes the next number
      by_cases hok : allocOk
      · simp only [hok, not_true_eq_false, if_false]
        exact Nat.le_succ _
      · simp [hok]
  | unlock lock copyOk =>
    rw [← Option.some.inj hs]
    unfold nlm4Unlock
    split
    · exact le_rfl
    · rename_i p hfind
      have hun := @unlocked_incRef s p lock h
      split_ifs <;> exact hun.next
  | cancel lock exclusive =>
    simp only [serve, nlm4Cancel] at hs
    split at hs
    · rw [← Option.some.inj hs]
    · obtain ⟨s₁, hs₁, rfl⟩ := Option.map_eq_some_iff.mp hs
      obtain ⟨-, rfl⟩ := removeFromLocklist_eq_some hs₁
      exact le_rfl
  | smNotify name copyOk =>
    rw [← Option.some.inj hs]
    exact (recoveryLoop_spec s name copyOk s.lockList).2.1.ge
  | grantedRes cookie gracePeriod =>
    rw [← Option.some.inj hs]
    unfold nlm4GrantedRes
    split
    · exact le_rfl
    · split_ifs <;> exact le_rfl
  | grantBlocked fh copyOk =>
    obtain ⟨s₁, hs₁, rfl⟩ := Option.map_eq_some_iff.mp hs
    obtain ⟨-, rfl⟩ := dequeue_eq_some hs₁
    exact (grants_doGrantBlockedLocks (s := { s with
      queue := s.queue.erase (.grantBlocked fh) }) fh copyOk h.nodup).1.next.ge
  | sendGrant p rpcOk copyOk | resendGrant p rpcOk copyOk =>
    obtain ⟨s₁, hs₁, hs⟩ := Option.bind_eq_some_iff.mp hs
    obtain ⟨-, rfl⟩ := dequeue_eq_some hs₁
    obtain ⟨s₂, hs₂, rfl⟩ := Option.map_eq_some_iff.mp hs
    obtain ⟨-, rfl⟩ := removeFromLocklist_eq_some hs₂
    exact le_rfl

/-- A message is to be sent for entries of the list only, when it is asked for. -/
lemma pending_serve {ev : Event} (h : Listed s s.lockList) (hs : serve s ev = some s')
    (hq : Pending s' q) : Pending s q ∨ q ∈ s.lockList := by
  cases ev with
  | lock arg allocOk =>
    rw [← Option.some.inj hs] at hq
    unfold nlm4Lock addToLocklist at hq
    cases hblocked : blockedRequest s arg with
    | some p =>
      rw [hblocked] at hq
      exact Or.inl hq
    | none =>
      rw [hblocked] at hq
      by_cases hok : allocOk
      · simp only [hok, not_true_eq_false, if_false] at hq
        exact Or.inl hq
      · rw [if_pos hok] at hq
        exact Or.inl hq
  | unlock lock copyOk =>
    rw [← Option.some.inj hs] at hq
    unfold nlm4Unlock at hq
    split at hq
    · exact Or.inl hq
    · rename_i p hfind
      have hun := @unlocked_incRef s p lock h
      have hold : Pending (deleteLockEntry (incRef s p) lock) q → Pending s q := fun hp => by
        rw [Pending, hun.queue] at hp
        exact hp
      split_ifs at hq
      · exact Or.inl (hold (pending_append hq))
      · exact Or.inl (hold hq)
  | cancel lock exclusive =>
    simp only [serve, nlm4Cancel] at hs
    split at hs
    · rw [← Option.some.inj hs] at hq
      exact Or.inl hq
    · obtain ⟨s₁, hs₁, rfl⟩ := Option.map_eq_some_iff.mp hs
      obtain ⟨-, rfl⟩ := removeFromLocklist_eq_some hs₁
      exact Or.inl hq
  | smNotify name copyOk =>
    rw [← Option.some.inj hs] at hq
    exact Or.inl (pending_recoveryLoop hq)
  | grantedRes cookie gracePeriod =>
    rw [← Option.some.inj hs] at hq
    unfold nlm4GrantedRes at hq
    split at hq
    · exact Or.inl hq
    · rename_i p hfind
      split_ifs at hq
      · by_cases heq : q = p
        · rw [heq]
          exact Or.inr (List.mem_of_find?_eq_some hfind)
        · refine Or.inl ?_
          simpa [Pending, heq] using hq
      · exact Or.inl hq
  | grantBlocked fh copyOk =>
    obtain ⟨s₁, hs₁, rfl⟩ := Option.map_eq_some_iff.mp hs
    obtain ⟨-, rfl⟩ := dequeue_eq_some hs₁
    rcases pending_grantLoop hq with hq | ⟨-, hq⟩
    · exact Or.inl (hq.imp List.mem_of_mem_erase List.mem_of_mem_erase)
    · exact Or.inr hq
  | sendGrant p rpcOk copyOk | resendGrant p rpcOk copyOk =>
    obtain ⟨s₁, hs₁, hs⟩ := Option.bind_eq_some_iff.mp hs
    obtain ⟨-, rfl⟩ := dequeue_eq_some hs₁
    obtain ⟨s₂, hs₂, rfl⟩ := Option.map_eq_some_iff.mp hs
    obtain ⟨-, rfl⟩ := removeFromLocklist_eq_some hs₂
    exact Or.inl ((pending_append hq).imp List.mem_of_mem_erase List.mem_of_mem_erase)

/-- The invariant of the runs. -/
structure World.Inv (w : World) : Prop where
  orderly : Orderly w.server w.server.lockList
  kept : Kept w.server w.told
  bounded : ∀ p, Pending w.server p → p < w.server.next

/-- A faithful step keeps the promises. -/
lemma World.Inv.kept_serve {ev : Event} (h : w.Inv) (hfaithful : Faithful w (.event ev))
    (hs : serve w.server ev = some s') : Kept s' (w.toldAfter ev) := by
  obtain ⟨hord, hkept, hbound⟩ := h
  cases ev with
  | lock arg allocOk =>
    rw [← Option.some.inj hs]
    exact hkept.nlm4Lock hord hbound
  | unlock lock copyOk =>
    rw [← Option.some.inj hs]
    simp only [World.toldAfter, nlm4Unlock]
    split
    · exact hkept.cut
    · rename_i p hfind
      -- a reference more does not change the ranges
      have hun := @unlocked_incRef w.server p lock ⟨hord.nodup, hord.lt_next⟩
      have hold : ∀ q, Pending (deleteLockEntry (incRef w.server p) lock) q → Pending w.server q :=
        fun q hq => by
          rw [Pending, hun.queue] at hq
          exact hq
      split_ifs
      · exact hkept.unlocked hord hbound hun rfl rfl (fun q hq => hold q (pending_append hq)) hfaithful
      · exact hkept.unlocked hord hbound hun rfl rfl hold hfaithful
  | cancel lock exclusive =>
    simp only [serve, nlm4Cancel] at hs
    simp only [World.toldAfter]
    split at hs
    · rename_i hfind
      rw [← Option.some.inj hs, hfind]
      exact hkept
    · rename_i p hfind
      obtain ⟨s₁, hs₁, rfl⟩ := Option.map_eq_some_iff.mp hs
      obtain ⟨-, rfl⟩ := removeFromLocklist_eq_some hs₁
      have hp := List.find?_some hfind
      simp only [decide_eq_true_eq] at hp
      rw [hfind, if_pos (by simp)]
      have hgone : Kept (decRef (unlink (incRef w.server p) p) p) w.told := by
        refine hkept.without rfl rfl (fun _ hq => hq) fun a x hfirm => ?_
        exact absurd (hfirm.covers.2.1.symm.trans hp.2.2.2.2) (by decide)
      exact hgone.cut
  | smNotify name copyOk =>
    rw [← Option.some.inj hs]
    exact hkept.nodeRecovery
  | grantedRes cookie gracePeriod =>
    rw [← Option.some.inj hs]
    simp only [World.toldAfter]
    unfold nlm4GrantedRes
    split
    · split_ifs
      · exact hkept.filter
      · exact hkept
    · rename_i p hfind
      have hcookie := List.find?_some hfind
      simp only [decide_eq_true_eq] at hcookie
      split_ifs
      · exact hkept.resend hcookie rfl rfl rfl
      · exact hkept
  | grantBlocked fh copyOk =>
    obtain ⟨s₁, hs₁, rfl⟩ := Option.map_eq_some_iff.mp hs
    obtain ⟨-, rfl⟩ := dequeue_eq_some hs₁
    exact hkept.grantBlocked hord.nodup
  | sendGrant p rpcOk copyOk =>
    obtain rfl : rpcOk = false := hfaithful
    obtain ⟨s₁, hs₁, hs⟩ := Option.bind_eq_some_iff.mp hs
    rw [World.toldAfter, if_neg Bool.false_ne_true, List.append_nil]
    exact hkept.sendGrant (Or.inl rfl) hs₁ hs
  | resendGrant p rpcOk copyOk =>
    obtain rfl : rpcOk = false := hfaithful
    obtain ⟨s₁, hs₁, hs⟩ := Option.bind_eq_some_iff.mp hs
    rw [World.toldAfter, if_neg Bool.false_ne_true, List.append_nil]
    exact hkept.sendGrant (Or.inr rfl) hs₁ hs

/-- A faithful move keeps the invariant. -/
lemma World.Inv.advance {m : Move} (h : w.Inv) (hsized : m.Sized) (hfaithful : Faithful w m)
    (hs : advance w m = some w') : w'.Inv := by
  cases m with
  | event ev =>
    obtain ⟨s', hs', rfl⟩ := Option.map_eq_some_iff.mp hs
    have hlisted : Listed w.server w.server.lockList := ⟨h.orderly.nodup, h.orderly.lt_next⟩
    refine ⟨h.orderly.serve hsized hs', h.kept_serve hfaithful hs', fun q hq => ?_⟩
    refine lt_of_lt_of_le ?_ (next_le_serve hlisted hs')
    rcases pending_serve hlisted hs' hq with hq | hq
    · exact h.bounded q hq
    · exact h.orderly.lt_next q hq
  | refuse cookie =>
    rw [← Option.some.inj hs]
    have hsame : nlm4GrantedRes w.server cookie false = w.server := by
      unfold nlm4GrantedRes
      split <;> rfl
    rw [hsame]
    exact ⟨h.orderly, h.kept.filter, h.bounded⟩

lemma World.inv_initial : World.initial.Inv :=
  ⟨orderly_initial, by simp [Kept, World.initial], by simp [Pending, World.initial, Nlm.initial]⟩

/-- A GRANTED_MSG that is sent: the entry leaves the list. -/
lemma advance_sendGrant {rpcOk copyOk : Bool} {ev : Event}
    (hev : ev = .sendGrant p rpcOk copyOk ∨ ev = .resendGrant p rpcOk copyOk)
    (hs : advance w (.event ev) = some w') :
    w'.server.lockList = w.server.lockList.erase p ∧ w'.server.entry = w.server.entry ∧
      w'.told = w.told ++ if rpcOk then [(w.server.entry p).promise] else [] := by
  obtain ⟨s', hs', rfl⟩ := Option.map_eq_some_iff.mp hs
  rcases hev with rfl | rfl
  all_goals
    obtain ⟨s₁, hs₁, hs'⟩ := Option.bind_eq_some_iff.mp hs'
    obtain ⟨-, rfl⟩ := dequeue_eq_some hs₁
    obtain ⟨s₂, hs₂, rfl⟩ := Option.map_eq_some_iff.mp hs'
    obtain ⟨-, rfl⟩ := removeFromLocklist_eq_some hs₂
    exact ⟨rfl, rfl, rfl⟩

/-- In every run without a GRANTED_MSG that reaches its client, and without an unlock that puts back
exactly one piece, no two owners have conflicting locks, and every byte that a client has is in a granted
entry of this client. When a GRANTED_MSG reaches its client, this ends at once, unless other granted
entries of the client have all the bytes too. -/
theorem exclusive_of_faithful {w : World}
    (h : ReachableBy advance (fun w m => m.Sized ∧ Faithful w m) World.initial w) :
    (Exclusive w ∧ Covered w.server w.told) ∧
      ∀ ev p copyOk w', ev = .sendGrant p true copyOk ∨ ev = .resendGrant p true copyOk →
        advance w (.event ev) = some w' →
        (∃ x ∈ (w.server.entry p).bytes, ∀ q ≠ p, ¬ Covers w.server q (w.server.entry p).promise x) →
        ¬ Covered w'.server w'.told := by
  have hinv : w.Inv := h.invariant World.inv_initial
    fun _ _ _ h hcond hs => h.advance hcond.1 hcond.2 hs
  refine ⟨⟨exclusive_of_covered hinv.orderly hinv.kept.covered, hinv.kept.covered⟩, ?_⟩
  rintro ev p copyOk w' hev hs ⟨x, hx, hnone⟩ hcov
  obtain ⟨hlist, hentry, htold⟩ := advance_sendGrant hev hs
  have hmem : (w.server.entry p).promise ∈ w'.told := by
    rw [htold]
    exact List.mem_append_right _ (List.mem_singleton_self _)
  obtain ⟨q, hq⟩ := hcov _ hmem x hx
  rw [Covers, hlist, hinv.orderly.nodup.mem_erase_iff, hentry] at hq
  exact hnone q hq.1.1 ⟨hq.1.2, hq.2⟩

/-- A lock is split and its middle is granted to another client; a grant whose message is not sent is
taken back. -/
def sampleRun : List Move :=
  [.event (.lock (sampleArgs 1 0 9 true) true), .event (.unlock (sampleArgs 1 3 3 true).alock true),
   .event (.lock (sampleArgs 2 3 3 true) true), .event (.lock (sampleArgs 3 4 1 true) true),
   .event (.unlock (sampleArgs 2 3 3 true).alock true), .event (.grantBlocked [7] fun _ => true),
   .event (.grantBlocked [7] fun _ => true), .event (.sendGrant 4 false true)]

theorem exclusive_after_sampleRun :
    (execute advance World.initial sampleRun).any (fun w => w.server.lockList = [1, 2]) = true ∧
    ∀ w, execute advance World.initial sampleRun = some w → Exclusive w ∧ Covered w.server w.told := by
  refine ⟨by decide +kernel, fun w hw => ?_⟩
  exact (exclusive_of_faithful (reachableBy_of_execute hw (by decide +kernel))).1

/-- After a GRANTED_MSG was sent the entry is gone, and a third client is granted the same range. -/
theorem not_exclusive_after_grant :
    ¬ ∀ w, ReachableBy advance (fun _ m => m.Sized) World.initial w →
      Exclusive w ∧ Covered w.server w.told := by
  have hrun : ∃ w, execute advance World.initial [.event (.lock (sampleArgs 1 0 10 true) true),
      .event (.lock (sampleArgs 2 0 10 true) true),
      .event (.unlock (sampleArgs 1 0 10 true).alock true),
      .event (.grantBlocked [7] fun _ => true), .event (.sendGrant 1 true true),
      .event (.lock (sampleArgs 3 0 10 true) true)] = some w ∧
      ∃ a ∈ w.told, ∃ b ∈ w.told, (a.callerName, a.oh, a.svid) ≠ (b.callerName, b.oh, b.svid) ∧
        a.fh = b.fh ∧ a.exclusive ∧ 0 ∈ a.bytes ∧ 0 ∈ b.bytes := ⟨_, rfl, by decide +kernel⟩
  obtain ⟨w, hw, a, ha, b, hb, howner, hfh, hexcl, hxa, hxb⟩ := hrun
  intro h
  have hdisjoint := (h w (reachableBy_of_execute hw (by decide +kernel))).1 a ha b hb howner hfh
    (Or.inl hexcl)
  exact Set.disjoint_left.mp hdisjoint hxa hxb

end Ganesha.Nlm
