import Ganesha.Nlm.LockList

/-!
# Requests and asynchronous tasks

The requests of NLM as they change the server, each in one step, and the tasks that they leave to the
asynchronous thread. The tests of the file handle and of the grace period come before.
-/

namespace Ganesha.Nlm
open Library.Transition

variable {s s' : Server} {l l' : List ℕ} {p q : ℕ} {lock : Lock}

/-! ## Lists of entries -/

/-- The entries of a list are allocated. -/
structure Listed (s : Server) (l : List ℕ) : Prop where
  nodup : l.Nodup
  lt_next : ∀ p ∈ l, p < s.next

lemma Listed.sublist (h : Listed s l) (hsub : l'.Sublist l) : Listed s l' :=
  ⟨h.nodup.sublist hsub, fun p hp => h.lt_next p (hsub.subset hp)⟩

lemma Listed.mono (h : Listed s l) (hnext : s.next ≤ s'.next) : Listed s' l :=
  ⟨h.nodup, fun p hp => (h.lt_next p hp).trans_le hnext⟩

/-- A new entry is listed. -/
lemma Listed.append_next (e : Entry) (refs : ℤ) (h : Listed s l) :
    Listed (create s e refs) (l ++ [s.next]) := by
  refine ⟨h.nodup.append (List.nodup_singleton _) ?_, fun p hp => ?_⟩
  · intro p hp hp'
    rw [List.mem_singleton.mp hp'] at hp
    exact absurd (h.lt_next _ hp) (Nat.lt_irrefl _)
  · rcases List.mem_append.mp hp with hp | hp
    · exact Nat.lt_succ_of_lt (h.lt_next p hp)
    · rw [List.mem_singleton.mp hp]
      exact Nat.lt_succ_self _

/-- New entries are listed in order. -/
lemma createAll_spec (es : List Entry) (h : Listed s l) :
    Listed (createAll s es).1 (l ++ (createAll s es).2) ∧
      (createAll s es).2.map (createAll s es).1.entry = es := by
  induction es generalizing s l with
  | nil => exact ⟨by simpa [createAll] using h, rfl⟩
  | cons e es ih =>
    obtain ⟨hlisted, hmap⟩ := ih (h.append_next e 1)
    refine ⟨by simpa [createAll] using hlisted, ?_⟩
    have hfirst : (createAll (create s e 1) es).1.entry s.next = e := by
      rw [createAll_entry_of_lt (Nat.lt_succ_self _), create_entry_next]
    simp [createAll, hfirst, hmap]

/-- The entries that are allocated are new. -/
lemma le_of_mem_createAll {es : List Entry} (hq : q ∈ (createAll s es).2) : s.next ≤ q := by
  induction es generalizing s with
  | nil => exact absurd hq List.not_mem_nil
  | cons e es ih =>
    rcases List.mem_cons.mp hq with rfl | hq
    · exact le_rfl
    · exact le_trans (Nat.le_succ _) (ih hq)

/-- The entry is one of the owner, and the range that is unlocked reaches it. -/
def Reached (s : Server) (lock : Lock) (p : ℕ) : Prop :=
  (s.entry p).sameOwner lock ∧ pieces (s.entry p) lock ≠ none

/-- What is put back of an entry when a range is unlocked. -/
def remains (s : Server) (lock : Lock) (p : ℕ) : List Entry :=
  if (s.entry p).sameOwner lock then (pieces (s.entry p) lock).getD [] else []

/-- What the loop of `nlm_delete_lock_entry` does with the entries of `ps`. -/
structure Deletes (lock : Lock) (ps : List ℕ) (s s' : Server) (split split' : List ℕ) : Prop where
  listed : Listed s' (s'.lockList ++ split')
  entry : ∀ q < s.next, s'.entry q = s.entry q
  next : s.next ≤ s'.next
  queue : s'.queue = s.queue
  sublist : s'.lockList.Sublist s.lockList
  mem_iff : ∀ q, q ∈ s'.lockList ↔ q ∈ s.lockList ∧ ¬ (q ∈ ps ∧ Reached s lock q)
  new : ∃ new, split' = split ++ new ∧ (∀ q ∈ new, s.next ≤ q) ∧
    new.map s'.entry = ps.flatMap (remains s lock)

variable {split : List ℕ}

/-- An entry is deleted and its pieces are kept for later. -/
lemma deletes_doDelete (h : Listed s (s.lockList ++ split)) (hp : p ∈ s.lockList)
    (howner : (s.entry p).sameOwner lock) :
    Deletes lock [p] s (doDeleteLockEntry lock s split p).1 split
      (doDeleteLockEntry lock s split p).2 := by
  unfold doDeleteLockEntry
  cases hpieces : pieces (s.entry p) lock with
  | none =>
    refine ⟨h, fun _ _ => rfl, le_rfl, rfl, List.Sublist.refl _, fun q => ?_, [], by simp, by simp, ?_⟩
    · refine ⟨fun hq => ⟨hq, fun hr => ?_⟩, And.left⟩
      rw [List.mem_singleton.mp hr.1] at hr
      exact hr.2.2 hpieces
    · simp [remains, hpieces]
  | some es =>
    have hsplit : Listed s (s.lockList.erase p ++ split) :=
      h.sublist (List.erase_sublist.append (List.Sublist.refl _))
    obtain ⟨hlisted, hmap⟩ := createAll_spec es hsplit
    have hnodup : s.lockList.Nodup := (List.nodup_append.mp h.nodup).1
    refine ⟨?_, fun q hq => createAll_entry_of_lt hq, next_le_createAll, createAll_queue, ?_, fun q => ?_,
      _, rfl, fun q hq => le_of_mem_createAll hq, ?_⟩
    · simp only [unlink_lockList, createAll_lockList]
      rw [← List.append_assoc]
      exact ⟨hlisted.nodup, hlisted.lt_next⟩
    · simp only [unlink_lockList, createAll_lockList]
      exact List.erase_sublist
    · simp only [unlink_lockList, createAll_lockList]
      rw [hnodup.mem_erase_iff]
      have hreached : Reached s lock p := ⟨howner, by simp [hpieces]⟩
      constructor
      · rintro ⟨hne, hq⟩
        exact ⟨hq, fun hr => hne (List.mem_singleton.mp hr.1)⟩
      · rintro ⟨hq, hr⟩
        refine ⟨?_, hq⟩
        rintro rfl
        exact hr ⟨List.mem_singleton_self _, hreached⟩
    · simpa [remains, howner, hpieces] using hmap

lemma remains_congr (h : s'.entry p = s.entry p) : remains s' lock p = remains s lock p := by
  unfold remains
  rw [h]

lemma reached_congr (h : s'.entry p = s.entry p) : Reached s' lock p ↔ Reached s lock p := by
  unfold Reached
  rw [h]

variable {ps : List ℕ}

/-- The deletions of two lists of entries. -/
lemma Deletes.trans {qs split' split'' : List ℕ} {s'' : Server} (h : Deletes lock ps s s' split split')
    (h' : Deletes lock qs s' s'' split' split'') (hqs : ∀ q ∈ qs, q < s.next) :
    Deletes lock (ps ++ qs) s s'' split split'' where
  listed := h'.listed
  entry q hq := (h'.entry q (hq.trans_le h.next)).trans (h.entry q hq)
  next := h.next.trans h'.next
  queue := h'.queue.trans h.queue
  sublist := h'.sublist.trans h.sublist
  mem_iff q := by
    rw [h'.mem_iff, h.mem_iff, List.mem_append]
    have hreached : q ∈ qs → (Reached s' lock q ↔ Reached s lock q) := fun hq =>
      reached_congr (h.entry q (hqs q hq))
    tauto
  new := by
    obtain ⟨new, hsplit, hfresh, hmap⟩ := h.new
    obtain ⟨new', hsplit', hfresh', hmap'⟩ := h'.new
    refine ⟨new ++ new', by rw [hsplit', hsplit, List.append_assoc], fun q hq => ?_, ?_⟩
    · rcases List.mem_append.mp hq with hq | hq
      · exact hfresh q hq
      · exact h.next.trans (hfresh' q hq)
    have hnew : new.map s''.entry = new.map s'.entry := by
      refine List.map_congr_left fun q hq => h'.entry q (h.listed.lt_next q ?_)
      rw [hsplit]
      exact List.mem_append_right _ (List.mem_append_right _ hq)
    have hremains : qs.flatMap (remains s' lock) = qs.flatMap (remains s lock) :=
      List.flatMap_congr fun q hq => remains_congr (h.entry q (hqs q hq))
    rw [List.map_append, hnew, hmap, hmap', hremains, List.flatMap_append]

/-- The entry of another owner stays. -/
lemma deletes_other (h : Listed s (s.lockList ++ split)) (howner : ¬ (s.entry p).sameOwner lock) :
    Deletes lock [p] s s split split where
  listed := h
  entry _ _ := rfl
  next := le_rfl
  queue := rfl
  sublist := List.Sublist.refl _
  mem_iff q := by
    refine ⟨fun hq => ⟨hq, fun hr => ?_⟩, And.left⟩
    rw [List.mem_singleton.mp hr.1] at hr
    exact howner hr.2.1
  new := ⟨[], by simp, by simp, by simp [remains, howner]⟩

/-- The loop deletes the entries one after the other. -/
lemma deletes_deleteLoop (h : Listed s (s.lockList ++ split)) (hps : ∀ p ∈ ps, p ∈ s.lockList)
    (hnodup : ps.Nodup) :
    Deletes lock ps s (deleteLoop lock ps s split).1 split (deleteLoop lock ps s split).2 := by
  induction ps generalizing s split with
  | nil => exact ⟨h, fun _ _ => rfl, le_rfl, rfl, List.Sublist.refl _, by simp [deleteLoop], [], by
      simp [deleteLoop], by simp⟩
  | cons p ps ih =>
    obtain ⟨hp, hnodup⟩ := List.nodup_cons.mp hnodup
    have hlt : ∀ q ∈ ps, q < s.next := fun q hq =>
      h.lt_next q (List.mem_append_left _ (hps q (List.mem_cons_of_mem _ hq)))
    unfold deleteLoop
    split_ifs with howner
    · have hfirst := deletes_doDelete h (hps p List.mem_cons_self) howner
      refine hfirst.trans (ih hfirst.listed (fun q hq => ?_) hnodup) hlt
      exact mem_doDelete (hps q (List.mem_cons_of_mem _ hq)) fun heq => hp (heq ▸ hq)
    · refine (deletes_other h howner).trans (ih h (fun q hq => ?_) hnodup) hlt
      exact hps q (List.mem_cons_of_mem _ hq)

/-- What an unlock leaves: the entries that it does not reach, and, if there is not exactly one, the
pieces of the others. -/
structure Unlocked (lock : Lock) (s s' : Server) : Prop where
  listed : Listed s' s'.lockList
  entry : ∀ q < s.next, s'.entry q = s.entry q
  next : s.next ≤ s'.next
  queue : s'.queue = s.queue
  kept : ∀ q ∈ s.lockList, ¬ Reached s lock q → q ∈ s'.lockList
  old_or_piece : ∀ q ∈ s'.lockList, q ∈ s.lockList ∧ ¬ Reached s lock q ∨
    ∃ r ∈ s.lockList, s'.entry q ∈ remains s lock r
  pieces : (s.lockList.flatMap (remains s lock)).length ≠ 1 →
    ∀ r ∈ s.lockList, ∀ f ∈ remains s lock r, ∃ q ∈ s'.lockList, s.next ≤ q ∧ s'.entry q = f

/-- What an UNLOCK leaves of the list. -/
lemma unlocked_deleteLockEntry (h : Listed s s.lockList) : Unlocked lock s (deleteLockEntry s lock) := by
  have hstart : Listed s (s.lockList ++ []) := by simpa using h
  have hloop : Deletes lock s.lockList s _ [] _ :=
    deletes_deleteLoop hstart (fun _ hp => hp) h.nodup
  obtain ⟨new, hsplit, hfresh, hmap⟩ := hloop.new
  rw [List.nil_append] at hsplit
  have hlength : (s.lockList.flatMap (remains s lock)).length = new.length := by
    rw [← hmap, List.length_map]
  have hlist : (deleteLockEntry s lock).lockList =
      glistAddListTail (deleteLoop lock s.lockList s []).1.lockList new := by
    rw [← hsplit]
    rfl
  have hold : ∀ q ∈ (deleteLoop lock s.lockList s []).1.lockList,
      q ∈ s.lockList ∧ ¬ Reached s lock q := by
    intro q hq
    -- an entry that is left was not reached
    obtain ⟨hq, hr⟩ := (hloop.mem_iff q).mp hq
    exact ⟨hq, fun h => hr ⟨hq, h⟩⟩
  refine ⟨?_, hloop.entry, hloop.next, hloop.queue, fun q hq hr => ?_, fun q hq => ?_,
    fun hone r hr f hf => ?_⟩
  · rw [hlist]
    refine (hloop.listed.sublist ?_).mono le_rfl
    rw [hsplit]
    exact glistAddListTail_sublist
  · rw [hlist]
    have hq' := (hloop.mem_iff q).mpr ⟨hq, fun h => hr h.2⟩
    unfold glistAddListTail
    split_ifs
    · exact hq'
    · exact List.mem_append_left _ hq'
  · rw [hlist] at hq
    rcases List.mem_append.mp (glistAddListTail_sublist.subset hq) with hq | hq
    · exact Or.inl (hold q hq)
    · have hmem : (deleteLoop lock s.lockList s []).1.entry q ∈ s.lockList.flatMap (remains s lock) := by
        rw [← hmap]
        exact List.mem_map_of_mem hq
      exact Or.inr (List.mem_flatMap.mp hmem)
  · have hmem : f ∈ new.map (deleteLoop lock s.lockList s []).1.entry := by
      rw [hmap]
      exact List.mem_flatMap.mpr ⟨r, hr, hf⟩
    obtain ⟨q, hq, hqf⟩ := List.mem_map.mp hmem
    refine ⟨q, ?_, hfresh q hq, hqf⟩
    have hpos : new.length ≠ 0 := fun h0 => by simp [List.length_eq_zero_iff.mp h0] at hq
    rw [hlist, glistAddListTail, if_neg (by omega)]
    exact List.mem_append_right _ hq

/-! ## Requests -/

/-- What can happen: a request, or a task of the asynchronous thread. Whether memory can be allocated
and whether the message to the client is sent is told with it. -/
inductive Event
  | lock (arg : LockArgs) (allocOk : Bool)
  | unlock (lock : Lock) (copyOk : Bool)
  | cancel (lock : Lock) (exclusive : Bool)
  | smNotify (name : List UInt8) (copyOk : ℕ → Bool)
  | grantedRes (cookie : Netobj) (gracePeriod : Bool)
  | grantBlocked (fh : Netobj) (copyOk : ℕ → Bool)
  | sendGrant (p : ℕ) (rpcOk copyOk : Bool)
  | resendGrant (p : ℕ) (rpcOk copyOk : Bool)

def nlm4Lock (s : Server) (arg : LockArgs) (allocOk : Bool) : Server :=
  match addToLocklist s arg allocOk with
  | (s', none) => s'
  | (s', some p) => decRef s' p

/-- `nlm4_Unlock`. The blocked locks are looked at if the first entry of the owner is granted. -/
def nlm4Unlock (s : Server) (lock : Lock) (copyOk : Bool) : Server :=
  match findLockEntry s lock false .granted with
  | none => s
  | some p =>
    let s' := deleteLockEntry (incRef s p) lock
    decRef (if (s.entry p).state = .granted then grantBlockedLocks s' lock.fh copyOk else s') p

def nlm4Cancel (s : Server) (lock : Lock) (exclusive : Bool) : Option Server :=
  match findLockEntry s lock exclusive .blocked with
  | none => some s
  | some p => (removeFromLocklist (incRef s p) p).map fun s' => decRef s' p

def nlm4GrantedRes (s : Server) (cookie : Netobj) (gracePeriod : Bool) : Server :=
  match findLockEntryByCookie s cookie with
  | none => s
  | some p => if gracePeriod then { incRef s p with queue := s.queue ++ [.resendGrant p] } else s

/-- `nlm4_send_grant_msg`. The entry leaves the list, whether the message was sent or not. -/
def nlm4SendGrantMsg (s : Server) (p : ℕ) (copyOk : Bool) : Option Server :=
  (removeFromLocklist s p).map fun s' => decRef (grantBlockedLocks s' (s.entry p).fh copyOk) p

/-- A task leaves the queue. -/
def dequeue (s : Server) (t : Task) : Option Server :=
  if t ∈ s.queue then some { s with queue := s.queue.erase t } else none

/-- One step of the server. -/
def serve (s : Server) : Event → Option Server
  | .lock arg allocOk => some (nlm4Lock s arg allocOk)
  | .unlock lock copyOk => some (nlm4Unlock s lock copyOk)
  | .cancel lock exclusive => nlm4Cancel s lock exclusive
  | .smNotify name copyOk => some (nodeRecovery s name copyOk)
  | .grantedRes cookie gracePeriod => some (nlm4GrantedRes s cookie gracePeriod)
  | .grantBlocked fh copyOk =>
    (dequeue s (.grantBlocked fh)).map fun s' => doGrantBlockedLocks s' fh copyOk
  | .sendGrant p _ copyOk =>
    (dequeue s (.sendGrant p)).bind fun s' => nlm4SendGrantMsg s' p copyOk
  | .resendGrant p _ copyOk =>
    (dequeue s (.resendGrant p)).bind fun s' => nlm4SendGrantMsg s' p copyOk

/-! ## Waiting -/

/-- When no task is left, every blocked lock conflicts with a granted one. -/
def NoneForgotten (s : Server) : Prop :=
  s.queue = [] → ∀ p ∈ s.lockList, (s.entry p).state = .blocked → Waiting s (s.entry p)

/-- An unlock that leaves the granted locks alone, and after which what is put back of the blocked
ones still waits. -/
def Harmless (s : Server) (lock : Lock) : Prop :=
  ∀ p ∈ s.lockList, Reached s lock p →
    (s.entry p).state = .blocked ∧ ∀ f ∈ remains s lock p, Waiting s f

instance (e : Entry) : Decidable (Waiting s e) := inferInstanceAs (Decidable (∃ q ∈ s.lockList, _))

instance : Decidable (Reached s lock p) := inferInstanceAs (Decidable (_ ∧ _))

instance : Decidable (Harmless s lock) := inferInstanceAs (Decidable (∀ p ∈ s.lockList, _ → _))

instance : Decidable (NoneForgotten s) := inferInstanceAs (Decidable (_ → ∀ p ∈ s.lockList, _ → _))

/-- The step leaves nobody behind: a request that cannot be granted is refused because of a granted
lock; an unlock finds a granted lock first, or is harmless; and the handle of a file whose blocked
locks are to be looked at can be copied. -/
def Prompt (s : Server) : Event → Prop
  | .lock arg _ => blockedRequest s arg = none → ¬ allowed s arg →
      (overlappingEntry s arg.alock arg.exclusive).isSome
  | .unlock lock copyOk => Harmless s lock ∨
      copyOk ∧ ∃ p ∈ findLockEntry s lock false .granted, (s.entry p).state = .granted
  | .smNotify name copyOk => ∀ p ∈ s.lockList, (s.entry p).callerName = name →
      (s.entry p).state = .granted → copyOk p
  | .sendGrant _ _ copyOk | .resendGrant _ _ copyOk => copyOk
  | .cancel _ _ | .grantedRes _ _ | .grantBlocked _ _ => True

instance (s : Server) : DecidablePred (Prompt s)
  | .lock _ _ => inferInstanceAs (Decidable (_ → _ → _))
  | .unlock _ _ => inferInstanceAs (Decidable (_ ∨ _ ∧ _))
  | .smNotify _ _ => inferInstanceAs (Decidable (∀ p ∈ s.lockList, _ → _ → _))
  | .sendGrant _ _ _ | .resendGrant _ _ _ => inferInstanceAs (Decidable (_ = true))
  | .cancel _ _ | .grantedRes _ _ | .grantBlocked _ _ => isTrue trivial

/-- Who is blocked waits for a granted lock, or a task will look at the file. -/
def Cared (s : Server) : Prop :=
  ∀ p ∈ s.lockList, (s.entry p).state = .blocked →
    Waiting s (s.entry p) ∨ .grantBlocked (s.entry p).fh ∈ s.queue

/-- The invariant of the runs. -/
structure Inv (s : Server) : Prop where
  listed : Listed s s.lockList
  cared : Cared s

variable {e : Entry}

lemma Waiting.of_granted (h : Waiting s e)
    (hkept : ∀ q ∈ s.lockList, (s.entry q).fh = e.fh → (s.entry q).state = .granted →
      q ∈ s'.lockList ∧ s'.entry q = s.entry q) :
    Waiting s' e := by
  obtain ⟨q, hq, hfh, hg, hc⟩ := h
  obtain ⟨hq', heq⟩ := hkept q hq hfh hg
  refine ⟨q, hq', ?_⟩
  rw [heq]
  exact ⟨hfh, hg, hc⟩

/-- The rule for the steps: a blocked entry of the new list was there before, and what it waited for
is still there, or a task looks at the file. -/
lemma Cared.of_step (h : Cared s)
    (hold : ∀ p ∈ s'.lockList, (s'.entry p).state = .blocked →
      (p ∈ s.lockList ∧ s'.entry p = s.entry p) ∨ Waiting s' (s'.entry p) ∨
        .grantBlocked (s'.entry p).fh ∈ s'.queue)
    (hkept : ∀ q ∈ s.lockList, (s.entry q).state = .granted →
      (q ∈ s'.lockList ∧ s'.entry q = s.entry q) ∨ .grantBlocked (s.entry q).fh ∈ s'.queue)
    (hqueue : ∀ p ∈ s'.lockList, (s'.entry p).state = .blocked →
      .grantBlocked (s'.entry p).fh ∈ s.queue →
        .grantBlocked (s'.entry p).fh ∈ s'.queue ∨ Waiting s' (s'.entry p)) : Cared s' := by
  intro p hp hblocked
  rcases hold p hp hblocked with ⟨hp', heq⟩ | hdone
  · rcases h p hp' (heq ▸ hblocked) with ⟨q, hq, hfh, hg, hc⟩ | htask
    · rcases hkept q hq hg with ⟨hq', heqq⟩ | htask
      · left
        refine ⟨q, hq', ?_⟩
        rw [heq, heqq]
        exact ⟨hfh, hg, hc⟩
      · right
        rw [heq, ← hfh]
        exact htask
    · rw [← heq] at htask
      exact (hqueue p hp hblocked htask).symm
  · exact hdone

/-- The invariant reads list and queue. -/
lemma Inv.congr (h : Inv s) (hlist : s'.lockList = s.lockList) (hentry : s'.entry = s.entry)
    (hnext : s'.next = s.next) (hqueue : ∀ fh, .grantBlocked fh ∈ s.queue → .grantBlocked fh ∈ s'.queue) :
    Inv s' := by
  refine ⟨?_, fun p hp hblocked => ?_⟩
  · rw [hlist]
    exact h.listed.mono hnext.ge
  · unfold Waiting
    rw [hlist] at hp ⊢
    rw [hentry] at hblocked ⊢
    exact (h.cared p hp hblocked).imp_right (hqueue _)

/-- An entry may be appended that waits for a granted one. -/
lemma Inv.append (refs : ℤ) (h : Inv s) (he : e.state = .blocked → Waiting s e) :
    Inv { create s e refs with lockList := s.lockList ++ [s.next] } := by
  have hold : ∀ q ∈ s.lockList, (create s e refs).entry q = s.entry q := fun q hq =>
    create_entry_of_lt (h.listed.lt_next q hq)
  have hkept : ∀ q ∈ s.lockList, q ∈ s.lockList ++ [s.next] ∧ (create s e refs).entry q = s.entry q :=
    fun q hq => ⟨List.mem_append_left _ hq, hold q hq⟩
  refine ⟨(h.listed.append_next e refs).mono le_rfl, h.cared.of_step ?_ ?_ ?_⟩
  · intro p hp hblocked
    rcases List.mem_append.mp hp with hp | hp
    · exact Or.inl ⟨hp, hold p hp⟩
    · right
      left
      have hnew : (create s e refs).entry p = e := by
        rw [List.mem_singleton.mp hp, create_entry_next]
      have hstate : e.state = .blocked := hnew ▸ hblocked
      show Waiting _ ((create s e refs).entry p)
      rw [hnew]
      exact (he hstate).of_granted fun q hq _ _ => hkept q hq
  · exact fun q hq _ => Or.inl (hkept q hq)
  · exact fun p _ _ htask => Or.inl htask

/-- LOCK forgets nobody. -/
lemma Inv.nlm4Lock {arg : LockArgs} {allocOk : Bool} (h : Inv s)
    (hprompt : Prompt s (.lock arg allocOk)) : Inv (nlm4Lock s arg allocOk) := by
  unfold Nlm.nlm4Lock addToLocklist
  cases hblocked : blockedRequest s arg with
  | some p => exact h.congr rfl rfl rfl fun _ h => h
  | none =>
    by_cases hok : allocOk
    swap
    · simpa [hok] using h
    simp only [hok, not_true_eq_false, if_false]
    refine (h.append 2 fun hstate => ?_).congr rfl rfl rfl fun _ h => h
    by_cases hallowed : allowed s arg
    · rw [if_pos hallowed] at hstate
      exact absurd hstate (by simp [LockArgs.toEntry])
    · obtain ⟨q, hq⟩ := Option.isSome_iff_exists.mp (hprompt hblocked hallowed)
      exact ⟨q, overlappingEntry_some hq⟩

/-- An entry may go if those that wait for it get a task. -/
lemma Inv.unlink (h : Inv s)
    (hp : (s.entry p).state = .granted → .grantBlocked (s.entry p).fh ∈ s'.queue)
    (hlist : s'.lockList = s.lockList.erase p) (hentry : s'.entry = s.entry) (hnext : s'.next = s.next)
    (hqueue : ∀ fh, .grantBlocked fh ∈ s.queue → .grantBlocked fh ∈ s'.queue) : Inv s' := by
  refine ⟨?_, h.cared.of_step ?_ ?_ ?_⟩
  · rw [hlist]
    exact (h.listed.sublist List.erase_sublist).mono hnext.ge
  · intro q hq _
    rw [hlist] at hq
    exact Or.inl ⟨List.mem_of_mem_erase hq, by rw [hentry]⟩
  · intro q hq hg
    by_cases heq : q = p
    · rw [heq] at hg ⊢
      exact Or.inr (hp hg)
    · rw [hlist, hentry]
      exact Or.inl ⟨(List.mem_erase_of_ne heq).mpr hq, rfl⟩
  · exact fun q _ _ htask => Or.inl (hqueue _ htask)

lemma removeFromLocklist_eq_some (hs : removeFromLocklist s p = some s') :
    p ∈ s.lockList ∧ s' = unlink s p := by
  unfold removeFromLocklist at hs
  split_ifs at hs with hp
  exact ⟨hp, (Option.some.inj hs).symm⟩

/-- CANCEL of a request that was not granted forgets nobody. -/
lemma Inv.nlm4Cancel {exclusive : Bool} (h : Inv s) (hs : nlm4Cancel s lock exclusive = some s') :
    Inv s' := by
  unfold Nlm.nlm4Cancel at hs
  cases hfind : findLockEntry s lock exclusive .blocked with
  | none =>
    rw [hfind] at hs
    rw [← Option.some.inj hs]
    exact h
  | some p =>
    rw [hfind] at hs
    obtain ⟨s₁, hs₁, rfl⟩ := Option.map_eq_some_iff.mp hs
    obtain ⟨-, rfl⟩ := removeFromLocklist_eq_some hs₁
    have hblocked : (s.entry p).state = .blocked := by
      have := List.find?_some hfind
      simp only [decide_eq_true_eq] at this
      exact this.2.2.2.2
    refine h.unlink (p := p) (fun hg => ?_) rfl rfl rfl fun _ h => h
    rw [hblocked] at hg
    exact absurd hg (by decide)

lemma Inv.nlm4SendGrantMsg (h : Inv s) (hs : nlm4SendGrantMsg s p true = some s') : Inv s' := by
  obtain ⟨s₁, hs₁, rfl⟩ := Option.map_eq_some_iff.mp hs
  obtain ⟨-, rfl⟩ := removeFromLocklist_eq_some hs₁
  refine h.unlink (p := p) (fun _ => ?_) rfl rfl rfl fun fh hfh => ?_
  · exact List.mem_append_right _ (List.mem_singleton_self _)
  · exact List.mem_append_left _ hfh

variable {copyOk : ℕ → Bool}

/-- The recovery queues a task for each file. -/
lemma Inv.nodeRecovery {name : List UInt8} (h : Inv s) (hprompt : Prompt s (.smNotify name copyOk)) :
    Inv (nodeRecovery s name copyOk) := by
  have hloop : ∀ (ps : List ℕ) (t : Server), (∀ p ∈ ps, (t.entry p).callerName = name →
      (t.entry p).state = .granted → copyOk p) → Inv t → Inv (recoveryLoop name copyOk ps t) := by
    intro ps
    induction ps with
    | nil => exact fun t _ ht => ht
    | cons p ps ih =>
      intro t hok ht
      unfold recoveryLoop
      split_ifs with hname
      · refine ih _ (fun q hq => ?_) ?_
        · rw [recoverEntry_entry]
          exact hok q (List.mem_cons_of_mem _ hq)
        · refine ht.unlink (p := p) (fun hg => ?_) recoverEntry_lockList recoverEntry_entry
            recoverEntry_next fun fh hfh => ?_
          · simp [recoverEntry, hg, grantBlockedLocks, hok p List.mem_cons_self hname hg]
          · unfold recoverEntry
            split_ifs
            · exact List.mem_append_left _ hfh
            · exact hfh
      · exact ih t (fun q hq => hok q (List.mem_cons_of_mem _ hq)) ht
  exact hloop s.lockList s hprompt h

/-- The pieces of an entry. -/
lemma mem_pieces {f : Entry} {es : List Entry} (hes : pieces e lock = some es) (hf : f ∈ es) :
    ∃ start len, f = { e with start := start, len := len } := by
  simp only [pieces] at hes
  split_ifs at hes <;> rw [← Option.some.inj hes] at hf <;> simp at hf
  · rcases hf with hf | hf
    · exact ⟨_, _, hf⟩
    · exact ⟨_, _, hf⟩
  · exact ⟨_, _, hf⟩
  · exact ⟨_, _, hf⟩

/-- What remains of an entry. -/
lemma mem_remains {f : Entry} (hf : f ∈ remains s lock p) :
    Reached s lock p ∧ ∃ start len, f = { s.entry p with start := start, len := len } := by
  unfold remains at hf
  split_ifs at hf with howner
  · cases hpieces : pieces (s.entry p) lock with
    | none => exact absurd hf (by simp [hpieces])
    | some es =>
      rw [hpieces] at hf
      exact ⟨⟨howner, by simp [hpieces]⟩, mem_pieces hpieces hf⟩
  · exact absurd hf (by simp)

lemma Unlocked.of_incRef (h : Unlocked lock (incRef s p) s') : Unlocked lock s s' :=
  ⟨h.listed, h.entry, h.next, h.queue, h.kept, h.old_or_piece, h.pieces⟩

/-- UNLOCK forgets nobody if it queues a task. -/
lemma Inv.unlocked {t : Server} (h : Inv s) (hun : Unlocked lock s s') (hlist : t.lockList = s'.lockList)
    (hentry : t.entry = s'.entry) (hnext : t.next = s'.next)
    (hqueue : ∀ fh, .grantBlocked fh ∈ s.queue → .grantBlocked fh ∈ t.queue)
    (hdone : Harmless s lock ∨ .grantBlocked lock.fh ∈ t.queue) : Inv t := by
  have hkept : ∀ q ∈ s.lockList, ¬ Reached s lock q → q ∈ t.lockList ∧ t.entry q = s.entry q := by
    intro q hq hr
    rw [hlist, hentry]
    exact ⟨hun.kept q hq hr, hun.entry q (h.listed.lt_next q hq)⟩
  -- what was granted and reached is taken care of
  have hreached : ∀ g ∈ s.lockList, (s.entry g).state = .granted → Reached s lock g →
      .grantBlocked (s.entry g).fh ∈ t.queue := by
    intro g hg hgranted hrg
    rcases hdone with hharmless | htask
    · have hblocked := (hharmless g hg hrg).1
      rw [hgranted] at hblocked
      exact absurd hblocked (by decide)
    · rw [hrg.1.2.1]
      exact htask
  refine ⟨?_, h.cared.of_step ?_ ?_ fun q _ _ htask => Or.inl (hqueue _ htask)⟩
  · rw [hlist]
    exact hun.listed.mono hnext.ge
  · intro q hq _
    rw [hlist] at hq
    rcases hun.old_or_piece q hq with ⟨hq, hr⟩ | ⟨r, hr, hmem⟩
    · exact Or.inl ⟨hq, (hkept q hq hr).2⟩
    right
    rw [← hentry] at hmem
    obtain ⟨hrr, start, len, heq⟩ := mem_remains hmem
    rcases hdone with hharmless | htask
    · left
      obtain ⟨g, hg, hfh, hgranted, hc⟩ := (hharmless r hr hrr).2 _ hmem
      have hrg : ¬ Reached s lock g := by
        intro hrg
        have hblocked := (hharmless g hg hrg).1
        rw [hgranted] at hblocked
        exact absurd hblocked (by decide)
      refine ⟨g, (hkept g hg hrg).1, ?_⟩
      rw [(hkept g hg hrg).2]
      exact ⟨hfh, hgranted, hc⟩
    · right
      rw [heq]
      show .grantBlocked (s.entry r).fh ∈ t.queue
      rw [hrr.1.2.1]
      exact htask
  · intro g hg hgranted
    by_cases hrg : Reached s lock g
    · exact Or.inr (hreached g hg hgranted hrg)
    · exact Or.inl (hkept g hg hrg)

/-- So it does in a prompt step. -/
lemma Inv.nlm4Unlock {copyOk : Bool} (h : Inv s) (hprompt : Prompt s (.unlock lock copyOk)) :
    Inv (nlm4Unlock s lock copyOk) := by
  unfold Nlm.nlm4Unlock
  cases hfind : findLockEntry s lock false .granted with
  | none => exact h
  | some p =>
    have hlisted : Listed (incRef s p) (incRef s p).lockList := h.listed.mono le_rfl
    have hun : Unlocked lock s (deleteLockEntry (incRef s p) lock) :=
      (unlocked_deleteLockEntry hlisted).of_incRef
    have hold : ∀ fh, Task.grantBlocked fh ∈ s.queue →
        Task.grantBlocked fh ∈ (deleteLockEntry (incRef s p) lock).queue := by
      intro fh hfh
      rw [hun.queue]
      exact hfh
    by_cases hgranted : (s.entry p).state = .granted
    · simp only [hgranted, if_true]
      refine h.unlocked hun rfl rfl rfl (fun fh hfh => List.mem_append_left _ (hold fh hfh)) ?_
      refine hprompt.imp_right fun hprompt => List.mem_append_right _ ?_
      rw [if_pos hprompt.1]
      exact List.mem_singleton_self _
    · simp only [hgranted, if_false]
      have hharmless : Harmless s lock := by
        refine hprompt.resolve_right ?_
        rintro ⟨-, q, hq, hg⟩
        rw [hfind] at hq
        rw [← Option.some.inj hq] at hg
        exact hgranted hg
      exact h.unlocked hun rfl rfl rfl hold (Or.inl hharmless)

variable {t : Task}

/-- No task is lost while entries are granted. -/
lemma mem_queue_grantLoop {fh : Netobj} (ht : t ∈ s.queue) : t ∈ (grantLoop fh copyOk ps s).queue := by
  induction ps generalizing s with
  | nil => exact ht
  | cons p ps ih =>
    unfold grantLoop
    split_ifs
    · refine ih ?_
      unfold grantEntry
      split_ifs
      · exact ht
      · exact List.mem_append_left _ ht
      · exact ht
    · exact ih ht

lemma dequeue_eq_some (hs : dequeue s t = some s') :
    t ∈ s.queue ∧ s' = { s with queue := s.queue.erase t } := by
  unfold dequeue at hs
  split_ifs at hs with ht
  exact ⟨ht, (Option.some.inj hs).symm⟩

/-- The task grants all entries that can be. -/
lemma Inv.grantBlocked {fh : Netobj} (h : Inv s) (hs : dequeue s (.grantBlocked fh) = some s') :
    Inv (doGrantBlockedLocks s' fh copyOk) := by
  obtain ⟨-, rfl⟩ := dequeue_eq_some hs
  have hnodup : s.lockList.Nodup := h.listed.nodup
  obtain ⟨hgrants, hwaits⟩ := grants_doGrantBlockedLocks
    (s := { s with queue := s.queue.erase (.grantBlocked fh) }) fh copyOk hnodup
  refine ⟨(h.listed.sublist hgrants.sublist).mono hgrants.next.ge, h.cared.of_step ?_ ?_ ?_⟩
  · intro p hp hblocked
    exact Or.inl ⟨hgrants.sublist.subset hp, hgrants.eq_of_blocked hblocked⟩
  · exact fun q hq hg => Or.inl (hgrants.granted q hq hg)
  · intro p hp hblocked htask
    by_cases hfh : ((doGrantBlockedLocks { s with queue := s.queue.erase (.grantBlocked fh) } fh
        copyOk).entry p).fh = fh
    · exact Or.inr (hwaits p hp hfh hblocked)
    · left
      refine mem_queue_grantLoop ((List.mem_erase_of_ne ?_).mpr htask)
      intro heq
      exact hfh (Task.grantBlocked.inj heq)

lemma Inv.dequeue (h : Inv s) (ht : ∀ fh, t ≠ .grantBlocked fh) (hs : dequeue s t = some s') : Inv s' := by
  obtain ⟨-, rfl⟩ := dequeue_eq_some hs
  exact h.congr rfl rfl rfl fun fh hfh => (List.mem_erase_of_ne (ht fh).symm).mpr hfh

/-- Every prompt step forgets nobody. -/
lemma Inv.serve {ev : Event} (h : Inv s) (hprompt : Prompt s ev) (hs : serve s ev = some s') :
    Inv s' := by
  cases ev with
  | lock arg allocOk =>
    rw [← Option.some.inj hs]
    exact h.nlm4Lock hprompt
  | unlock lock copyOk =>
    rw [← Option.some.inj hs]
    exact h.nlm4Unlock hprompt
  | cancel lock exclusive => exact h.nlm4Cancel hs
  | smNotify name copyOk =>
    rw [← Option.some.inj hs]
    exact h.nodeRecovery hprompt
  | grantedRes cookie gracePeriod =>
    rw [← Option.some.inj hs]
    unfold nlm4GrantedRes
    split
    · exact h
    · split_ifs
      · exact h.congr rfl rfl rfl fun _ hfh => List.mem_append_left _ hfh
      · exact h
  | grantBlocked fh copyOk =>
    obtain ⟨s₁, hs₁, rfl⟩ := Option.map_eq_some_iff.mp hs
    exact h.grantBlocked hs₁
  | sendGrant p rpcOk copyOk =>
    obtain ⟨s₁, hs₁, hs⟩ := Option.bind_eq_some_iff.mp hs
    rw [show copyOk = true from hprompt] at hs
    exact (h.dequeue (by simp) hs₁).nlm4SendGrantMsg hs
  | resendGrant p rpcOk copyOk =>
    obtain ⟨s₁, hs₁, hs⟩ := Option.bind_eq_some_iff.mp hs
    rw [show copyOk = true from hprompt] at hs
    exact (h.dequeue (by simp) hs₁).nlm4SendGrantMsg hs

lemma inv_initial : Inv initial :=
  ⟨⟨List.nodup_nil, by simp [initial]⟩, by simp [Cared, initial]⟩

/-- In every run whose steps leave nobody behind, a lock that is blocked while no task is left
conflicts with a granted one. -/
theorem noneForgotten_of_prompt {s : Server} (h : ReachableBy serve Prompt initial s) :
    NoneForgotten s := by
  have hinv : Inv s := h.invariant inv_initial fun _ _ _ h hprompt hs => h.serve hprompt hs
  intro hqueue p hp hblocked
  rcases hinv.cared p hp hblocked with hwaiting | htask
  · exact hwaiting
  · rw [hqueue] at htask
    exact absurd htask (by simp)

/-- A lock that waits for a granted one, after a third client has given up. -/
theorem noneForgotten_after_cancel :
    (execute serve initial [.lock (sampleArgs 1 0 10 true) true, .lock (sampleArgs 2 5 5 true) true,
      .lock (sampleArgs 3 8 5 true) true, .cancel (sampleArgs 2 5 5 true).alock true]).any
        (fun s => s.lockList = [0, 2] && s.queue = []) = true ∧
    ∀ s, execute serve initial [.lock (sampleArgs 1 0 10 true) true,
      .lock (sampleArgs 2 5 5 true) true, .lock (sampleArgs 3 8 5 true) true,
      .cancel (sampleArgs 2 5 5 true).alock true] = some s → NoneForgotten s := by
  refine ⟨by decide +kernel, fun s hs => ?_⟩
  exact noneForgotten_of_prompt (reachableBy_of_execute hs (by decide +kernel))

/-- A lock that was refused because of a blocked one stays blocked when that one is cancelled,
although nothing is in its way. -/
theorem forgotten_after_cancel : ¬ ∀ s, Reachable serve initial s → NoneForgotten s := by
  have hrun : ∃ s, execute serve initial [.lock (sampleArgs 1 0 10 true) true,
      .lock (sampleArgs 2 5 15 true) true, .lock (sampleArgs 3 15 15 true) true,
      .cancel (sampleArgs 2 5 15 true).alock true] = some s ∧ ¬ NoneForgotten s :=
    ⟨_, rfl, by decide +kernel⟩
  obtain ⟨s, hs, hnot⟩ := hrun
  intro h
  exact hnot (h s (reachable_of_execute hs))

end Ganesha.Nlm
