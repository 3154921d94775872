import Ganesha.Library.RefCount
import Ganesha.Nlm.Requests
import Mathlib.Algebra.Order.Group.Multiset
import Mathlib.Tactic.Abel

/-!
# References to the entries

The requests again, but each one taken apart at the points where it lets go of a mutex, so that the
threads can run in any order. Between two steps a thread has one reference to one entry.
-/

namespace Ganesha.Nlm
open Library.Transition Library.RefCount

/-! ## Threads -/

/-- Where a thread is that has a reference to the entry `p`:

- `unlockFound`, `unlockState`, `unlockDeleted`: in `nlm4_Unlock`
- `cancelFound`: in `nlm4_Cancel`
- `grantedResFound`: in `nlm4_Granted_Res`
- `sending`, `sendRemoved`: in `nlm4_send_grant_msg`
- `releasing`: before the last `nlm_lock_entry_dec_ref` of any of them -/
inductive Thread
  | unlockFound (lock : Lock) (p : ℕ)
  | unlockState (lock : Lock) (p : ℕ) (state : LockState)
  | unlockDeleted (lock : Lock) (p : ℕ) (state : LockState)
  | cancelFound (p : ℕ)
  | grantedResFound (p : ℕ) (gracePeriod : Bool)
  | sending (p : ℕ)
  | sendRemoved (p : ℕ)
  | releasing (p : ℕ)
  deriving DecidableEq

/-- The entry the thread has a reference to. -/
def Thread.entry : Thread → ℕ
  | .unlockFound _ p | .unlockState _ p _ | .unlockDeleted _ p _ | .cancelFound p
  | .grantedResFound p _ | .sending p | .sendRemoved p | .releasing p => p

/-- The server and its threads; `crashed` says that `glist_del` has followed the pointer NULL. -/
structure Daemon where
  server : Server
  threads : List Thread
  crashed : Bool

/-- A thread begins with a request or a task, or goes on. -/
inductive Action
  | lock (arg : LockArgs) (allocOk : Bool)
  | test (lock : Lock) (exclusive : Bool)
  | unlock (lock : Lock)
  | cancel (lock : Lock) (exclusive : Bool)
  | smNotify (name : List UInt8) (copyOk : ℕ → Bool)
  | grantedRes (cookie : Netobj) (gracePeriod : Bool)
  | grantBlocked (fh : Netobj) (copyOk : ℕ → Bool)
  | sendGrant (p : ℕ)
  | resendGrant (p : ℕ)
  | resume (t : Thread) (copyOk : Bool)

/-- The server changes and a thread is at `t`. -/
def Daemon.run (d : Daemon) (s : Server) (t : Thread) : Daemon :=
  { d with server := s, threads := t :: d.threads }

/-- A search under `nlm_lock_list_mutex`, which takes a reference to what it finds. -/
def Daemon.find (d : Daemon) (found : Option ℕ) (t : ℕ → Thread) : Daemon :=
  match found with
  | none => d
  | some p => d.run (incRef d.server p) (t p)

/-- `nlm_remove_from_locklist`, and then the thread is at `t`. -/
def Daemon.remove (d : Daemon) (p : ℕ) (t : Thread) : Daemon :=
  match removeFromLocklist d.server p with
  | none => { d with crashed := true }
  | some s => d.run s t

/-- The next step of a thread; `d` is without this thread. -/
def Daemon.proceed (d : Daemon) (copyOk : Bool) : Thread → Daemon
  | .unlockFound lock p => d.run d.server (.unlockState lock p (d.server.entry p).state)
  | .unlockState lock p state => d.run (deleteLockEntry d.server lock) (.unlockDeleted lock p state)
  | .unlockDeleted lock p state =>
    d.run (if state = .granted then grantBlockedLocks d.server lock.fh copyOk else d.server) (.releasing p)
  | .cancelFound p => d.remove p (.releasing p)
  | .grantedResFound p gracePeriod =>
    -- the reference goes to the task
    if gracePeriod then
      { d with server := { d.server with queue := d.server.queue ++ [.resendGrant p] } }
    else { d with server := decRef d.server p }
  | .sending p => d.remove p (.sendRemoved p)
  | .sendRemoved p =>
    d.run (grantBlockedLocks d.server (d.server.entry p).fh copyOk) (.releasing p)
  | .releasing p => { d with server := decRef d.server p }

/-- One step of one thread. -/
def act (d : Daemon) (a : Action) : Option Daemon :=
  if d.crashed then none
  else
    match a with
    | .lock arg allocOk =>
      match addToLocklist d.server arg allocOk with
      | (s, none) => some { d with server := s }
      | (s, some p) => some (d.run s (.releasing p))
    | .test lock exclusive =>
      some (d.find (overlappingEntry d.server lock exclusive) .releasing)
    | .unlock lock => some (d.find (findLockEntry d.server lock false .granted) (.unlockFound lock))
    | .cancel lock exclusive =>
      some (d.find (findLockEntry d.server lock exclusive .blocked) .cancelFound)
    | .smNotify name copyOk => some { d with server := nodeRecovery d.server name copyOk }
    | .grantedRes cookie gracePeriod =>
      some (d.find (findLockEntryByCookie d.server cookie) fun p => .grantedResFound p gracePeriod)
    | .grantBlocked fh copyOk =>
      (dequeue d.server (.grantBlocked fh)).map fun s =>
        { d with server := doGrantBlockedLocks s fh copyOk }
    | .sendGrant p => (dequeue d.server (.sendGrant p)).map fun s => d.run s (.sending p)
    | .resendGrant p => (dequeue d.server (.resendGrant p)).map fun s => d.run s (.sending p)
    | .resume t copyOk =>
      if t ∈ d.threads then some (({ d with threads := d.threads.erase t } : Daemon).proceed copyOk t)
      else none

/-! ## References -/

/-- The reference of a task. -/
def Task.refs : Task → List ℕ
  | .grantBlocked _ => []
  | .sendGrant p | .resendGrant p => [p]

/-- The references of the list and of the queue. -/
def Server.refs (s : Server) : Multiset ℕ := ↑s.lockList + ↑(s.queue.flatMap Task.refs)

/-- The counts are right when the threads have the references `others`. -/
structure Holds (s : Server) (others : Multiset ℕ) : Prop where
  counted : Counted (· < s.next) (s.refs + others) s.refCount s.freed
  nodup : s.lockList.Nodup

variable {s s' : Server} {others : Multiset ℕ} {p : ℕ} {lock : Lock}

lemma Holds.listed (h : Holds s others) : Listed s s.lockList :=
  ⟨h.nodup, fun p hp => h.counted.refs_allocated p (Multiset.mem_add.mpr
    (Or.inl (Multiset.mem_add.mpr (Or.inl hp))))⟩

lemma Holds.congr {others' : Multiset ℕ} (h : Holds s others) (hrefs : s'.refs + others' = s.refs + others)
    (hlist : s'.lockList.Nodup) (hnext : s'.next = s.next) (hcount : s'.refCount = s.refCount)
    (hfreed : s'.freed = s.freed) : Holds s' others' := by
  refine ⟨?_, hlist⟩
  rw [hrefs, hcount, hfreed, hnext]
  exact h.counted

lemma Holds.incRef (h : Holds s others) (hp : p ∈ s.refs + others) : Holds (incRef s p) (p ::ₘ others) := by
  refine ⟨?_, h.nodup⟩
  rw [Multiset.add_cons]
  exact h.counted.inc hp

lemma Holds.decRef (h : Holds s (p ::ₘ others)) : Holds (decRef s p) others := by
  refine ⟨?_, h.nodup⟩
  have hcounted := h.counted
  rw [Multiset.add_cons] at hcounted
  exact hcounted.dec

lemma Server.refs_of_list {l : List ℕ} :
    ({ s with lockList := l } : Server).refs = ↑l + ↑(s.queue.flatMap Task.refs) := rfl

/-- An entry leaves the list. -/
lemma Holds.unlink (h : Holds s others) (hp : p ∈ s.lockList) : Holds (unlink s p) others := by
  refine Holds.decRef (h.congr ?_ (h.nodup.erase p) rfl rfl rfl)
  have hcons : (↑s.lockList : Multiset ℕ) = p ::ₘ ↑(s.lockList.erase p) := by
    rw [← Multiset.coe_erase, Multiset.cons_erase hp]
  rw [Server.refs_of_list, Multiset.add_cons]
  unfold Server.refs
  rw [hcons, Multiset.cons_add, Multiset.cons_add]

lemma Holds.create {e : Entry} {n : ℕ} (h : Holds s others) (hn : n ≠ 0) :
    Holds (create s e n) (Multiset.replicate n s.next + others) := by
  refine ⟨?_, h.nodup⟩
  have hcounted := h.counted.alloc (lt_irrefl s.next) hn
  rw [add_left_comm] at hcounted
  exact hcounted.congr fun p => Nat.lt_succ_iff_lt_or_eq

lemma Holds.append {l : List ℕ} (h : Holds s (↑l + others)) (hnodup : (s.lockList ++ l).Nodup) :
    Holds { s with lockList := s.lockList ++ l } others := by
  refine h.congr ?_ hnodup rfl rfl rfl
  rw [Server.refs_of_list, ← Multiset.coe_add]
  unfold Server.refs
  abel

lemma Holds.enqueue {t : Task} (h : Holds s (↑t.refs + others)) :
    Holds { s with queue := s.queue ++ [t] } others := by
  refine h.congr ?_ h.nodup rfl rfl rfl
  unfold Server.refs
  rw [List.flatMap_append, ← Multiset.coe_add, List.flatMap_singleton]
  abel

/-- A task leaves the queue with its references. -/
lemma Holds.dequeue {t : Task} (h : Holds s others) (hs : dequeue s t = some s') :
    Holds s' (↑t.refs + others) := by
  obtain ⟨ht, rfl⟩ := dequeue_eq_some hs
  refine h.congr ?_ h.nodup rfl rfl rfl
  have hperm : (↑(s.queue.flatMap Task.refs) : Multiset ℕ) =
      ↑t.refs + ↑((s.queue.erase t).flatMap Task.refs) := by
    rw [Multiset.coe_add, ← List.flatMap_cons]
    exact Multiset.coe_eq_coe.mpr ((List.perm_cons_erase ht).flatMap_right _)
  unfold Server.refs
  rw [hperm]
  abel

variable {copyOk : Bool}

lemma Holds.grantBlockedLocks {fh : Netobj} (h : Holds s others) :
    Holds (grantBlockedLocks s fh copyOk) others :=
  Holds.enqueue (by simpa [Task.refs] using h)

/-! ## The steps -/

lemma mem_refs_of_mem_lockList (hp : p ∈ s.lockList) : p ∈ s.refs + others :=
  Multiset.mem_add.mpr (Or.inl (Multiset.mem_add.mpr (Or.inl hp)))

/-- New entries with their references. -/
lemma Holds.createAll {es : List Entry} (h : Holds s others) :
    Holds (createAll s es).1 (↑(createAll s es).2 + others) := by
  induction es generalizing s others with
  | nil => simpa [Nlm.createAll] using h
  | cons e es ih =>
    have hfirst : Holds (Nlm.create s e 1) (Multiset.replicate 1 s.next + others) := h.create one_ne_zero
    have hrest := ih hfirst
    rw [Multiset.replicate_one, add_left_comm, ← add_assoc, Multiset.singleton_add] at hrest
    exact hrest

/-- An entry that is deleted loses the reference of the list, and its pieces get one. -/
lemma Holds.doDelete {split : List ℕ} (h : Holds s (↑split + others)) (hp : p ∈ s.lockList) :
    Holds (doDeleteLockEntry lock s split p).1 (↑(doDeleteLockEntry lock s split p).2 + others) := by
  unfold doDeleteLockEntry
  cases pieces (s.entry p) lock with
  | none => exact h
  | some es =>
    have hcreated : Holds (Nlm.createAll s es).1 (↑(split ++ (Nlm.createAll s es).2) + others) := by
      rw [← Multiset.coe_add, add_assoc, add_left_comm]
      exact h.createAll
    refine hcreated.unlink ?_
    rw [createAll_lockList]
    exact hp

variable {ps : List ℕ}

/-- The entries taken out give their references back. -/
lemma Holds.deleteLoop {split : List ℕ} (h : Holds s (↑split + others)) (hps : ∀ p ∈ ps, p ∈ s.lockList)
    (hnodup : ps.Nodup) : Holds (deleteLoop lock ps s split).1 (↑(deleteLoop lock ps s split).2 + others) := by
  induction ps generalizing s split with
  | nil => exact h
  | cons p ps ih =>
    obtain ⟨hp, hnodup⟩ := List.nodup_cons.mp hnodup
    unfold Nlm.deleteLoop
    split_ifs
    · refine ih (h.doDelete (hps p List.mem_cons_self)) (fun q hq => ?_) hnodup
      exact mem_doDelete (hps q (List.mem_cons_of_mem _ hq)) fun heq => hp (heq ▸ hq)
    · exact ih h (fun q hq => hps q (List.mem_cons_of_mem _ hq)) hnodup

/-- The counts are right after a deletion, unless there is one piece. -/
lemma Holds.deleteLockEntry (h : Holds s others)
    (hone : (s.lockList.flatMap (remains s lock)).length ≠ 1) : Holds (deleteLockEntry s lock) others := by
  have hstart : Listed s (s.lockList ++ []) := by simpa using h.listed
  have hloop : Deletes lock s.lockList s _ [] _ :=
    deletes_deleteLoop hstart (fun _ hp => hp) h.nodup
  have hholds : Holds (Nlm.deleteLoop lock s.lockList s []).1
      (↑(Nlm.deleteLoop lock s.lockList s []).2 + others) :=
    Holds.deleteLoop (by simpa using h) (fun _ hp => hp) h.nodup
  obtain ⟨new, hsplit, -, hmap⟩ := hloop.new
  have hlength : (Nlm.deleteLoop lock s.lockList s []).2.length ≠ 1 := by
    rw [hsplit, List.nil_append, ← List.length_map, hmap]
    exact hone
  unfold Nlm.deleteLockEntry glistAddListTail
  by_cases hshort : (Nlm.deleteLoop lock s.lockList s []).2.length ≤ 1
  · -- nothing was put back
    simp only [hshort, if_true]
    have hnil : (Nlm.deleteLoop lock s.lockList s []).2 = [] :=
      List.length_eq_zero_iff.mp (by omega)
    rw [hnil] at hholds
    simpa using hholds
  · simp only [hshort, if_false]
    exact hholds.append hloop.listed.nodup

/-- The new entry has a reference of the list and one of the caller. -/
lemma Holds.addToLocklist (h : Holds s others) (arg : LockArgs) (allocOk : Bool) :
    Holds (addToLocklist s arg allocOk).1 (↑(addToLocklist s arg allocOk).2.toList + others) := by
  unfold Nlm.addToLocklist
  cases hblocked : blockedRequest s arg with
  | some p => exact h.incRef (mem_refs_of_mem_lockList (List.mem_of_find?_eq_some hblocked))
  | none =>
    by_cases hok : allocOk
    swap
    · simpa [hok] using h
    simp only [hok, not_true_eq_false, if_false]
    have hcreated := h.create (e := arg.toEntry (if allowed s arg then .granted else .blocked)) two_ne_zero
    refine Holds.append (l := [s.next]) ?_ (h.listed.append_next (arg.toEntry .granted) 2).nodup
    simpa [Multiset.replicate_succ] using hcreated

/-- One entry is granted or not. -/
lemma Holds.grantEntry (h : Holds s others) (hp : p ∈ s.lockList) : Holds (grantEntry s copyOk p) others := by
  unfold Nlm.grantEntry
  split_ifs
  · exact h
  · have hqueued : Holds { Nlm.incRef s p with queue := s.queue ++ [.sendGrant p] } others :=
      Holds.enqueue (h.incRef (mem_refs_of_mem_lockList hp))
    exact hqueued.congr rfl h.nodup rfl rfl rfl
  · exact h.unlink hp

/-- A grant keeps the references. -/
lemma Holds.grantLoop {fh : Netobj} {copyOk : ℕ → Bool} (h : Holds s others) (hps : ∀ p ∈ ps, p ∈ s.lockList)
    (hnodup : ps.Nodup) : Holds (grantLoop fh copyOk ps s) others := by
  induction ps generalizing s with
  | nil => exact h
  | cons p ps ih =>
    obtain ⟨hp, hnodup⟩ := List.nodup_cons.mp hnodup
    unfold Nlm.grantLoop
    split_ifs
    · refine ih (h.grantEntry (hps p List.mem_cons_self)) (fun q hq => ?_) hnodup
      exact mem_grantEntry (hps q (List.mem_cons_of_mem _ hq)) fun heq => hp (heq ▸ hq)
    · exact ih h (fun q hq => hps q (List.mem_cons_of_mem _ hq)) hnodup

/-- One entry of a client that restarts. -/
lemma Holds.recoverEntry (h : Holds s others) (hp : p ∈ s.lockList) :
    Holds (recoverEntry s copyOk p) others := by
  have hremoved : Holds (Nlm.unlink (Nlm.incRef s p) p) (p ::ₘ others) :=
    (h.incRef (mem_refs_of_mem_lockList hp)).unlink hp
  unfold Nlm.recoverEntry
  split_ifs
  · exact hremoved.grantBlockedLocks.decRef
  · exact hremoved.decRef

/-- The recovery gives the references of the list back. -/
lemma Holds.recoveryLoop {name : List UInt8} {copyOk : ℕ → Bool} (h : Holds s others)
    (hps : ∀ p ∈ ps, p ∈ s.lockList) (hnodup : ps.Nodup) : Holds (recoveryLoop name copyOk ps s) others := by
  induction ps generalizing s with
  | nil => exact h
  | cons p ps ih =>
    obtain ⟨hp, hnodup⟩ := List.nodup_cons.mp hnodup
    unfold Nlm.recoveryLoop
    split_ifs
    · refine ih (h.recoverEntry (hps p List.mem_cons_self)) (fun q hq => ?_) hnodup
      rw [recoverEntry_lockList]
      have hne : q ≠ p := fun heq => hp (heq ▸ hq)
      exact (List.mem_erase_of_ne hne).mpr (hps q (List.mem_cons_of_mem _ hq))
    · exact ih h (fun q hq => hps q (List.mem_cons_of_mem _ hq)) hnodup

/-! ## Runs -/

/-- The references of the threads. -/
def Daemon.refs (d : Daemon) : Multiset ℕ := ↑(d.threads.map Thread.entry)

/-- How many references to an entry the threads and the tasks have. -/
def Daemon.held (d : Daemon) (p : ℕ) : ℕ :=
  (d.threads.map Thread.entry).count p + (d.server.queue.flatMap Task.refs).count p

/-- `glist_del` was only applied to entries of the list. The count of an entry is that of the list,
the threads and the tasks together; it is given back once, when there is no reference left. -/
structure RefsCounted (d : Daemon) : Prop where
  not_crashed : d.crashed = false
  count_eq : ∀ p < d.server.next, p ∉ d.server.freed →
    d.server.refCount p = (if p ∈ d.server.lockList then 1 else 0) + d.held p
  freed_once : d.server.freed.Nodup
  freed_iff : ∀ p < d.server.next, p ∈ d.server.freed ↔ p ∉ d.server.lockList ∧ d.held p = 0

/-- The step does not go wrong: an unlock does not put back exactly one piece, and an entry that is to
be removed is still in the list. -/
def Careful (d : Daemon) : Action → Prop
  | .resume (.unlockState lock _ _) _ => (d.server.lockList.flatMap (remains d.server lock)).length ≠ 1
  | .resume (.cancelFound p) _ | .resume (.sending p) _ => p ∈ d.server.lockList
  | _ => True

instance (d : Daemon) : DecidablePred (Careful d)
  | .resume (.unlockState _ _ _) _ => inferInstanceAs (Decidable (_ ≠ _))
  | .resume (.cancelFound _) _ | .resume (.sending _) _ => inferInstanceAs (Decidable (_ ∈ _))
  | .lock _ _ | .test _ _ | .unlock _ | .cancel _ _ | .smNotify _ _ | .grantedRes _ _
  | .grantBlocked _ _ | .sendGrant _ | .resendGrant _ | .resume (.unlockFound _ _) _
  | .resume (.unlockDeleted _ _ _) _ | .resume (.grantedResFound _ _) _ | .resume (.sendRemoved _) _
  | .resume (.releasing _) _ => isTrue trivial

/-- The invariant of the runs. -/
structure Daemon.Inv (d : Daemon) : Prop where
  holds : Holds d.server d.refs
  not_crashed : d.crashed = false

variable {d d' : Daemon}

variable {t : Thread}

lemma Daemon.Inv.run (hcrashed : d.crashed = false) (h : Holds s (t.entry ::ₘ d.refs)) : (d.run s t).Inv :=
  ⟨h, hcrashed⟩

/-- A thread has found its entry. -/
lemma Daemon.Inv.find {found : Option ℕ} {t : ℕ → Thread} (h : d.Inv)
    (hfound : ∀ p ∈ found, p ∈ d.server.lockList) (ht : ∀ p, (t p).entry = p) :
    (d.find found t).Inv := by
  cases found with
  | none => exact h
  | some p =>
    refine Daemon.Inv.run h.not_crashed ?_
    rw [ht]
    exact h.holds.incRef (mem_refs_of_mem_lockList (hfound p rfl))

lemma Daemon.Inv.remove (hcrashed : d.crashed = false) (h : Holds d.server (p ::ₘ d.refs))
    (hp : p ∈ d.server.lockList) (ht : t.entry = p) : (d.remove p t).Inv := by
  unfold Daemon.remove removeFromLocklist
  rw [if_pos hp]
  refine Daemon.Inv.run hcrashed ?_
  rw [ht]
  exact h.unlink hp

/-- A careful end of a task gives its reference back. -/
lemma Daemon.Inv.proceed (hcrashed : d.crashed = false) (h : Holds d.server (t.entry ::ₘ d.refs))
    (hcareful : Careful d (.resume t copyOk)) : (d.proceed copyOk t).Inv := by
  cases t with
  | unlockFound lock p => exact Daemon.Inv.run hcrashed h
  | unlockState lock p state => exact Daemon.Inv.run hcrashed (h.deleteLockEntry hcareful)
  | unlockDeleted lock p state =>
    refine Daemon.Inv.run hcrashed ?_
    split_ifs
    · exact h.grantBlockedLocks
    · exact h
  | cancelFound p => exact Daemon.Inv.remove hcrashed h hcareful rfl
  | grantedResFound p gracePeriod =>
    cases gracePeriod with
    | true => exact ⟨Holds.enqueue (t := .resendGrant p) h, hcrashed⟩
    | false => exact ⟨h.decRef, hcrashed⟩
  | sending p => exact Daemon.Inv.remove hcrashed h hcareful rfl
  | sendRemoved p => exact Daemon.Inv.run hcrashed h.grantBlockedLocks
  | releasing p => exact ⟨h.decRef, hcrashed⟩

lemma Daemon.refs_erase (ht : t ∈ d.threads) :
    d.refs = t.entry ::ₘ ({ d with threads := d.threads.erase t } : Daemon).refs := by
  unfold Daemon.refs
  rw [Multiset.cons_coe, ← List.map_cons]
  exact Multiset.coe_eq_coe.mpr ((List.perm_cons_erase ht).map _)

lemma Careful.of_threads {threads : List Thread} {a : Action} (h : Careful d a) :
    Careful { d with threads := threads } a := by
  cases a with
  | resume t copyOk => cases t <;> exact h
  | _ => trivial

/-- Every careful action keeps the counts right. -/
lemma Daemon.Inv.act {a : Action} (h : d.Inv) (hcareful : Careful d a) (hs : act d a = some d') :
    d'.Inv := by
  unfold Nlm.act at hs
  rw [if_neg (by simp [h.not_crashed])] at hs
  cases a with
  | lock arg allocOk =>
    have hadd := h.holds.addToLocklist arg allocOk
    rcases hres : addToLocklist d.server arg allocOk with ⟨s, _ | p⟩
    · -- the request was refused, so no reference is held
      simp only [hres] at hs hadd
      rw [← Option.some.inj hs]
      have hsame : Holds s d.refs := by simpa using hadd
      exact ⟨hsame, h.not_crashed⟩
    · simp only [hres] at hs hadd
      rw [← Option.some.inj hs]
      exact Daemon.Inv.run h.not_crashed hadd
  | test lock exclusive =>
    rw [← Option.some.inj hs]
    exact h.find (fun p hp => List.mem_of_find?_eq_some hp) fun _ => rfl
  | unlock lock =>
    rw [← Option.some.inj hs]
    exact h.find (fun p hp => List.mem_of_find?_eq_some hp) fun _ => rfl
  | cancel lock exclusive =>
    rw [← Option.some.inj hs]
    exact h.find (fun p hp => List.mem_of_find?_eq_some hp) fun _ => rfl
  | smNotify name copyOk =>
    rw [← Option.some.inj hs]
    exact ⟨h.holds.recoveryLoop (fun _ hp => hp) h.holds.nodup, h.not_crashed⟩
  | grantedRes cookie gracePeriod =>
    rw [← Option.some.inj hs]
    exact h.find (fun p hp => List.mem_of_find?_eq_some hp) fun _ => rfl
  | grantBlocked fh copyOk =>
    obtain ⟨s, hdeq, rfl⟩ := Option.map_eq_some_iff.mp hs
    have hholds : Holds s d.refs := by simpa [Task.refs] using h.holds.dequeue hdeq
    exact ⟨hholds.grantLoop (fun _ hp => hp) hholds.nodup, h.not_crashed⟩
  | sendGrant p =>
    obtain ⟨s, hdeq, rfl⟩ := Option.map_eq_some_iff.mp hs
    exact Daemon.Inv.run h.not_crashed (h.holds.dequeue hdeq)
  | resendGrant p =>
    obtain ⟨s, hdeq, rfl⟩ := Option.map_eq_some_iff.mp hs
    exact Daemon.Inv.run h.not_crashed (h.holds.dequeue hdeq)
  | resume t copyOk =>
    simp only at hs
    split_ifs at hs with ht
    rw [← Option.some.inj hs]
    refine Daemon.Inv.proceed h.not_crashed ?_ hcareful.of_threads
    rw [← Daemon.refs_erase ht]
    exact h.holds

/-- The count of an entry is the number of its references. -/
lemma Daemon.Inv.refsCounted (h : d.Inv) : RefsCounted d := by
  have hcount : ∀ p, (d.server.refs + d.refs).count p = d.server.lockList.count p + d.held p := by
    intro p
    unfold Server.refs Daemon.refs Daemon.held
    rw [Multiset.count_add, Multiset.count_add, Multiset.coe_count, Multiset.coe_count, Multiset.coe_count]
    omega
  have hlist : ∀ p, d.server.lockList.count p = if p ∈ d.server.lockList then 1 else 0 := by
    intro p
    split_ifs with hp
    · exact List.count_eq_one_of_mem h.holds.nodup hp
    · exact List.count_eq_zero.mpr hp
  have hfreed : ∀ p < d.server.next, p ∈ d.server.freed ↔ p ∉ d.server.lockList ∧ d.held p = 0 := by
    intro p hp
    rw [h.holds.counted.freed_iff p hp, ← Multiset.count_eq_zero, hcount, ← List.count_eq_zero (l := d.server.lockList)]
    omega
  refine ⟨h.not_crashed, fun p hp hnot => ?_, h.holds.counted.freed_nodup, hfreed⟩
  have hmem : p ∈ d.server.refs + d.refs :=
    not_not.mp fun hmem => hnot ((h.holds.counted.freed_iff p hp).mpr hmem)
  rw [h.holds.counted.count_eq p hmem, hcount, hlist]
  push_cast
  rfl

/-- Nobody has asked for anything yet. -/
def Daemon.initial : Daemon where
  server := Nlm.initial
  threads := []
  crashed := false

lemma Daemon.inv_initial : Daemon.initial.Inv := by
  refine ⟨⟨⟨?_, ?_, List.nodup_nil, ?_, ?_⟩, List.nodup_nil⟩, rfl⟩
  · simp [Daemon.initial, Nlm.initial, Server.refs, Daemon.refs]
  · simp [Daemon.initial, Nlm.initial]
  · simp [Daemon.initial, Nlm.initial]
  · simp [Daemon.initial, Nlm.initial, Server.refs, Daemon.refs]

/-- In every interleaving whose steps do not go wrong, the reference counts are right. -/
theorem refsCounted_of_careful {d : Daemon} (h : ReachableBy act Careful Daemon.initial d) :
    RefsCounted d := by
  have hinv : d.Inv := h.invariant Daemon.inv_initial fun _ _ _ h hcareful hs => h.act hcareful hs
  exact hinv.refsCounted

/-- A lock that was blocked is granted; its message is on the way while another client tests the
range. -/
def sampleActions : List Action :=
  [.lock (sampleArgs 1 0 10 true) true, .lock (sampleArgs 2 5 5 true) true,
    .resume (.releasing 1) true, .unlock (sampleArgs 1 0 10 true).alock,
    .resume (.unlockFound (sampleArgs 1 0 10 true).alock 0) true,
    .resume (.unlockState (sampleArgs 1 0 10 true).alock 0 .granted) true,
    .resume (.unlockDeleted (sampleArgs 1 0 10 true).alock 0 .granted) true,
    .resume (.releasing 0) true, .resume (.releasing 0) true,
    .grantBlocked [7] fun _ => true, .sendGrant 1, .test (sampleArgs 3 0 10 true).alock true]

theorem refsCounted_after_sampleActions :
    (execute act Daemon.initial sampleActions).any (fun d => d.server.lockList = [1] &&
      d.server.freed = [0] && d.server.refCount 1 = 3 && d.held 1 = 2) = true ∧
    ∀ d, execute act Daemon.initial sampleActions = some d → RefsCounted d := by
  refine ⟨by decide +kernel, fun d hd => ?_⟩
  exact refsCounted_of_careful (reachableBy_of_execute hd (by decide +kernel))

/-- An unlock of the first half of a lock leaves an entry with one reference that is not in the list
and that nobody knows. -/
theorem not_refsCounted_after_unlock : ¬ ∀ d, Reachable act Daemon.initial d → RefsCounted d := by
  have hrun : ∃ d, execute act Daemon.initial [.lock (sampleArgs 1 0 10 true) true,
      .resume (.releasing 0) true, .unlock (sampleArgs 1 0 5 true).alock,
      .resume (.unlockFound (sampleArgs 1 0 5 true).alock 0) true,
      .resume (.unlockState (sampleArgs 1 0 5 true).alock 0 .granted) true] = some d ∧
      (1 < d.server.next ∧ 1 ∉ d.server.freed ∧ 1 ∉ d.server.lockList ∧ d.held 1 = 0 ∧
        d.server.refCount 1 = 1) :=
    ⟨_, rfl, by decide +kernel⟩
  obtain ⟨d, hd, hnext, hfreed, hlist, hheld, hone⟩ := hrun
  intro h
  have hcount := (h d (reachable_of_execute hd)).count_eq 1 hnext hfreed
  rw [if_neg hlist, hheld, hone] at hcount
  exact absurd hcount (by decide)

end Ganesha.Nlm
