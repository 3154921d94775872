import Mathlib.Data.List.Nodup
import Ganesha.Nfs41.Common

/-!
# Sessions of NFSv4.1, theorems

In every run the compounds that a slot lets pass have the sequence ids 1, 2, and so on modulo `2 ^ 32`,
and their operations are called once.
-/

namespace Ganesha.Nfs41
open Library.Transition

variable {R : Type} {s s' : State R} {t p k : ℕ} {d : Data} {pc : Pc}

/-- The session that a worker has in hand. -/
def Pc.session : Pc → Option ℕ
  | .found _ p | .locked _ p => some p
  | .loop d _ _ => d.psession
  | _ => none

/-- The operation that a worker is to call next. -/
def Pc.running : Pc → Option Run
  | .loop d i _ => d.psession.map fun p => ⟨p, d.args.slotid, d.serial, d.args.sequenceid, i⟩
  | _ => none

/-- Two operations of one compound. -/
def SameCompound (r r' : Run) : Prop := r.session = r'.session ∧ r.slot = r'.slot ∧ r.serial = r'.serial

/-- The compound of an operation passed its slot with the sequence id of its turn. -/
def Passed (s : State R) (r : Run) : Prop :=
  r.sequenceid = r.serial % 2 ^ 32 ∧ 0 < r.serial ∧ r.serial ≤ s.passed r.session r.slot

/-- The operation comes after those of its compound that were called. -/
def Next (s : State R) (r : Run) : Prop := ∀ r' ∈ s.ran, SameCompound r' r → r'.oppos < r.oppos

/-- What holds in every run. -/
structure Inv (s : State R) : Prop where
  table : ∀ id p, s.htSessionId id = some p → p < s.allocated
  session : ∀ t p, (s.worker t).session = some p → p < s.allocated
  sequence : ∀ p k, (s.slot p k).sequence = s.passed p k % 2 ^ 32
  fresh : ∀ p k, s.allocated ≤ p → s.passed p k = 0
  ran : ∀ r ∈ s.ran, Passed s r
  nodup : s.ran.Nodup
  running : ∀ t r, (s.worker t).running = some r → Passed s r ∧ Next s r
  distinct : ∀ t t' r r', (s.worker t).running = some r → (s.worker t').running = some r' →
    SameCompound r r' → t = t'

@[simp] lemma worker_move_self : (s.move t pc).worker t = pc := by simp [State.move]

lemma worker_move_of_ne {t' : ℕ} (h : t' ≠ t) : (s.move t pc).worker t' = s.worker t' := by
  simp [State.move, h]

@[simp] lemma slot_move : (s.move t pc).slot p k = s.slot p k := rfl

@[simp] lemma slot_setSlot_self {slot : Slot} : (s.setSlot p k slot).slot p k = slot := by
  simp [State.slot, State.setSlot]

variable {p' k' : ℕ} {slot : Slot}

lemma slot_setSlot_of_ne (h : ¬(p' = p ∧ k' = k)) : (s.setSlot p k slot).slot p' k' = s.slot p' k' := by
  by_cases hp : p' = p
  · have hk : k' ≠ k := fun hk => h ⟨hp, hk⟩
    rw [hp]
    simp [State.slot, State.setSlot, hk]
  · simp [State.slot, State.setSlot, hp]

variable {clientid maxoperations : ℕ}

/-- The slots of a new session are zero, all others stay. -/
lemma slot_createSession :
    (createSession s clientid maxoperations).1.slot p k =
      if p = s.allocated then .zero else s.slot p k := by
  have hupdate : (Function.update s.session s.allocated ⟨maxoperations, fun _ => .zero⟩ p).slots k =
      if p = s.allocated then .zero else s.slot p k := by
    by_cases hp : p = s.allocated
    · rw [hp, if_pos rfl, Function.update_self]
    · rw [if_neg hp, Function.update_of_ne hp, State.slot]
  rw [createSession, sessionSet]
  split
  · exact hupdate
  · exact hupdate

lemma createSession_frame (clientid maxoperations : ℕ) :
    (createSession s clientid maxoperations).1.worker = s.worker ∧
    (createSession s clientid maxoperations).1.passed = s.passed ∧
    (createSession s clientid maxoperations).1.ran = s.ran ∧
    (createSession s clientid maxoperations).1.finished = s.finished ∧
    (createSession s clientid maxoperations).1.replayed = s.replayed ∧
    (createSession s clientid maxoperations).1.allocated = s.allocated + 1 := by
  rw [createSession, sessionSet]
  split
  · exact ⟨rfl, rfl, rfl, rfl, rfl, rfl⟩
  · exact ⟨rfl, rfl, rfl, rfl, rfl, rfl⟩

variable {id : SessionId}

/-- An old session or the new one. -/
lemma htSessionId_createSession {p : ℕ}
    (h : (createSession s clientid maxoperations).1.htSessionId id = some p) :
    s.htSessionId id = some p ∨ p = s.allocated := by
  rw [createSession, sessionSet] at h
  split at h
  · exact .inl h
  · simp only [Function.update_apply] at h
    split_ifs at h
    · exact .inr (Option.some.inj h).symm
    · exact .inl h

/-! ## The invariant of all runs -/

lemma Inv.heap {heap : ℕ → Option (List (Resop R))} (h : Inv s) : Inv { s with heap := heap } :=
  ⟨h.table, h.session, h.sequence, h.fresh, h.ran, h.nodup, h.running, h.distinct⟩

variable {i : ℕ} {res : Resop R}

lemma Inv.record (h : Inv s) : Inv (s.record d i res) := h.heap

/-- A worker moves: what it is then running must be passed and its own. -/
lemma Inv.move (h : Inv s) (hsession : ∀ p, pc.session = some p → p < s.allocated)
    (hrunning : ∀ r, pc.running = some r → Passed s r ∧ Next s r ∧
      ∀ t' r', t' ≠ t → (s.worker t').running = some r' → ¬SameCompound r r') :
    Inv (s.move t pc) where
  table := h.table
  sequence := h.sequence
  fresh := h.fresh
  ran := h.ran
  nodup := h.nodup
  session t' p' hp' := by
    by_cases ht : t' = t
    · rw [ht, worker_move_self] at hp'
      exact hsession p' hp'
    · rw [worker_move_of_ne ht] at hp'
      exact h.session t' p' hp'
  running t' r hr := by
    by_cases ht : t' = t
    · rw [ht, worker_move_self] at hr
      exact ⟨(hrunning r hr).1, (hrunning r hr).2.1⟩
    · rw [worker_move_of_ne ht] at hr
      exact h.running t' r hr
  distinct t₁ t₂ r₁ r₂ h₁ h₂ hsame := by
    by_cases ht₁ : t₁ = t
    · by_cases ht₂ : t₂ = t
      · rw [ht₁, ht₂]
      · rw [ht₁, worker_move_self] at h₁
        rw [worker_move_of_ne ht₂] at h₂
        exact absurd hsame ((hrunning r₁ h₁).2.2 t₂ r₂ ht₂ h₂)
    · rw [worker_move_of_ne ht₁] at h₁
      by_cases ht₂ : t₂ = t
      · rw [ht₂, worker_move_self] at h₂
        refine absurd ?_ ((hrunning r₂ h₂).2.2 t₁ r₁ ht₁ h₁)
        exact ⟨hsame.1.symm, hsame.2.1.symm, hsame.2.2.symm⟩
      · rw [worker_move_of_ne ht₂] at h₂
        exact h.distinct t₁ t₂ r₁ r₂ h₁ h₂ hsame

lemma Inv.move_out (h : Inv s) (hsession : pc.session = none) (hrunning : pc.running = none) :
    Inv (s.move t pc) :=
  h.move (fun p hp => by rw [hsession] at hp; cases hp) fun r hr => by rw [hrunning] at hr; cases hr

variable {status : Nfsstat4}

lemma Inv.fail {body : Body R} (h : Inv s) : Inv (fail s t d i status body) :=
  h.record.move_out rfl rfl

/-- Slots may change in everything but the sequence number. -/
lemma Inv.setSlot (h : Inv s) (hslot : slot.sequence = (s.slot p k).sequence) :
    Inv (s.setSlot p k slot) where
  table := h.table
  session := h.session
  fresh := h.fresh
  ran := h.ran
  nodup := h.nodup
  running := h.running
  distinct := h.distinct
  sequence p' k' := by
    by_cases hpk : p' = p ∧ k' = k
    · rw [hpk.1, hpk.2, slot_setSlot_self, hslot]
      exact h.sequence p k
    · rw [slot_setSlot_of_ne hpk]
      exact h.sequence p' k'

/-- A session with fresh slots has passed no compound. -/
lemma Inv.createSession (h : Inv s) : Inv (createSession s clientid maxoperations).1 := by
  obtain ⟨hworker, hpassed, hran, -, -, hallocated⟩ :=
    createSession_frame (s := s) clientid maxoperations
  refine ⟨fun id p hp => ?_, fun t p hp => ?_, fun p k => ?_, fun p k hp => ?_, fun r hr => ?_, ?_,
    fun t r hr => ?_, fun t t' r r' hr hr' => ?_⟩
  · rw [hallocated]
    rcases htSessionId_createSession hp with hold | hnew
    · exact Nat.lt_succ_of_lt (h.table id p hold)
    · rw [hnew]
      exact Nat.lt_succ_self _
  · rw [hallocated]
    rw [hworker] at hp
    exact Nat.lt_succ_of_lt (h.session t p hp)
  · rw [slot_createSession, hpassed]
    split_ifs with hp
    · rw [h.fresh p k (Nat.le_of_eq hp.symm)]
      rfl
    · exact h.sequence p k
  · rw [hallocated] at hp
    rw [hpassed]
    exact h.fresh p k (Nat.le_of_succ_le hp)
  · rw [hran] at hr
    rw [Passed, hpassed]
    exact h.ran r hr
  · rw [hran]
    exact h.nodup
  · rw [hworker] at hr
    rw [Passed, Next, hpassed, hran]
    exact h.running t r hr
  · rw [hworker] at hr hr'
    exact h.distinct t t' r r' hr hr'

/-- A session is deleted. -/
lemma Inv.sessionDel (h : Inv s) : Inv (sessionDel s id).1 := by
  rw [Nfs41.sessionDel]
  split
  · refine ⟨fun id' p hp => ?_, h.session, h.sequence, h.fresh, h.ran, h.nodup, h.running, h.distinct⟩
    simp only [Function.update_apply] at hp
    split_ifs at hp
    exact h.table id' p hp
  · exact h

/-- The lookup of the session runs nothing. -/
lemma Inv.findSession (h : Inv s) : Inv (findSession s t d) := by
  rw [Nfs41.findSession]
  split
  · exact h.fail
  · rename_i p hp
    split_ifs
    · exact h.fail
    · refine h.move (fun p' hp' => ?_) fun r hr => by cases hr
      rw [← Option.some.inj hp']
      exact h.table _ p hp

variable {c : Bool}

lemma passed_le_pass : s.passed p' k' ≤ (s.pass p k c).passed p' k' := by
  simp only [State.pass]
  split_ifs with hpk
  · rw [hpk.1, hpk.2]
    exact Nat.le_succ _
  · exact Nat.le_refl _

@[simp] lemma passed_pass_self {c : Bool} : (s.pass p k c).passed p k = s.passed p k + 1 := by
  simp [State.pass]

lemma slot_pass_of_ne (h : ¬(p' = p ∧ k' = k)) : (s.pass p k c).slot p' k' = s.slot p' k' :=
  slot_setSlot_of_ne h

@[simp] lemma slot_pass_self {c : Bool} : (s.pass p k c).slot p k =
    ⟨((s.slot p k).sequence + 1) % 2 ^ 32, none, (s.slot p k).cachedResult, c⟩ :=
  slot_setSlot_self

lemma Passed.pass {r : Run} (h : Passed s r) : Passed (s.pass p k c) r :=
  ⟨h.1, h.2.1, Nat.le_trans h.2.2 passed_le_pass⟩

/-- The number of a slot grows by one and a new serial is passed. -/
lemma Inv.pass (h : Inv s) (hp : p < s.allocated) : Inv (s.pass p k c) where
  table := h.table
  session := h.session
  nodup := h.nodup
  distinct := h.distinct
  sequence p' k' := by
    by_cases hpk : p' = p ∧ k' = k
    · rw [hpk.1, hpk.2, slot_pass_self, passed_pass_self, h.sequence]
      exact Nat.mod_add_mod _ _ _
    · rw [slot_pass_of_ne hpk, h.sequence]
      simp only [State.pass, if_neg hpk]
  fresh p' k' hp' := by
    have hne : ¬(p' = p ∧ k' = k) := fun hpk => absurd (hpk.1 ▸ hp') (Nat.not_le_of_lt hp)
    simp only [State.pass, if_neg hne]
    exact h.fresh p' k' hp'
  ran r hr := (h.ran r hr).pass
  running t r hr := ⟨(h.running t r hr).1.pass, (h.running t r hr).2⟩

/-- SEQUENCE: refused, replayed or passed. -/
lemma Inv.opSequence (h : Inv s) (hpc : s.worker t = .locked d p) : Inv (opSequence s t d p) := by
  have hp : p < s.allocated := h.session t p (by rw [hpc]; rfl)
  rw [Nfs41.opSequence]
  split_ifs with hturn hlast hcached
  · exact h.record.move_out rfl rfl
  · exact h.fail
  · have hslot : Inv (s.setSlot p d.args.slotid { s.slot p d.args.slotid with lock := none }) :=
      h.setSlot rfl
    exact hslot.fail
  · have hserial : ∀ r : Run, Passed s r → r.session = p → r.slot = d.args.slotid →
        r.serial ≠ s.passed p d.args.slotid + 1 := by
      rintro r ⟨-, -, hle⟩ rfl hslot hserial
      rw [hslot] at hle
      omega
    rw [not_not, h.sequence, Nat.mod_add_mod] at hturn
    have hnew : (s.pass p d.args.slotid d.args.cachethis).passed p d.args.slotid =
      s.passed p d.args.slotid + 1 := passed_pass_self
    refine (h.pass hp).record.move (fun p' hp' => ?_) fun r hr => ?_
    · rw [← Option.some.inj hp']
      exact hp
    · rw [← Option.some.inj hr]
      -- the compounds that passed before have smaller serial numbers
      refine ⟨⟨?_, ?_, ?_⟩, fun r' hr' hsame => ?_, fun t' r' ht' hr' hsame => ?_⟩
      · show d.args.sequenceid = (s.pass p d.args.slotid d.args.cachethis).passed p d.args.slotid % 2 ^ 32
        rw [hnew, hturn]
      · show 0 < (s.pass p d.args.slotid d.args.cachethis).passed p d.args.slotid
        rw [hnew]
        exact Nat.succ_pos _
      · exact Nat.le_refl _
      · exact absurd (hsame.2.2.trans hnew) (hserial r' (h.ran r' hr') hsame.1 hsame.2.1)
      · refine absurd (hsame.2.2.symm.trans hnew) ?_
        exact hserial r' (h.running t' r' hr').1 hsame.1.symm hsame.2.1.symm

variable {left : List Argop}

/-- The loop moves on to the next operation. -/
lemma Inv.advance {d' : Data} {left' : List Argop} (h : Inv s) (hpc : s.worker t = .loop d i left)
    (hargs : d'.args = d.args) (hpsession : d'.psession = d.psession) (hserial : d'.serial = d.serial) :
    Inv (s.move t (.loop d' (i + 1) left')) := by
  refine h.move (fun p hp => ?_) fun r hr => ?_
  · refine h.session t p ?_
    rw [hpc]
    exact hpsession.symm.trans hp
  · -- the operation before this one, which the invariant speaks of
    simp only [Pc.running, hpsession, hargs, hserial, Option.map_eq_some_iff] at hr
    obtain ⟨p, hp, rfl⟩ := hr
    have hcurrent : (s.worker t).running =
        some ⟨p, d.args.slotid, d.serial, d.args.sequenceid, i⟩ := by
      rw [hpc, Pc.running, hp]
      rfl
    obtain ⟨hpassed, hnext⟩ := h.running t _ hcurrent
    refine ⟨hpassed, fun r' hr' hsame => ?_, fun t' r' ht' hr' hsame => ?_⟩
    · exact Nat.lt_succ_of_lt (hnext r' hr' hsame)
    · exact ht' (h.distinct t t' _ r' hcurrent hr' hsame).symm

lemma worker_sessionDel : (sessionDel s id).1.worker = s.worker := by
  rw [sessionDel]
  split <;> rfl

/-- A worker ends the loop or goes on with it, and nothing else changes of what the counts of the calls
depend on. -/
structure Called (s s' : State R) (t i : ℕ) : Prop where
  ran : s'.ran = s.ran
  passed : s'.passed = s.passed
  other : ∀ t', t' ≠ t → s'.worker t' = s.worker t'
  self : ∀ r, (s'.worker t).running = some r → r.oppos = i + 1

lemma called_fail {body : Body R} :
    Called s (fail s t d i status body) t i where
  ran := rfl
  passed := rfl
  other _ ht' := worker_move_of_ne ht'
  self r hr := by
    rw [fail, worker_move_self] at hr
    cases hr

/-- The loop moves on. -/
lemma called_advance {d₁ d' : Data} {j : ℕ} :
    Called s ((s.record d₁ j res).move t (.loop d' (i + 1) left)) t i where
  ran := rfl
  passed := rfl
  other _ ht' := worker_move_of_ne ht'
  self r hr := by
    rw [worker_move_self, Pc.running, Option.map_eq_some_iff] at hr
    obtain ⟨p, -, rfl⟩ := hr
    rfl

lemma Called.of_eq {s₁ : State R} (h : Called s₁ s' t i) (hran : s₁.ran = s.ran)
    (hpassed : s₁.passed = s.passed) (hworker : s₁.worker = s.worker) : Called s s' t i where
  ran := h.ran.trans hran
  passed := h.passed.trans hpassed
  other t' ht' := by rw [h.other t' ht', hworker]
  self := h.self

variable {body : R}

/-- What an operation may change apart from its own call. -/
lemma called_callOp {op : Argop} : Called s (callOp s t d i op left status body) t i := by
  cases op with
  | sequence => exact called_fail
  | createSession clientid maxoperations =>
    obtain ⟨hworker, hpassed, hran, -⟩ := createSession_frame (s := s) clientid maxoperations
    rw [callOp]
    split_ifs
    · exact called_fail
    · exact called_advance.of_eq hran hpassed hworker
    · exact called_fail.of_eq hran hpassed hworker
  | destroySession id =>
    have hran : (sessionDel s id).1.ran = s.ran := by
      rw [sessionDel]
      split <;> rfl
    have hpassed : (sessionDel s id).1.passed = s.passed := by
      rw [sessionDel]
      split <;> rfl
    rw [callOp]
    split_ifs
    · exact called_fail.of_eq hran hpassed worker_sessionDel
    · exact called_advance.of_eq hran hpassed worker_sessionDel
  | other =>
    rw [callOp]
    split_ifs
    · exact called_fail
    · exact called_advance

/-- One operation of the loop. -/
lemma Inv.callOp {op : Argop} (h : Inv s) (hpc : s.worker t = .loop d i (op :: left)) :
    Inv (callOp s t d i op left status body) := by
  cases op with
  | sequence => exact h.fail
  | createSession clientid maxoperations =>
    have hcreate := @Inv.createSession R s clientid maxoperations h
    have hworker := (createSession_frame (s := s) clientid maxoperations).1
    rw [Nfs41.callOp]
    split_ifs
    · exact h.fail
    · refine hcreate.record.advance (Eq.trans ?_ hpc) rfl rfl rfl
      rw [← hworker]
      rfl
    · exact hcreate.fail
  | destroySession id =>
    rw [Nfs41.callOp]
    split_ifs
    · exact h.sessionDel.fail
    · refine h.sessionDel.record.advance (Eq.trans ?_ hpc) rfl rfl rfl
      rw [← worker_sessionDel (s := s)]
      rfl
  | other =>
    rw [Nfs41.callOp]
    split_ifs
    · exact h.fail
    · exact h.record.advance hpc rfl rfl rfl

/-- The call is noted after the operation was carried out. -/
lemma Inv.note (h : Inv s) (hpc : s.worker t = .loop d i left) (hcalled : Called s s' t i) (h' : Inv s') :
    Inv (s'.note d i) := by
  cases hpsession : d.psession with
  | none =>
    rw [State.note, hpsession]
    exact h'
  | some p =>
    have hcurrent : (s.worker t).running =
        some ⟨p, d.args.slotid, d.serial, d.args.sequenceid, i⟩ := by
      rw [hpc, Pc.running, hpsession]
      rfl
    obtain ⟨hpassed, hnext⟩ := h.running t _ hcurrent
    have hpassed' : Passed s' ⟨p, d.args.slotid, d.serial, d.args.sequenceid, i⟩ := by
      rw [Passed, hcalled.passed]
      exact hpassed
    rw [State.note, hpsession]
    refine ⟨h'.table, h'.session, h'.sequence, h'.fresh, fun r hr => ?_, ?_, fun t' r hr => ?_,
      h'.distinct⟩
    · rcases List.mem_append.mp hr with hr | hr
      · exact h'.ran r hr
      · rw [List.mem_singleton.mp hr]
        exact hpassed'
    · refine List.Nodup.append h'.nodup (List.nodup_singleton _) fun r hr hsingle => ?_
      rw [List.mem_singleton.mp hsingle, hcalled.ran] at hr
      exact absurd (hnext _ hr ⟨rfl, rfl, rfl⟩) (Nat.lt_irrefl i)
    · refine ⟨(h'.running t' r hr).1, fun r' hr' hsame => ?_⟩
      rcases List.mem_append.mp hr' with hr' | hr'
      · exact (h'.running t' r hr).2 r' hr' hsame
      · rw [List.mem_singleton.mp hr'] at hsame ⊢
        by_cases ht : t' = t
        · rw [hcalled.self r (ht ▸ hr)]
          exact Nat.lt_succ_self i
        · have hr : (s.worker t').running = some r := by
            rw [← hcalled.other t' ht]
            exact hr
          exact absurd (h.distinct t t' _ r hcurrent hr hsame).symm ht

/-- One operation of the loop. -/
lemma Inv.nextOp (h : Inv s) (hpc : s.worker t = .loop d i left) : Inv (nextOp s t d i left status body) := by
  cases left with
  | nil => exact h.move_out rfl rfl
  | cons op left =>
    rw [Nfs41.nextOp]
    split_ifs
    · exact h.record.move_out rfl rfl
    · exact h.note hpc called_callOp (h.callOp hpc)

/-- The answer from the slot. -/
lemma Inv.replay (h : Inv s) : Inv (replay s t d) := by
  rw [Nfs41.replay]
  split
  · rename_i p k _
    have hnote : Inv (s.noteReplay p k) :=
      ⟨h.table, h.session, h.sequence, h.fresh, h.ran, h.nodup, h.running, h.distinct⟩
    exact hnote.move_out rfl rfl
  · exact h.move_out rfl rfl

lemma Inv.cache {place : Option Place} {pres : Compound4res} (h : Inv s) : Inv (s.cache place pres) := by
  unfold State.cache
  split
  · exact h.setSlot rfl
  · exact h

/-- The end of a compound. -/
lemma Inv.store (h : Inv s) : Inv (store s t d) := by
  have hcache := @Inv.cache R s d.pcachedRes { d.pres with status := d.status } h
  have hfinish : Inv ((s.cache d.pcachedRes { d.pres with status := d.status }).finish d
      { d.pres with status := d.status }) :=
    ⟨hcache.table, hcache.session, hcache.sequence, hcache.fresh, hcache.ran, hcache.nodup,
      hcache.running, hcache.distinct⟩
  exact hfinish.move_out rfl rfl

lemma Inv.lock (h : Inv s) (hpc : s.worker t = .found d p) :
    Inv ((s.setSlot p d.args.slotid { s.slot p d.args.slotid with lock := some t }).move t
      (.locked d p)) := by
  have hslot : Inv (s.setSlot p d.args.slotid { s.slot p d.args.slotid with lock := some t }) :=
    h.setSlot rfl
  refine hslot.move (fun p' hp' => ?_) fun r hr => by cases hr
  rw [← Option.some.inj hp']
  exact h.session t p (by rw [hpc]; rfl)

variable {e : Event R}

/-- What one step can do, one case for each action of a worker. -/
lemma step_cases (hs : step s e = some s') :
    (∃ clientid maxoperations, s' = (createSession s clientid maxoperations).1) ∨
    (∃ id, s' = (sessionDel s id).1) ∨
    (∃ t args ops array, s.worker t = .idle ∧ s' = receive s t args ops array) ∨
    (∃ t d, s.worker t = .received d ∧ s' = findSession s t d) ∨
    (∃ t d p, s.worker t = .found d p ∧ (s.slot p d.args.slotid).lock = none ∧
      s' = (s.setSlot p d.args.slotid { s.slot p d.args.slotid with lock := some t }).move t
        (.locked d p)) ∨
    (∃ t d p, e = .sequence t ∧ s.worker t = .locked d p ∧ s' = opSequence s t d p) ∨
    (∃ t d i left status body, e = .op t status body ∧ s.worker t = .loop d i left ∧
      s' = nextOp s t d i left status body) ∨
    (∃ t d, s.worker t = .replaying d ∧ s' = replay s t d) ∨
    (∃ t d, s.worker t = .ending d ∧ s' = store s t d) ∨
    (∃ t d replies, s.worker t = .stored d ∧ s' = { s.move t (.sent d) with replies := replies }) ∨
    ∃ t d, s.worker t = .sent d ∧ s' = (compoundFree s d.pres).move t .idle := by
  cases e with
  | createSession clientid maxoperations =>
    exact .inl ⟨clientid, maxoperations, (Option.some.inj hs).symm⟩
  | destroySession id => exact .inr (.inl ⟨id, (Option.some.inj hs).symm⟩)
  | receive t args ops array =>
    rw [step] at hs
    split at hs
    · rename_i hpc
      split_ifs at hs
      exact .inr (.inr (.inl ⟨t, args, ops, array, hpc, (Option.some.inj hs).symm⟩))
    · cases hs
  | find t =>
    rw [step] at hs
    split at hs
    · rename_i d hpc
      exact .inr (.inr (.inr (.inl ⟨t, d, hpc, (Option.some.inj hs).symm⟩)))
    · cases hs
  | lock t =>
    rw [step] at hs
    split at hs
    · rename_i d p hpc
      split_ifs at hs with hlock
      exact .inr (.inr (.inr (.inr (.inl ⟨t, d, p, hpc, hlock, (Option.some.inj hs).symm⟩))))
    · cases hs
  | sequence t =>
    rw [step] at hs
    split at hs
    · rename_i d p hpc
      exact .inr (.inr (.inr (.inr (.inr (.inl ⟨t, d, p, rfl, hpc, (Option.some.inj hs).symm⟩)))))
    · cases hs
  | op t status body =>
    rw [step] at hs
    split at hs
    · rename_i d i left hpc
      exact .inr (.inr (.inr (.inr (.inr (.inr (.inl
        ⟨t, d, i, left, status, body, rfl, hpc, (Option.some.inj hs).symm⟩))))))
    · cases hs
  | replay t =>
    rw [step] at hs
    split at hs
    · rename_i d hpc
      exact .inr (.inr (.inr (.inr (.inr (.inr (.inr (.inl
        ⟨t, d, hpc, (Option.some.inj hs).symm⟩)))))))
    · cases hs
  | store t =>
    rw [step] at hs
    split at hs
    · rename_i d hpc
      exact .inr (.inr (.inr (.inr (.inr (.inr (.inr (.inr (.inl
        ⟨t, d, hpc, (Option.some.inj hs).symm⟩))))))))
    · cases hs
  | send t =>
    rw [step] at hs
    split at hs
    · rename_i d hpc
      exact .inr (.inr (.inr (.inr (.inr (.inr (.inr (.inr (.inr (.inl
        ⟨t, d, _, hpc, (Option.some.inj hs).symm⟩)))))))))
    · cases hs
  | free t =>
    rw [step] at hs
    split at hs
    · rename_i d hpc
      exact .inr (.inr (.inr (.inr (.inr (.inr (.inr (.inr (.inr (.inr
        ⟨t, d, hpc, (Option.some.inj hs).symm⟩)))))))))
    · cases hs

/-- Every step keeps the invariant. -/
lemma Inv.step (h : Inv s) (hs : step s e = some s') : Inv s' := by
  rcases step_cases hs with ⟨clientid, maxoperations, rfl⟩ | ⟨id, rfl⟩ | ⟨t, args, ops, array, hpc, rfl⟩ |
    ⟨t, d, hpc, rfl⟩ | ⟨t, d, p, hpc, -, rfl⟩ | ⟨t, d, p, -, hpc, rfl⟩ |
    ⟨t, d, i, left, status, body, -, hpc, rfl⟩ | ⟨t, d, hpc, rfl⟩ | ⟨t, d, hpc, rfl⟩ |
    ⟨t, d, replies, hpc, rfl⟩ | ⟨t, d, hpc, rfl⟩
  · exact h.createSession
  · exact h.sessionDel
  · exact h.heap.move_out rfl rfl
  · exact h.findSession
  · exact h.lock hpc
  · exact h.opSequence hpc
  · exact h.nextOp hpc
  · exact h.replay
  · exact h.store
  · have hmove : Inv (s.move t (.sent d)) := h.move_out rfl rfl
    exact ⟨hmove.table, hmove.session, hmove.sequence, hmove.fresh, hmove.ran, hmove.nodup,
      hmove.running, hmove.distinct⟩
  · exact h.heap.move_out rfl rfl

/-! ## The locks of the slots -/

/-- A slot is locked by a worker that is inside `nfs41_op_sequence` for it. -/
def Released (s : State R) : Prop :=
  ∀ p k t, (s.slot p k).lock = some t → ∃ d, s.worker t = .locked d p ∧ d.args.slotid = k

/-- No compound comes with the sequence id that its slot has. -/
def NoRetransmission (s : State R) : Event R → Prop
  | .sequence t => ∀ d p, s.worker t = .locked d p → (s.slot p d.args.slotid).sequence ≠ d.args.sequenceid
  | _ => True

/-- One worker moves, and no slot is locked. -/
structure Moves (s s' : State R) (t : ℕ) : Prop where
  other : ∀ t', t' ≠ t → s'.worker t' = s.worker t'
  lock : ∀ p k, (s'.slot p k).lock = (s.slot p k).lock ∨ (s'.slot p k).lock = none

lemma moves_move : Moves s (s.move t pc) t where
  other _ ht' := worker_move_of_ne ht'
  lock _ _ := .inl rfl

lemma moves_fail {body : Body R} : Moves s (fail s t d i status body) t where
  other _ ht' := worker_move_of_ne ht'
  lock _ _ := .inl rfl

lemma Moves.trans {s₁ : State R} (h : Moves s s₁ t) (h' : Moves s₁ s' t) : Moves s s' t where
  other t' ht' := (h'.other t' ht').trans (h.other t' ht')
  lock p k := by
    rcases h'.lock p k with hsame | hnone
    · rw [hsame]
      exact h.lock p k
    · exact .inr hnone

lemma moves_createSession :
    Moves s (createSession s clientid maxoperations).1 t where
  other t' _ := congrFun (createSession_frame clientid maxoperations).1 t'
  lock p k := by
    rw [slot_createSession]
    split_ifs
    · exact .inr rfl
    · exact .inl rfl

lemma moves_sessionDel : Moves s (sessionDel s id).1 t where
  other t' _ := congrFun worker_sessionDel t'
  lock p k := by
    rw [sessionDel]
    split
    · exact .inl rfl
    · exact .inl rfl

lemma moves_record : Moves s ((s.record d i res).move t pc) t where
  other _ ht' := worker_move_of_ne ht'
  lock _ _ := .inl rfl

/-- The lookup moves its worker. -/
lemma moves_findSession : Moves s (findSession s t d) t := by
  rw [findSession]
  split
  · exact moves_fail
  · split_ifs
    · exact moves_fail
    · exact moves_move

/-- Between SEQUENCE and the end a worker only moves itself. -/
lemma moves_nextOp : Moves s (nextOp s t d i left status body) t := by
  cases left with
  | nil => exact moves_move
  | cons op left =>
    have hcall : Moves s (callOp s t d i op left status body) t := by
      cases op with
      | sequence => exact moves_fail
      | createSession clientid maxoperations =>
        rw [callOp]
        split_ifs
        · exact moves_fail
        · exact moves_createSession.trans moves_record
        · exact moves_createSession.trans moves_fail
      | destroySession id =>
        rw [callOp]
        split_ifs
        · exact moves_sessionDel.trans moves_fail
        · exact moves_sessionDel.trans moves_record
      | other =>
        rw [callOp]
        split_ifs
        · exact moves_fail
        · exact moves_record
    rw [nextOp]
    split_ifs
    · exact moves_record
    · exact ⟨hcall.other, hcall.lock⟩

lemma lock_setSlot (hslot : slot.lock = (s.slot p k).lock) :
    ((s.setSlot p k slot).slot p' k').lock = (s.slot p' k').lock := by
  by_cases hpk : p' = p ∧ k' = k
  · rw [hpk.1, hpk.2, slot_setSlot_self, hslot]
  · rw [slot_setSlot_of_ne hpk]

lemma moves_replay : Moves s (replay s t d) t := by
  rw [replay]
  split
  · exact ⟨fun t' ht' => worker_move_of_ne ht', fun p k => .inl rfl⟩
  · exact moves_move

/-- The end moves its worker. -/
lemma moves_store : Moves s (store s t d) t := by
  have hcache : Moves s (s.cache d.pcachedRes { d.pres with status := d.status }) t := by
    unfold State.cache
    split
    · exact ⟨fun _ _ => rfl, fun p k => .inl (lock_setSlot rfl)⟩
    · exact ⟨fun _ _ => rfl, fun p k => .inl rfl⟩
  exact hcache.trans ⟨fun t' ht' => worker_move_of_ne ht', fun p k => .inl rfl⟩

/-- A step that leaves the locks alone keeps `Released`. -/
lemma Released.moves (h : Released s) (hmoves : Moves s s' t)
    (ht : s'.worker t = s.worker t ∨ ∀ d p, s.worker t ≠ .locked d p) : Released s' := by
  intro p k t' hlock
  have hold : (s.slot p k).lock = some t' := by
    rcases hmoves.lock p k with hsame | hnone
    · rw [← hsame]
      exact hlock
    · rw [hnone] at hlock
      cases hlock
  obtain ⟨d, hworker, hslot⟩ := h p k t' hold
  refine ⟨d, ?_, hslot⟩
  by_cases htt : t' = t
  · rcases ht with hsame | hout
    · rw [htt, hsame, ← htt]
      exact hworker
    · exact absurd (htt ▸ hworker) (hout d p)
  · rw [hmoves.other t' htt]
    exact hworker

/-- The lock of the slot is given back where the worker leaves it. -/
lemma Released.unlock (h : Released s) (hpc : s.worker t = .locked d p) (hslot : slot.lock = none) :
    Released ((s.setSlot p d.args.slotid slot).move t pc) := by
  intro p' k' t' hlock
  rw [slot_move] at hlock
  by_cases hpk : p' = p ∧ k' = d.args.slotid
  · rw [hpk.1, hpk.2, slot_setSlot_self, hslot] at hlock
    cases hlock
  · rw [slot_setSlot_of_ne hpk] at hlock
    obtain ⟨d', hworker, hk'⟩ := h p' k' t' hlock
    have ht' : t' ≠ t := by
      intro htt
      rw [htt, hpc] at hworker
      obtain ⟨rfl, rfl⟩ := Pc.locked.inj hworker
      exact hpk ⟨rfl, hk'.symm⟩
    rw [worker_move_of_ne ht']
    exact ⟨d', hworker, hk'⟩

/-- The worker holds the lock it has just taken. -/
lemma Released.lock (h : Released s) (hpc : s.worker t = .found d p) :
    Released ((s.setSlot p d.args.slotid { s.slot p d.args.slotid with lock := some t }).move t
      (.locked d p)) := by
  intro p' k' t' hlock
  rw [slot_move] at hlock
  by_cases hpk : p' = p ∧ k' = d.args.slotid
  · rw [hpk.1, hpk.2, slot_setSlot_self] at hlock
    rw [← Option.some.inj hlock, worker_move_self]
    exact ⟨d, by rw [hpk.1], hpk.2.symm⟩
  · rw [slot_setSlot_of_ne hpk] at hlock
    obtain ⟨d', hworker, hk'⟩ := h p' k' t' hlock
    have ht' : t' ≠ t := by
      intro htt
      rw [htt, hpc] at hworker
      cases hworker
    rw [worker_move_of_ne ht']
    exact ⟨d', hworker, hk'⟩

/-- Every step without a retransmission keeps `Released`. -/
lemma Released.step (h : Released s) (hno : NoRetransmission s e) (hs : step s e = some s') : Released s' := by
  rcases step_cases hs with ⟨clientid, maxoperations, rfl⟩ | ⟨id, rfl⟩ | ⟨t, args, ops, array, hpc, rfl⟩ |
    ⟨t, d, hpc, rfl⟩ | ⟨t, d, p, hpc, -, rfl⟩ | ⟨t, d, p, rfl, hpc, rfl⟩ |
    ⟨t, d, i, left, status, body, -, hpc, rfl⟩ | ⟨t, d, hpc, rfl⟩ | ⟨t, d, hpc, rfl⟩ |
    ⟨t, d, replies, hpc, rfl⟩ | ⟨t, d, hpc, rfl⟩
  · refine h.moves (t := 0) moves_createSession (.inl ?_)
    rw [(createSession_frame clientid maxoperations).1]
  · refine h.moves (t := 0) moves_sessionDel (.inl ?_)
    rw [worker_sessionDel]
  · refine h.moves (t := t) ⟨fun t' ht' => worker_move_of_ne ht', fun p k => .inl rfl⟩ (.inr ?_)
    simp [hpc]
  · exact h.moves moves_findSession (.inr (by simp [hpc]))
  · exact h.lock hpc
  · rw [opSequence]
    split_ifs with hturn hlast hcached
    · exact absurd hlast (hno d p hpc)
    · exact absurd hlast (hno d p hpc)
    · exact h.unlock hpc rfl
    · exact h.unlock hpc rfl
  · exact h.moves moves_nextOp (.inr (by simp [hpc]))
  · exact h.moves moves_replay (.inr (by simp [hpc]))
  · exact h.moves moves_store (.inr (by simp [hpc]))
  · refine h.moves (t := t) ⟨fun t' ht' => worker_move_of_ne ht', fun p k => .inl rfl⟩ (.inr ?_)
    simp [hpc]
  · refine h.moves (t := t) ⟨fun t' ht' => worker_move_of_ne ht', fun p k => .inl rfl⟩ (.inr ?_)
    simp [hpc]

end Ganesha.Nfs41
