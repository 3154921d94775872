import Ganesha.Nfs41.Theorems

/-!
# Replies from the cache of a slot

What is taken from the cache of a slot is what the last compound that the slot has let pass ended with,
if no two compounds with a cached reply are under way on one slot and no such compound creates a session
(`Cached`, `replayed_of_exclusive`).
-/

namespace Ganesha.Nfs41
open Library.Transition

variable {R : Type} {s s' : State R} {t p k : ℕ} {d : Data} {pc : Pc}

/-- Where a worker is going to copy its reply, or from where it is going to take it. -/
def Pc.place : Pc → Option Place
  | .loop d _ _ | .replaying d | .ending d => d.pcachedRes
  | _ => none

/-- A compound reaches a slot when no reply is on its way to the cache of the slot, and a compound with
a cached reply creates no session. -/
def Exclusive (s : State R) : Event R → Prop
  | .sequence t => ∀ d p, s.worker t = .locked d p →
    ∀ t', (s.worker t').place ≠ some (.slot p d.args.slotid)
  | .op t _ _ => ∀ d i clientid maxoperations left,
    s.worker t = .loop d i (.createSession clientid maxoperations :: left) → d.args.cachethis = false
  | _ => True

/-- The compound passed the slot last, if its reply goes to the cache. -/
def Passing (s : State R) (d : Data) : Prop :=
  ∃ p, d.psession = some p ∧ ∀ p' k, d.pcachedRes = some (.slot p' k) →
    p' = p ∧ k = d.args.slotid ∧ d.serial = s.passed p' k ∧ p' < s.allocated ∧ d.args.cachethis = true

/-- A reply of the compound that passed the slot last. -/
def LastReply (s : State R) (p k : ℕ) (pres : Compound4res) : Prop :=
  (⟨p, k, s.passed p k, pres⟩ : Reply) ∈ s.finished

/-- What is known of a worker from where it stands. -/
def Good (s : State R) : Pc → Prop
  | .received d | .found d _ | .locked d _ => d.psession = none ∧ d.pcachedRes = none
  | .loop d _ _ => Passing s d
  | .replaying d => d.psession = none ∧ ∃ p k, d.pcachedRes = some (.slot p k) ∧ p < s.allocated ∧
    LastReply s p k (s.slot p k).cachedResult
  | .ending d => Passing s d ∨ d.psession = none ∧ ∀ p k, d.pcachedRes = some (.slot p k) →
    p < s.allocated ∧ LastReply s p k { d.pres with status := d.status }
  | _ => True

/-- What runs with exclusive slots keep. -/
structure Cached (s : State R) : Prop where
  good : ∀ t, Good s (s.worker t)
  alone : ∀ t t' p k, (s.worker t).place = some (.slot p k) → (s.worker t').place = some (.slot p k) →
    t = t'
  kept : ∀ p k, (s.slot p k).cacheUsed = true →
    (∃ t, (s.worker t).place = some (.slot p k)) ∨ LastReply s p k (s.slot p k).cachedResult
  replayed : ∀ r ∈ s.replayed, r ∈ s.finished

/-- One worker moves, and the caches of the slots stay as they are. -/
structure Frame (s s' : State R) (t : ℕ) : Prop where
  other : ∀ t', t' ≠ t → s'.worker t' = s.worker t'
  passed : s'.passed = s.passed
  finished : s'.finished = s.finished
  replayed : s'.replayed = s.replayed
  allocated : s.allocated ≤ s'.allocated
  cached : ∀ p k, p < s.allocated → (s'.slot p k).cachedResult = (s.slot p k).cachedResult
  used : ∀ p k, (s'.slot p k).cacheUsed = true → (s.slot p k).cacheUsed = true ∧
    (s'.slot p k).cachedResult = (s.slot p k).cachedResult

/-- One step after the other. -/
lemma Frame.trans {s₁ : State R} (h : Frame s s₁ t) (h' : Frame s₁ s' t) : Frame s s' t where
  other t' ht' := (h'.other t' ht').trans (h.other t' ht')
  passed := h'.passed.trans h.passed
  finished := h'.finished.trans h.finished
  replayed := h'.replayed.trans h.replayed
  allocated := Nat.le_trans h.allocated h'.allocated
  cached p k hp := (h'.cached p k (Nat.lt_of_lt_of_le hp h.allocated)).trans (h.cached p k hp)
  used p k hused :=
    ⟨(h.used p k (h'.used p k hused).1).1, (h'.used p k hused).2.trans (h.used p k (h'.used p k hused).1).2⟩

/-- A worker moves. -/
lemma frame_move : Frame s (s.move t pc) t where
  other _ ht' := worker_move_of_ne ht'
  passed := rfl
  finished := rfl
  replayed := rfl
  allocated := Nat.le_refl _
  cached _ _ _ := rfl
  used _ _ hused := ⟨hused, rfl⟩

/-- The heap may change. -/
lemma frame_heap {heap : ℕ → Option (List (Resop R))} : Frame s ({ s with heap := heap }.move t pc) t where
  other _ ht' := worker_move_of_ne ht'
  passed := rfl
  finished := rfl
  replayed := rfl
  allocated := Nat.le_refl _
  cached _ _ _ := rfl
  used _ _ hused := ⟨hused, rfl⟩

variable {i : ℕ} {status : Nfsstat4}

lemma frame_fail {body : Body R} : Frame s (fail s t d i status body) t :=
  frame_heap

/-- A new session leaves the slots of the old ones alone. -/
lemma frame_createSession {clientid maxoperations : ℕ} :
    Frame s (createSession s clientid maxoperations).1 t := by
  obtain ⟨hworker, hpassed, -, hfinished, hreplayed, hallocated⟩ :=
    createSession_frame (s := s) clientid maxoperations
  refine ⟨fun t' _ => congrFun hworker t', hpassed, hfinished, hreplayed, ?_, fun p k hp => ?_,
    fun p k hused => ?_⟩
  · rw [hallocated]
    exact Nat.le_succ _
  · rw [slot_createSession, if_neg (Nat.ne_of_lt hp)]
  · rw [slot_createSession] at hused ⊢
    split_ifs at hused ⊢
    · cases hused
    · exact ⟨hused, rfl⟩

lemma frame_sessionDel {id : SessionId} : Frame s (sessionDel s id).1 t := by
  rw [sessionDel]
  split
  · exact ⟨fun _ _ => rfl, rfl, rfl, rfl, Nat.le_refl _, fun _ _ _ => rfl, fun _ _ hused => ⟨hused, rfl⟩⟩
  · exact ⟨fun _ _ => rfl, rfl, rfl, rfl, Nat.le_refl _, fun _ _ _ => rfl, fun _ _ hused => ⟨hused, rfl⟩⟩

/-- A slot written with its result and its flag as they were changes nothing else. -/
lemma frame_setSlot {slot : Slot} (hcached : slot.cachedResult = (s.slot p k).cachedResult)
    (hused : slot.cacheUsed = (s.slot p k).cacheUsed) : Frame s (s.setSlot p k slot) t := by
  refine ⟨fun _ _ => rfl, rfl, rfl, rfl, Nat.le_refl _, fun p' k' _ => ?_, fun p' k' h => ?_⟩
  · by_cases hpk : p' = p ∧ k' = k
    · rw [hpk.1, hpk.2, slot_setSlot_self, hcached]
    · rw [slot_setSlot_of_ne hpk]
  · by_cases hpk : p' = p ∧ k' = k
    · rw [hpk.1, hpk.2, slot_setSlot_self] at h ⊢
      exact ⟨hused ▸ h, hcached⟩
    · rw [slot_setSlot_of_ne hpk] at h ⊢
      exact ⟨h, rfl⟩

lemma Passing.of_le {d' : Data} (h : Passing s d) (hargs : d'.args = d.args)
    (hpsession : d'.psession = d.psession) (hserial : d'.serial = d.serial)
    (hplace : ∀ p k, d'.pcachedRes = some (.slot p k) → d.pcachedRes = some (.slot p k))
    (hpassed : ∀ p k, d'.pcachedRes = some (.slot p k) → p < s.allocated →
      s'.passed p k = s.passed p k) (hallocated : s.allocated ≤ s'.allocated) : Passing s' d' := by
  obtain ⟨p, hp, hcached⟩ := h
  refine ⟨p, hpsession.trans hp, fun p' k hpk => ?_⟩
  obtain ⟨h₁, h₂, h₃, h₄, h₅⟩ := hcached p' k (hplace p' k hpk)
  rw [hargs, hserial, hpassed p' k hpk h₄]
  exact ⟨h₁, h₂, h₃, Nat.lt_of_lt_of_le h₄ hallocated, h₅⟩

/-- A worker stays `Good` when its own slot does. -/
lemma Good.of_place (h : Good s pc) (hfinished : s.finished ⊆ s'.finished)
    (hallocated : s.allocated ≤ s'.allocated) (hslot : ∀ p k, pc.place = some (.slot p k) →
      p < s.allocated → s'.passed p k = s.passed p k ∧
        (s'.slot p k).cachedResult = (s.slot p k).cachedResult) : Good s' pc := by
  have hlast : ∀ {p k pres}, s'.passed p k = s.passed p k → LastReply s p k pres →
      LastReply s' p k pres := by
    intro p k pres hpassed hreply
    rw [LastReply, hpassed]
    exact hfinished hreply
  cases pc with
  | idle | stored d | sent d => trivial
  | received d => exact h
  | found d p | locked d p => exact h
  | loop d i left =>
    exact Passing.of_le h rfl rfl rfl (fun _ _ hp => hp) (fun p k hpk hp => (hslot p k hpk hp).1)
      hallocated
  | replaying d =>
    obtain ⟨hpsession, p, k, hplace, hp, hreply⟩ := h
    refine ⟨hpsession, p, k, hplace, Nat.lt_of_lt_of_le hp hallocated, ?_⟩
    rw [(hslot p k hplace hp).2]
    exact hlast (hslot p k hplace hp).1 hreply
  | ending d =>
    rcases h with hpassing | ⟨hpsession, hreply⟩
    · exact .inl (hpassing.of_le rfl rfl rfl (fun _ _ hp => hp)
        (fun p k hpk hp => (hslot p k hpk hp).1) hallocated)
    · refine .inr ⟨hpsession, fun p k hplace => ?_⟩
      obtain ⟨hp, hlastReply⟩ := hreply p k hplace
      exact ⟨Nat.lt_of_lt_of_le hp hallocated, hlast (hslot p k hplace hp).1 hlastReply⟩

lemma Good.frame (h : Good s pc) (hframe : Frame s s' t) : Good s' pc :=
  h.of_place (fun r hr => by rw [hframe.finished]; exact hr) hframe.allocated fun p k _ hp =>
    ⟨by rw [hframe.passed], hframe.cached p k hp⟩

/-- A step inside the frame of its own worker keeps `Cached`. -/
lemma Cached.frame (h : Cached s) (hframe : Frame s s' t) (hgood : Good s' (s'.worker t))
    (hplace : ∀ p k, (s'.worker t).place = some (.slot p k) ↔ (s.worker t).place = some (.slot p k)) :
    Cached s' := by
  have hplaces : ∀ t' p k, (s'.worker t').place = some (.slot p k) ↔
      (s.worker t').place = some (.slot p k) := by
    intro t' p k
    by_cases ht : t' = t
    · rw [ht]
      exact hplace p k
    · rw [hframe.other t' ht]
  refine ⟨fun t' => ?_, fun t₁ t₂ p k h₁ h₂ => ?_, fun p k hused => ?_, fun r hr => ?_⟩
  · by_cases ht : t' = t
    · rw [ht]
      exact hgood
    · rw [hframe.other t' ht]
      exact (h.good t').frame hframe
  · exact h.alone t₁ t₂ p k ((hplaces t₁ p k).mp h₁) ((hplaces t₂ p k).mp h₂)
  · obtain ⟨hold, hcached⟩ := hframe.used p k hused
    rcases h.kept p k hold with ⟨t', ht'⟩ | hreply
    · exact .inl ⟨t', (hplaces t' p k).mpr ht'⟩
    · right
      rw [LastReply, hframe.passed, hframe.finished, hcached]
      exact hreply
  · rw [hframe.replayed] at hr
    rw [hframe.finished]
    exact h.replayed r hr

lemma Cached.moves {pc₀ : Pc} (h : Cached s) (hpc : s.worker t = pc₀) (hframe : Frame s s' t)
    (hpc' : s'.worker t = pc) (hgood : Good s' pc)
    (hplace : ∀ p k, pc.place = some (.slot p k) ↔ pc₀.place = some (.slot p k)) : Cached s' := by
  refine h.frame hframe ?_ ?_
  · rw [hpc']
    exact hgood
  · rw [hpc', hpc]
    exact hplace

lemma Cached.same (h : Cached s) (hframe : Frame s s' t) (hworker : s'.worker = s.worker) : Cached s' :=
  h.moves rfl hframe (congrFun hworker t) ((h.good t).frame hframe) fun _ _ => Iff.rfl

/-- The lookup of the session touches no slot. -/
lemma Cached.findSession (h : Cached s) (hpc : s.worker t = .received d) :
    Cached (findSession s t d) := by
  have hgood : d.psession = none ∧ d.pcachedRes = none := by
    have hgood := h.good t
    rw [hpc] at hgood
    exact hgood
  have hplace : ∀ p k, d.pcachedRes = some (.slot p k) ↔ (Pc.received d).place = some (.slot p k) := by
    intro p k
    rw [hgood.2]
    exact Iff.rfl
  have hfail : ∀ status, Cached (fail s t d 0 status .zero) := by
    intro status
    refine h.moves hpc frame_fail worker_move_self (.inr ⟨hgood.1, fun p k hp => ?_⟩) hplace
    cases hgood.2.symm.trans hp
  rw [Nfs41.findSession]
  split
  · exact hfail _
  · split_ifs
    · exact hfail _
    · exact h.moves hpc frame_move worker_move_self hgood fun _ _ => Iff.rfl

variable {left : List Argop}

/-- A worker ends the loop, or goes on with it, after an operation that does not change the place of its
reply. -/
lemma Cached.ofLoop (h : Cached s) (hpc : s.worker t = .loop d i left) (hframe : Frame s s' t) {d' : Data}
    (hpc' : s'.worker t = .ending d' ∨
      ∃ j left', s'.worker t = .loop d' j left')
    (hargs : d'.args = d.args) (hpsession : d'.psession = d.psession) (hserial : d'.serial = d.serial)
    (hplace : ∀ p k, d'.pcachedRes = some (.slot p k) ↔ d.pcachedRes = some (.slot p k)) : Cached s' := by
  have hpassing : Passing s' d' := by
    have hgood := h.good t
    rw [hpc] at hgood
    exact Passing.of_le hgood hargs hpsession hserial (fun p k => (hplace p k).mp)
      (fun p k _ _ => by rw [hframe.passed]) hframe.allocated
  rcases hpc' with hpc' | ⟨j, left', hpc'⟩
  · exact h.moves hpc hframe hpc' (.inl hpassing) hplace
  · exact h.moves hpc hframe hpc' hpassing hplace

/-- An operation after SEQUENCE writes only where its compound may. -/
lemma Cached.callOp {op : Argop} {body : R} (h : Cached s) (hpc : s.worker t = .loop d i (op :: left))
    (hop : ∀ clientid maxoperations, op = .createSession clientid maxoperations →
      d.args.cachethis = false) :
    Cached (callOp s t d i op left status body) := by
  cases op with
  | sequence => exact h.ofLoop hpc frame_fail (.inl worker_move_self) rfl rfl rfl fun _ _ => Iff.rfl
  | createSession clientid maxoperations =>
    -- no reply is on its way to the slot, as the compound does not cache it
    have hplace : ∀ p k, some (Place.createSessionSlot clientid) = some (.slot p k) ↔
        d.pcachedRes = some (.slot p k) := by
      intro p k
      refine ⟨fun hp => (by cases hp), fun hp => ?_⟩
      have hgood := h.good t
      rw [hpc] at hgood
      obtain ⟨p', -, hcached⟩ := hgood
      have hcachethis := (hcached p k hp).2.2.2.2
      rw [hop clientid maxoperations rfl] at hcachethis
      cases hcachethis
    rw [Nfs41.callOp]
    split_ifs
    · exact h.ofLoop hpc frame_fail (.inl worker_move_self) rfl rfl rfl fun _ _ => Iff.rfl
    · exact h.ofLoop hpc (frame_createSession.trans frame_heap) (.inr ⟨_, _, worker_move_self⟩) rfl rfl
        rfl hplace
    · exact h.ofLoop hpc (frame_createSession.trans frame_fail) (.inl worker_move_self) rfl rfl rfl hplace
  | destroySession id =>
    rw [Nfs41.callOp]
    split_ifs
    · exact h.ofLoop hpc (frame_sessionDel.trans frame_fail) (.inl worker_move_self) rfl rfl rfl
        fun _ _ => Iff.rfl
    · exact h.ofLoop hpc (frame_sessionDel.trans frame_heap) (.inr ⟨_, _, worker_move_self⟩) rfl rfl rfl
        fun _ _ => Iff.rfl
  | other =>
    rw [Nfs41.callOp]
    split_ifs
    · exact h.ofLoop hpc frame_fail (.inl worker_move_self) rfl rfl rfl fun _ _ => Iff.rfl
    · exact h.ofLoop hpc frame_heap (.inr ⟨_, _, worker_move_self⟩) rfl rfl rfl fun _ _ => Iff.rfl

/-- The next operation, or the end of the loop. -/
lemma Cached.nextOp {body : R} (h : Cached s) (hpc : s.worker t = .loop d i left)
    (hop : ∀ clientid maxoperations left', left = .createSession clientid maxoperations :: left' →
      d.args.cachethis = false) :
    Cached (nextOp s t d i left status body) := by
  cases left with
  | nil => exact h.ofLoop hpc frame_move (.inl worker_move_self) rfl rfl rfl fun _ _ => Iff.rfl
  | cons op left =>
    rw [Nfs41.nextOp]
    split_ifs
    · exact h.ofLoop hpc frame_heap (.inl worker_move_self) rfl rfl rfl fun _ _ => Iff.rfl
    · have hcall : Cached (Nfs41.callOp s t d i op left status body) :=
        h.callOp hpc fun clientid maxoperations hcreate => hop clientid maxoperations left (by rw [hcreate])
      exact ⟨hcall.good, hcall.alone, hcall.kept, hcall.replayed⟩

/-- The answer to a retransmission is the result in the slot. -/
lemma Cached.replay (h : Cached s) (hpc : s.worker t = .replaying d) : Cached (replay s t d) := by
  have hgood := h.good t
  rw [hpc] at hgood
  obtain ⟨hpsession, p, k, hplace, hp, hreply⟩ := hgood
  have hnote : Cached (s.noteReplay p k) := by
    refine ⟨h.good, h.alone, h.kept, fun r hr => ?_⟩
    rcases List.mem_append.mp hr with hr | hr
    · exact h.replayed r hr
    · rw [List.mem_singleton.mp hr]
      exact hreply
  rw [Nfs41.replay, hplace]
  refine hnote.moves hpc frame_move worker_move_self (.inr ⟨hpsession, fun p' k' hp' => ?_⟩) fun p' k' => ?_
  · obtain ⟨rfl, rfl⟩ := Place.slot.inj (Option.some.inj hp')
    exact ⟨hp, hreply⟩
  · rw [Pc.place, Pc.place, hplace]

/-- After a worker took a free slot, each slot has one owner. -/
lemma alone_of_take {place : Place} (h : Cached s) (hother : ∀ t', t' ≠ t → s'.worker t' = s.worker t')
    (hself : ∀ p k, (s'.worker t).place = some (.slot p k) → place = .slot p k)
    (hfree : ∀ t', (s.worker t').place ≠ some place) (t₁ t₂ p k : ℕ)
    (h₁ : (s'.worker t₁).place = some (.slot p k)) (h₂ : (s'.worker t₂).place = some (.slot p k)) :
    t₁ = t₂ := by
  by_cases ht₁ : t₁ = t
  · by_cases ht₂ : t₂ = t
    · rw [ht₁, ht₂]
    · rw [hother t₂ ht₂, ← hself p k (ht₁ ▸ h₁)] at h₂
      exact absurd h₂ (hfree t₂)
  · rw [hother t₁ ht₁] at h₁
    by_cases ht₂ : t₂ = t
    · rw [← hself p k (ht₂ ▸ h₂)] at h₁
      exact absurd h₁ (hfree t₁)
    · rw [hother t₂ ht₂] at h₂
      exact h.alone t₁ t₂ p k h₁ h₂

/-- SEQUENCE with the previous number: the worker goes on to the cached result. -/
lemma Cached.take_replay {res : Resop R} (h : Cached s) (hpc : s.worker t = .locked d p) (hp : p < s.allocated)
    (hpsession : d.psession = none) (hused : (s.slot p d.args.slotid).cacheUsed = true)
    (hfree : ∀ t', (s.worker t').place ≠ some (.slot p d.args.slotid)) :
    Cached ((s.record d 0 res).move t
      (.replaying { d with pcachedRes := some (.slot p d.args.slotid), status := .ok })) := by
  refine ⟨fun t' => ?_, alone_of_take h (fun t' ht' => worker_move_of_ne ht') ?_ hfree, fun p' k' hused' => ?_,
    h.replayed⟩
  · by_cases ht : t' = t
    · rw [ht, worker_move_self]
      refine ⟨hpsession, p, d.args.slotid, rfl, hp, ?_⟩
      rcases h.kept p d.args.slotid hused with ⟨t', ht'⟩ | hreply
      · exact absurd ht' (hfree t')
      · exact hreply
    · rw [worker_move_of_ne ht]
      exact (h.good t').of_place (fun _ hr => hr) (Nat.le_refl _) fun _ _ _ _ => ⟨rfl, rfl⟩
  · intro p' k' hplace
    rw [worker_move_self] at hplace
    exact Option.some.inj hplace
  · rcases h.kept p' k' hused' with ⟨t', ht'⟩ | hreply
    · have hne : t' ≠ t := by
        intro ht
        rw [ht, hpc] at ht'
        cases ht'
      exact .inl ⟨t', by rw [worker_move_of_ne hne]; exact ht'⟩
    · exact .inr hreply

/-- SEQUENCE with the next number: the slot is cleared for the new compound. -/
lemma Cached.take_pass {res : Resop R} (h : Cached s) (hpc : s.worker t = .locked d p) (hp : p < s.allocated)
    (hfree : ∀ t', (s.worker t').place ≠ some (.slot p d.args.slotid)) :
    Cached (((s.pass p d.args.slotid d.args.cachethis).record d 0 res).move t
      (.loop (d.pass p ((s.pass p d.args.slotid d.args.cachethis).passed p d.args.slotid)) 1 d.ops)) := by
  have hpassed : ∀ p' k', ¬(p' = p ∧ k' = d.args.slotid) →
      (s.pass p d.args.slotid d.args.cachethis).passed p' k' = s.passed p' k' := by
    intro p' k' hpk
    simp only [State.pass, if_neg hpk]
  -- no other worker is at this slot
  have hnot : ∀ t' p' k', (s.worker t').place = some (.slot p' k') → ¬(p' = p ∧ k' = d.args.slotid) := by
    rintro t' p' k' hplace ⟨rfl, rfl⟩
    exact hfree t' hplace
  refine ⟨fun t' => ?_, alone_of_take h (fun t' ht' => worker_move_of_ne ht') ?_ hfree, fun p' k' hused => ?_,
    h.replayed⟩
  · by_cases ht : t' = t
    · rw [ht, worker_move_self]
      refine ⟨p, rfl, fun p' k' hplace => ?_⟩
      simp only [Data.pass] at hplace
      split_ifs at hplace with hcachethis
      obtain ⟨rfl, rfl⟩ := Place.slot.inj (Option.some.inj hplace)
      exact ⟨rfl, rfl, rfl, hp, hcachethis⟩
    · rw [worker_move_of_ne ht]
      refine (h.good t').of_place (fun _ hr => hr) (Nat.le_refl _) fun p' k' hplace _ => ?_
      have hpk := hnot t' p' k' hplace
      exact ⟨hpassed p' k' hpk, congrArg Slot.cachedResult (slot_pass_of_ne hpk)⟩
  · intro p' k' hplace
    rw [worker_move_self] at hplace
    simp only [Pc.place, Data.pass] at hplace
    split_ifs at hplace
    exact Option.some.inj hplace
  · by_cases hpk : p' = p ∧ k' = d.args.slotid
    · left
      obtain ⟨rfl, rfl⟩ := hpk
      have hcachethis : d.args.cachethis = true := by
        have hself := @slot_pass_self R s p' d.args.slotid d.args.cachethis
        exact (congrArg Slot.cacheUsed hself).symm.trans hused
      refine ⟨t, ?_⟩
      rw [worker_move_self]
      simp only [Pc.place, Data.pass, if_pos hcachethis]
    · have hold : (s.slot p' k').cacheUsed = true := by
        rw [← slot_pass_of_ne (c := d.args.cachethis) hpk]
        exact hused
      rcases h.kept p' k' hold with ⟨t', ht'⟩ | hreply
      · have hne : t' ≠ t := by
          intro ht
          rw [ht, hpc] at ht'
          cases ht'
        exact .inl ⟨t', by rw [worker_move_of_ne hne]; exact ht'⟩
      · right
        have hslot := slot_pass_of_ne (s := s) (c := d.args.cachethis) hpk
        show (⟨p', k', (s.pass p d.args.slotid d.args.cachethis).passed p' k',
          ((s.pass p d.args.slotid d.args.cachethis).slot p' k').cachedResult⟩ : Reply) ∈ s.finished
        rw [hpassed p' k' hpk, hslot]
        exact hreply

/-- The three answers of SEQUENCE. -/
lemma Cached.opSequence (h : Cached s) (hinv : Inv s) (hpc : s.worker t = .locked d p)
    (hfree : ∀ t', (s.worker t').place ≠ some (.slot p d.args.slotid)) : Cached (opSequence s t d p) := by
  have hgood : d.psession = none ∧ d.pcachedRes = none := by
    have hgood := h.good t
    rw [hpc] at hgood
    exact hgood
  have hp : p < s.allocated := hinv.session t p (by rw [hpc]; rfl)
  have hplace : ∀ p k, d.pcachedRes = some (.slot p k) ↔ (Pc.locked d p).place = some (.slot p k) := by
    intro p k
    rw [hgood.2]
    exact Iff.rfl
  have hfail : ∀ {s' : State R} {status}, Frame s s' t → Cached (fail s' t d 0 status .zero) := by
    intro s' status hframe
    refine h.moves hpc (hframe.trans frame_fail) worker_move_self (.inr ⟨hgood.1, fun p k hp => ?_⟩) ?_
    · cases hgood.2.symm.trans hp
    · exact hplace
  rw [Nfs41.opSequence]
  split_ifs with hturn hlast hused
  · exact h.take_replay hpc hp hgood.1 hused hfree
  · exact hfail ⟨fun _ _ => rfl, rfl, rfl, rfl, Nat.le_refl _, fun _ _ _ => rfl, fun _ _ hused => ⟨hused, rfl⟩⟩
  · exact hfail (frame_setSlot rfl rfl)
  · exact h.take_pass hpc hp hfree

/-- Another slot keeps its result. -/
lemma slot_cache_of_ne {place : Option Place} {pres : Compound4res} (h : place ≠ some (.slot p k)) :
    (s.cache place pres).slot p k = s.slot p k := by
  unfold State.cache
  split
  · rename_i p' k'
    refine slot_setSlot_of_ne ?_
    rintro ⟨rfl, rfl⟩
    exact h rfl
  · rfl

@[simp] lemma slot_cache_self {pres : Compound4res} :
    (s.cache (some (.slot p k)) pres).slot p k = { s.slot p k with cachedResult := pres } :=
  slot_setSlot_self

@[simp] lemma worker_cache {place : Option Place} {pres : Compound4res} :
    (s.cache place pres).worker = s.worker := by
  unfold State.cache
  split <;> rfl

lemma cache_frame {place : Option Place} {pres : Compound4res} :
    (s.cache place pres).passed = s.passed ∧ (s.cache place pres).allocated = s.allocated ∧
      (s.cache place pres).finished = s.finished ∧ (s.cache place pres).replayed = s.replayed := by
  unfold State.cache
  split <;> exact ⟨rfl, rfl, rfl, rfl⟩

/-- The reply that a worker copies to a slot is the one of the compound that the slot has let pass
last. -/
lemma Cached.lastReply_store (h : Cached s) (hpc : s.worker t = .ending d)
    (hplace : d.pcachedRes = some (.slot p k)) :
    LastReply (store s t d) p k { d.pres with status := d.status } := by
  obtain ⟨hpassed, -, hfinished, -⟩ :=
    @cache_frame R s d.pcachedRes { d.pres with status := d.status }
  have hgood := h.good t
  rw [hpc] at hgood
  show (⟨p, k, (s.cache d.pcachedRes _).passed p k, _⟩ : Reply) ∈ State.finished (State.finish _ d _)
  rw [hpassed]
  rcases hgood with ⟨p', hp', hcached⟩ | ⟨hpsession, hreply⟩
  · obtain ⟨rfl, rfl, hserial, -⟩ := hcached p k hplace
    rw [State.finish, hp', ← hserial]
    exact List.mem_append_right _ (List.mem_singleton_self _)
  · rw [State.finish, hpsession, hfinished]
    exact (hreply p k hplace).2

/-- At the end of a compound its result is kept where it was asked for. -/
lemma Cached.store (h : Cached s) (hpc : s.worker t = .ending d) : Cached (store s t d) := by
  obtain ⟨hpassed, hallocated, hfinished, hreplayed⟩ :=
    @cache_frame R s d.pcachedRes { d.pres with status := d.status }
  have hmono : s.finished ⊆ (Nfs41.store s t d).finished := by
    intro r hr
    show r ∈ State.finished (State.finish _ d _)
    rw [State.finish, hfinished]
    split
    · exact List.mem_append_left _ hr
    · exact hr
  have hother : ∀ t', t' ≠ t → (Nfs41.store s t d).worker t' = s.worker t' := by
    intro t' ht'
    refine (worker_move_of_ne ht').trans ?_
    exact congrFun worker_cache t'
  have hself : (Nfs41.store s t d).worker t =
      .stored { d with pres := { d.pres with status := d.status } } := worker_move_self
  have hslot : ∀ p k, d.pcachedRes ≠ some (.slot p k) → (Nfs41.store s t d).slot p k = s.slot p k :=
    fun p k hne => slot_cache_of_ne hne
  refine ⟨fun t' => ?_, fun t₁ t₂ p k h₁ h₂ => ?_, fun p k hused => ?_, fun r hr => ?_⟩
  · by_cases ht : t' = t
    · rw [ht, hself]
      trivial
    · rw [hother t' ht]
      refine (h.good t').of_place hmono (Nat.le_of_eq hallocated.symm) fun p k hplace _ => ?_
      -- the place of another worker is another slot
      have hne : d.pcachedRes ≠ some (.slot p k) := by
        intro hd
        refine ht (h.alone t' t p k hplace ?_)
        rw [hpc]
        exact hd
      exact ⟨congrFun (congrFun hpassed p) k, by rw [hslot p k hne]⟩
  · have hne : ∀ t', ((Nfs41.store s t d).worker t').place = some (.slot p k) → t' ≠ t := by
      intro t' hplace ht
      rw [ht, hself] at hplace
      cases hplace
    rw [hother t₁ (hne t₁ h₁)] at h₁
    rw [hother t₂ (hne t₂ h₂)] at h₂
    exact h.alone t₁ t₂ p k h₁ h₂
  · by_cases hplace : d.pcachedRes = some (.slot p k)
    · have hcached : ((Nfs41.store s t d).slot p k).cachedResult = { d.pres with status := d.status } := by
        show ((s.cache d.pcachedRes _).slot p k).cachedResult = _
        rw [hplace, slot_cache_self]
      right
      rw [hcached]
      exact h.lastReply_store hpc hplace
    · rw [hslot p k hplace] at hused ⊢
      rcases h.kept p k hused with ⟨t', ht'⟩ | hreply
      · have hne : t' ≠ t := by
          intro ht
          rw [ht, hpc] at ht'
          exact hplace ht'
        exact .inl ⟨t', by rw [hother t' hne]; exact ht'⟩
      · right
        show (⟨p, k, (s.cache d.pcachedRes _).passed p k, _⟩ : Reply) ∈ _
        rw [hpassed]
        exact hmono hreply
  · exact hmono (h.replayed r (by rw [← hreplayed]; exact hr))

/-- Every step that keeps the slots exclusive keeps `Cached`. -/
lemma Cached.step {e : Event R} (h : Cached s) (hinv : Inv s) (hexclusive : Exclusive s e)
    (hs : step s e = some s') : Cached s' := by
  rcases step_cases hs with ⟨clientid, maxoperations, rfl⟩ | ⟨id, rfl⟩ | ⟨t, args, ops, array, hpc, rfl⟩ |
    ⟨t, d, hpc, rfl⟩ | ⟨t, d, p, hpc, -, rfl⟩ | ⟨t, d, p, rfl, hpc, rfl⟩ |
    ⟨t, d, i, left, status, body, rfl, hpc, rfl⟩ | ⟨t, d, hpc, rfl⟩ | ⟨t, d, hpc, rfl⟩ |
    ⟨t, d, replies, hpc, rfl⟩ | ⟨t, d, hpc, rfl⟩
  · exact h.same (t := 0) frame_createSession (createSession_frame clientid maxoperations).1
  · exact h.same (t := 0) frame_sessionDel worker_sessionDel
  · exact h.moves hpc frame_heap worker_move_self ⟨rfl, rfl⟩ fun _ _ => Iff.rfl
  · exact h.findSession hpc
  · have hgood : d.psession = none ∧ d.pcachedRes = none := by
      have hgood := h.good t
      rw [hpc] at hgood
      exact hgood
    have hslot : Frame s (s.setSlot p d.args.slotid { s.slot p d.args.slotid with lock := some t }) t :=
      frame_setSlot rfl rfl
    exact h.moves hpc (hslot.trans frame_move) worker_move_self hgood fun _ _ => Iff.rfl
  · exact h.opSequence hinv hpc (hexclusive d p hpc)
  · refine h.nextOp hpc fun clientid maxoperations left' hleft => ?_
    exact hexclusive d i clientid maxoperations left' (by rw [hpc, hleft])
  · exact h.replay hpc
  · exact h.store hpc
  · have hmove : Cached (s.move t (.sent d)) :=
      h.moves hpc frame_move worker_move_self trivial fun _ _ => Iff.rfl
    exact ⟨hmove.good, hmove.alone, hmove.kept, hmove.replayed⟩
  · exact h.moves hpc frame_heap worker_move_self trivial fun _ _ => Iff.rfl

/-- No operation after `SEQUENCE` was called twice with one session, slot and sequence id before the
slot has used up the sequence ids. -/
def AtMostOnce (s : State R) : Prop :=
  ∀ p k, s.passed p k ≤ 2 ^ 32 → ∀ id i, (s.ran.filter fun r =>
    r.session = p ∧ r.slot = k ∧ r.sequenceid = id ∧ r.oppos = i).length ≤ 1

/-- A compound with a sequence id that is neither the last one nor the next one is refused, and the
slot is as before it was locked. -/
def Refuses (s : State R) : Prop :=
  ∀ t d p, s.worker t = .locked d p →
    d.args.sequenceid ≠ (s.slot p d.args.slotid).sequence →
    d.args.sequenceid ≠ ((s.slot p d.args.slotid).sequence + 1) % 2 ^ 32 →
    ∃ s' d', step s (.sequence t) = some s' ∧ s'.worker t = .ending d' ∧ d'.status = .seqMisordered ∧
      s'.ran = s.ran ∧ s'.passed = s.passed ∧
      s'.slot p d.args.slotid = { s.slot p d.args.slotid with lock := none }

/-- Without its slot a compound is refused. -/
lemma refuses (s : State R) : Refuses s := by
  intro t d p hpc hlast hnext
  refine ⟨opSequence s t d p, { d with status := .seqMisordered, pres := { d.pres with resarrayLen := 1 } },
    ?_, ?_⟩
  · simp only [step, hpc]
  · rw [opSequence, if_pos (Ne.symm hnext), if_neg (Ne.symm hlast)]
    exact ⟨worker_move_self, rfl, rfl, rfl, slot_setSlot_self⟩

/-- `SEQUENCE` on the first slot of the first session of a client, with a cached reply. -/
def sampleArgs : SequenceArgs := ⟨⟨7, 1, 0⟩, 1, 0, true⟩

end Ganesha.Nfs41
