import Ganesha.RWLock.Theorems

/-!
# No wake-up of the readers-writer lock is lost

While nobody holds the lock, some waiting writer is off the list of its condition, and without a
waiting writer no reader is on the list of its own (`Awake`).
-/

namespace Ganesha.RWLock
open Library.Transition

variable {Thread : Type} [DecidableEq Thread]

/-- Who may be blocked on a condition, and who cannot be while the lock is free. -/
structure Awake (s : State Thread) : Prop where
  counted : Counted s
  condRead : ∀ t ∈ s.lock.condRead, s.pc t = .waitRead
  condWrite : ∀ t ∈ s.lock.condWrite, s.pc t = .waitWrite
  nodup : s.lock.condWrite.Nodup
  reader : s.lock.nbwActive = 0 → s.lock.nbwWaiting = 0 → s.lock.condRead = []
  writer : s.lock.nbrActive = 0 → s.lock.nbwActive = 0 → 0 < s.lock.nbwWaiting →
    ∃ t, s.pc t = .waitWrite ∧ t ∉ s.lock.condWrite

variable {s s' : State Thread} {l : RwLock Thread} {t u : Thread} {p : Pc} {e : Event Thread}

omit [DecidableEq Thread] in
lemma Counts.exists_of_pos {pc : Thread → Pc} {n : ℕ} (h : Counts pc p n) (hn : 0 < n) :
    ∃ t, pc t = p := by
  obtain ⟨F, hF, rfl⟩ := h
  obtain ⟨t, ht⟩ := Finset.card_pos.mp hn
  exact ⟨t, (hF t).mp ht⟩

/-- A thread moves that is not asleep. -/
lemma Awake.move (ha : Awake s) (hpc : s.pc t ≠ .waitRead ∨ t ∉ s.lock.condRead)
    (hpcw : s.pc t ≠ .waitWrite ∨ t ∉ s.lock.condWrite) (hc : Counted (s.move t l p))
    (hr : ∀ u ∈ l.condRead, u ∈ s.lock.condRead ∨ u = t ∧ p = .waitRead)
    (hw : ∀ u ∈ l.condWrite, u ∈ s.lock.condWrite ∨ u = t ∧ p = .waitWrite)
    (hnd : l.condWrite.Nodup) (reader : l.nbwActive = 0 → l.nbwWaiting = 0 → l.condRead = [])
    (writer : l.nbrActive = 0 → l.nbwActive = 0 → 0 < l.nbwWaiting →
      ∃ u, Function.update s.pc t p u = .waitWrite ∧ u ∉ l.condWrite) : Awake (s.move t l p) := by
  refine ⟨hc, fun u hu => ?_, fun u hu => ?_, hnd, reader, writer⟩
  · show Function.update s.pc t p u = .waitRead
    rcases hr u hu with hu | ⟨rfl, rfl⟩
    · have hne : u ≠ t := fun heq => hpc.elim (· (ha.condRead t (heq ▸ hu))) (· (heq ▸ hu))
      rw [Function.update_of_ne hne, ha.condRead u hu]
    · rw [Function.update_self]
  · show Function.update s.pc t p u = .waitWrite
    rcases hw u hu with hu | ⟨rfl, rfl⟩
    · have hne : u ≠ t := fun heq => hpcw.elim (· (ha.condWrite t (heq ▸ hu))) (· (heq ▸ hu))
      rw [Function.update_of_ne hne, ha.condWrite u hu]
    · rw [Function.update_self]

/-- A signal wakes one writer. -/
lemma Awake.signalled (ha : Awake s) (hpc : s.pc t ≠ .waitWrite)
    (hn : 0 < s.lock.nbwWaiting) {q : List Thread}
    (h : pthreadCondSignal s.lock.condWrite u = some q) :
    (∀ v ∈ q, v ∈ s.lock.condWrite) ∧ q.Nodup ∧
      ∃ v, Function.update s.pc t p v = .waitWrite ∧ v ∉ q := by
  unfold pthreadCondSignal at h
  split_ifs at h with hnil hu
  · obtain rfl := Option.some.inj h
    obtain ⟨v, hv⟩ := ha.counted.waitWrite.exists_of_pos hn
    have hne : v ≠ t := fun heq => hpc (heq ▸ hv)
    exact ⟨by simp, List.nodup_nil, v, by rw [Function.update_of_ne hne, hv], by simp⟩
  · obtain rfl := Option.some.inj h
    have hne : u ≠ t := fun heq => hpc (heq ▸ ha.condWrite u hu)
    exact ⟨fun v hv => List.mem_of_mem_erase hv, ha.nodup.erase u, u,
      by rw [Function.update_of_ne hne, ha.condWrite u hu], ha.nodup.not_mem_erase⟩

/-- Every step keeps somebody awake. -/
lemma Awake.step (ha : Awake s) (h : step s e = some s') : Awake s' := by
  have hc := ha.counted.step h
  have hjoin : ∀ {q : List Thread} {t : Thread} {p : Pc}, ∀ v ∈ q ++ [t], v ∈ q ∨ v = t ∧ p = p :=
    fun v hv => (List.mem_append.mp hv).imp_right fun hv => ⟨List.mem_singleton.mp hv, rfl⟩
  -- a waiting writer that does not move is still off the list
  have hwriter : ∀ {t : Thread} {p : Pc}, s.pc t ≠ .waitWrite → s.lock.nbrActive = 0 →
      s.lock.nbwActive = 0 → 0 < s.lock.nbwWaiting →
      ∃ u, Function.update s.pc t p u = .waitWrite ∧ u ∉ s.lock.condWrite := by
    intro t p hpc hr hw hn
    obtain ⟨u, hu, hout⟩ := ha.writer hr hw hn
    have hne : u ≠ t := fun heq => hpc (heq ▸ hu)
    exact ⟨u, by rw [Function.update_of_ne hne, hu], hout⟩
  cases e with
  | pR t =>
    simp only [RWLock.step, Option.ite_none_right_eq_some, Option.some.injEq] at h
    obtain ⟨hpc, rfl⟩ := h
    unfold pR at hc ⊢
    simp only at hc ⊢
    split_ifs at hc ⊢ with hguard
    · refine ha.move (by simp [hpc]) (by simp [hpc]) hc hjoin (fun _ => .inl) ha.nodup
        (fun hw hn => ?_) (hwriter (by simp [hpc]))
      simp only at hw hn
      omega
    · refine ha.move (by simp [hpc]) (by simp [hpc]) hc (fun _ => .inl)
        (fun _ => .inl) ha.nodup ha.reader fun hr => ?_
      simp [pRGrant] at hr
  | pRReturn t =>
    simp only [RWLock.step, Option.ite_none_right_eq_some, Option.some.injEq] at h
    obtain ⟨⟨hpc, hout⟩, rfl⟩ := h
    refine ha.move (.inr hout) (by simp [hpc]) hc (fun _ => .inl)
      (fun _ => .inl) ha.nodup ha.reader fun hr => ?_
    simp [pRGrant] at hr
  | vR t u =>
    simp only [RWLock.step, Option.ite_none_right_eq_some, Option.map_eq_some_iff] at h
    obtain ⟨hpc, l, hl, rfl⟩ := h
    unfold vR at hl
    simp only at hl
    split_ifs at hl with hlast
    · obtain ⟨q, hq, rfl⟩ := Option.map_eq_some_iff.mp hl
      obtain ⟨hsub, hnd, hwoken⟩ := ha.signalled (t := t) (by simp [hpc]) hlast.2 hq
      refine ha.move (by simp [hpc]) (by simp [hpc]) hc (fun _ => .inl)
        (fun v hv => .inl (hsub v hv)) hnd ha.reader fun _ _ _ => hwoken
    · obtain rfl := Option.some.inj hl
      have hpos := ha.counted.reading.pos hpc
      refine ha.move (by simp [hpc]) (by simp [hpc]) hc (fun _ => .inl) (fun _ => .inl)
        ha.nodup ha.reader fun hr hw hn => ?_
      simp only at hr hn
      omega
  | pW t =>
    simp only [RWLock.step, Option.ite_none_right_eq_some, Option.some.injEq] at h
    obtain ⟨hpc, rfl⟩ := h
    unfold pW pWLoop at hc ⊢
    simp only at hc ⊢
    split_ifs at hc ⊢ with hguard
    · have hfresh : t ∉ s.lock.condWrite := fun hin => by simp [ha.condWrite t hin] at hpc
      refine ha.move (by simp [hpc]) (by simp [hpc]) hc (fun _ => .inl) hjoin
        (by simpa using ha.nodup.concat hfresh) (fun _ hn => by simp at hn) fun hr hw _ => ?_
      simp only at hr hw
      omega
    · refine ha.move (by simp [hpc]) (by simp [hpc]) hc (fun _ => .inl) (fun _ => .inl)
        ha.nodup (fun hw => by simp at hw) fun _ hw => by simp at hw
  | pWReturn t =>
    simp only [RWLock.step, Option.ite_none_right_eq_some, Option.some.injEq] at h
    obtain ⟨⟨hpc, hout⟩, rfl⟩ := h
    have hpos := ha.counted.waitWrite.pos hpc
    unfold pWLoop at hc ⊢
    split_ifs at hc ⊢ with hguard
    · refine ha.move (by simp [hpc]) (.inr hout) hc (fun _ => .inl) hjoin
        (by simpa using ha.nodup.concat hout) (fun _ hn => ?_) fun hr hw _ => ?_
      · simp only at hn
        omega
      · simp only at hr hw
        omega
    · refine ha.move (by simp [hpc]) (.inr hout) hc (fun _ => .inl) (fun _ => .inl)
        ha.nodup (fun hw => by simp at hw) fun _ hw => by simp at hw
  | vW t u =>
    simp only [RWLock.step, Option.ite_none_right_eq_some, Option.map_eq_some_iff] at h
    obtain ⟨hpc, l, hl, rfl⟩ := h
    unfold vW at hl
    simp only at hl
    split_ifs at hl with hwaiting hreaders
    · obtain ⟨q, hq, rfl⟩ := Option.map_eq_some_iff.mp hl
      obtain ⟨hsub, hnd, hwoken⟩ := ha.signalled (t := t) (by simp [hpc]) hwaiting hq
      refine ha.move (by simp [hpc]) (by simp [hpc]) hc (fun _ => .inl)
        (fun v hv => .inl (hsub v hv)) hnd (fun _ hn => ?_) fun _ _ _ => hwoken
      simp only at hn
      omega
    · obtain rfl := Option.some.inj hl
      exact ha.move (by simp [hpc]) (by simp [hpc]) hc (by simp) (fun _ => .inl) ha.nodup
        (fun _ _ => rfl) fun _ _ hn => absurd hn hwaiting
    · obtain rfl := Option.some.inj hl
      refine ha.move (by simp [hpc]) (by simp [hpc]) hc (fun _ => .inl) (fun _ => .inl)
        ha.nodup (fun _ _ => ?_) fun _ _ hn => absurd hn hwaiting
      -- no reader waits, so none is on the list
      refine List.eq_nil_iff_forall_not_mem.mpr fun v hv => ?_
      exact hreaders (ha.counted.waitRead.pos (ha.condRead v hv))
  | rwLockDowngrade t =>
    simp only [RWLock.step, Option.ite_none_right_eq_some, Option.some.injEq] at h
    obtain ⟨hpc, rfl⟩ := h
    unfold rwLockDowngrade at hc ⊢
    simp only at hc ⊢
    split_ifs at hc ⊢ with hreaders
    · exact ha.move (by simp [hpc]) (by simp [hpc]) hc (by simp) (fun _ => .inl) ha.nodup
        (fun _ _ => rfl) fun hr => by simp at hr
    · refine ha.move (by simp [hpc]) (by simp [hpc]) hc (fun _ => .inl) (fun _ => .inl)
        ha.nodup (fun _ _ => ?_) fun hr => by simp at hr
      refine List.eq_nil_iff_forall_not_mem.mpr fun v hv => ?_
      exact hreaders (ha.counted.waitRead.pos (ha.condRead v hv))
  | wake t =>
    simp only [RWLock.step, Option.some.injEq] at h
    subst h
    refine ⟨hc, fun u hu => ha.condRead u (List.mem_of_mem_erase hu),
      fun u hu => ha.condWrite u (List.mem_of_mem_erase hu), ha.nodup.erase t, fun hw hn => ?_,
      fun hr hw hn => ?_⟩
    · show s.lock.condRead.erase t = []
      rw [ha.reader hw hn, List.erase_nil]
    · obtain ⟨u, hu, hout⟩ := ha.writer hr hw hn
      exact ⟨u, hu, fun hin => hout (List.mem_of_mem_erase hin)⟩

omit [DecidableEq Thread] in
/-- At the start nobody sleeps. -/
lemma awake_initialState : Awake (initialState : State Thread) := by
  have hempty : ∀ p : Pc, p ≠ .idle → Counts (fun _ : Thread => Pc.idle) p 0 := fun p hp =>
    ⟨∅, fun t => by simp [hp.symm], rfl⟩
  refine ⟨⟨hempty _ (by decide), hempty _ (by decide), hempty _ (by decide), hempty _ (by decide)⟩,
    ?_, ?_, List.nodup_nil, fun _ _ => rfl, fun _ _ hn => absurd hn (lt_irrefl 0)⟩
  · exact fun t ht => absurd ht List.not_mem_nil
  · exact fun t ht => absurd ht List.not_mem_nil

/-- In every reachable state in which threads wait and nobody holds the lock, some waiting thread
gets it by returning from `pthread_cond_wait`. -/
theorem granted_of_free (h : Reachable step initialState s)
    (hwait : s.pc t = .waitRead ∨ s.pc t = .waitWrite)
    (hfree : ∀ u, s.pc u ≠ .reading ∧ s.pc u ≠ .writing) :
    ∃ u s', (s.pc u = .waitRead ∧ step s (.pRReturn u) = some s' ∧ s'.pc u = .reading) ∨
      (s.pc u = .waitWrite ∧ step s (.pWReturn u) = some s' ∧ s'.pc u = .writing) := by
  have ha : Awake s := h.invariant awake_initialState fun _ _ _ ha _ hs => ha.step hs
  have hr : s.lock.nbrActive = 0 := by
    by_contra hne
    obtain ⟨u, hu⟩ := ha.counted.reading.exists_of_pos (Nat.pos_of_ne_zero hne)
    exact (hfree u).1 hu
  have hw : s.lock.nbwActive = 0 := by
    by_contra hne
    obtain ⟨u, hu⟩ := ha.counted.writing.exists_of_pos (Nat.pos_of_ne_zero hne)
    exact (hfree u).2 hu
  by_cases hn : 0 < s.lock.nbwWaiting
  · obtain ⟨u, hu, hout⟩ := ha.writer hr hw hn
    refine ⟨u, s.move u (pWLoop s.lock u).1 (pWLoop s.lock u).2, .inr ⟨hu, if_pos ⟨hu, hout⟩, ?_⟩⟩
    simp [State.move, pWLoop, hr, hw]
  · have hread : s.pc t = .waitRead := hwait.resolve_right fun hw => hn (ha.counted.waitWrite.pos hw)
    have hout : t ∉ s.lock.condRead := by simp [ha.reader hw (by omega)]
    refine ⟨t, s.move t (pRGrant s.lock) .reading, .inl ⟨hread, if_pos ⟨hread, hout⟩, ?_⟩⟩
    simp [State.move]

/-- A reader that a writer kept waiting, after the writer's release. -/
theorem granted_of_free_reader : ∃ (s : State (Fin 2)) (u : Fin 2) (s' : State (Fin 2)),
    execute step initialState [.pW 0, .pR 1, .vW 0 0] = some s ∧
      ((s.pc u = .waitRead ∧ step s (.pRReturn u) = some s' ∧ s'.pc u = .reading) ∨
        (s.pc u = .waitWrite ∧ step s (.pWReturn u) = some s' ∧ s'.pc u = .writing)) := by
  obtain ⟨s, hs⟩ : ∃ s : State (Fin 2),
      execute step initialState [.pW 0, .pR 1, .vW 0 0] = some s := ⟨_, rfl⟩
  have hpc : s.pc 1 = .waitRead ∧ s.pc 0 = .idle := by cases hs; exact ⟨rfl, rfl⟩
  obtain ⟨u, s', h⟩ := granted_of_free (t := 1) (reachable_of_execute hs) (.inl hpc.1)
    (Fin.forall_fin_two.mpr ⟨by simp [hpc.2], by simp [hpc.1]⟩)
  exact ⟨s, u, s', hs, h⟩

end Ganesha.RWLock
