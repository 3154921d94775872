import Ganesha.DupReq.Execute

/-!
# Executing an RPC call, theorems

A call that can be duplicated is executed once, and a reply from the cache is the one of that call, if
a call comes only when no worker has a call with its xid, the entry of its xid in the cache is its own,
and the reply of one that was executed is in the cache (`once_of_careful`). `current_xid` is set only
during a call if no reply comes from the cache and every export is found. None of the three holds in
all runs (`not_once_of_same_xid`).
-/

namespace Ganesha.DupReq.Execute
open Library.Transition

variable {R : Type} {cfg : Config} {s s' : State R} {w : ℕ} {c d : Call}

/-- The call that a worker has. -/
def Pc.call : Pc R → Option Call
  | .idle => none
  | .started c | .checked c | .tagged c | .missed c | .located c | .admitted c => some c
  | .computed c _ | .cleared c _ | .replied c _ => some c

/-- The call can be duplicated. -/
def Config.dup (cfg : Config) (c : Call) : Bool := (cfg.of c).canBeDup

/-- The call that a worker has, if it can be duplicated. -/
def Pc.dupCall (cfg : Config) (pc : Pc R) : Option Call := pc.call.filter cfg.dup

/-- The call of a worker that has not looked in the cache yet. -/
def Pc.looking (cfg : Config) : Pc R → Option Call
  | .started c | .checked c | .tagged c => if cfg.dup c then some c else none
  | _ => none

/-- The call of a worker that has found nothing in the cache and has still to execute it. -/
def Pc.fresh (cfg : Config) : Pc R → Option Call
  | .missed c | .located c | .admitted c => if cfg.dup c then some c else none
  | _ => none

/-- The calls with an xid that were executed. -/
def executedOf (cfg : Config) (s : State R) (xid : ℕ) : List Call :=
  s.executed.filter fun c => cfg.dup c && c.xid == xid

/-- Two calls of one client for the same procedure. -/
def Same (c d : Call) : Prop :=
  c.client = d.client ∧ c.rqProg = d.rqProg ∧ c.rqVers = d.rqVers ∧ c.rqProc = d.rqProc

instance : Decidable (Same c d) := inferInstanceAs (Decidable (_ ∧ _ ∧ _ ∧ _))

/-! ## Steps -/

/-- One worker moves to `pc`, and nothing that is shared changes but its own data. -/
structure Moves (s s' : State R) (w : ℕ) (pc : Pc R) : Prop where
  pc_self : (s'.worker w).pc = pc
  pc_other : ∀ w', w' ≠ w → (s'.worker w').pc = (s.worker w').pc
  htDupreq : s'.htDupreq = s.htDupreq
  executed : s'.executed = s.executed
  fromCache : s'.fromCache = s.fromCache

lemma moves_setWorker {data : Worker R} : Moves s (s.setWorker w data) w data.pc where
  pc_self := by simp [State.setWorker]
  pc_other w' hw' := by simp [State.setWorker, hw']
  htDupreq := rfl
  executed := rfl
  fromCache := rfl

variable {pc : Pc R}

lemma moves_move : Moves s (s.move w pc) w pc := moves_setWorker

/-- A worker goes on with its call, or drops it. -/
structure GoesOn (cfg : Config) (pc pc' : Pc R) : Prop where
  call : pc'.call = none ∨ pc'.call = pc.call
  looking : pc'.looking cfg = none ∨ pc'.looking cfg = pc.looking cfg
  fresh : pc'.fresh cfg = none ∨ pc'.fresh cfg = pc.fresh cfg
  replied : ∀ c r, pc' = .replied c r → cfg.dup c = true

lemma goesOn_idle : GoesOn cfg pc .idle :=
  ⟨.inl rfl, .inl rfl, .inl rfl, fun _ _ h => by cases h⟩

/-- Where a worker goes after the lookup. -/
lemma locate_cases {found : Bool} (hpc : (s.worker w).pc = .missed c)
    (h : step cfg s (.locate w found) = some s') :
    ∃ pc, Moves s s' w pc ∧ GoesOn cfg (s.worker w).pc pc := by
  have hlocated : GoesOn cfg (s.worker w).pc (.located c) := by
    rw [hpc]
    exact ⟨.inr rfl, .inl rfl, .inr rfl, fun _ _ h => by cases h⟩
  simp only [step, hpc] at h
  split_ifs at h
  · rw [← Option.some.inj h]
    exact ⟨_, moves_move, hlocated⟩
  · rw [← Option.some.inj h]
    exact ⟨_, moves_move, goesOn_idle⟩
  · rw [← Option.some.inj h]
    exact ⟨_, moves_move, hlocated⟩

/-- Where a worker goes after the admission. -/
lemma admit_cases {readOnly : Option R} {allowed : Bool} (hpc : (s.worker w).pc = .located c) :
    ∃ pc, Moves s (admitCall cfg s w c readOnly allowed) w pc ∧ GoesOn cfg (s.worker w).pc pc := by
  rw [admitCall, hpc]
  split
  · exact ⟨_, moves_move, .inr rfl, .inl rfl, .inl rfl, fun _ _ h => by cases h⟩
  · split_ifs
    · exact ⟨_, moves_setWorker, .inr rfl, .inl rfl, .inr rfl, fun _ _ h => by cases h⟩
    · exact ⟨_, moves_setWorker, goesOn_idle⟩

variable {res : Option R}

/-- Where a worker goes after the reply. -/
lemma reply_cases {sendOk : Bool} (hpc : (s.worker w).pc = .cleared c res) :
    ∃ pc, Moves s (reply cfg s w c res sendOk) w pc ∧ GoesOn cfg (s.worker w).pc pc := by
  rw [reply.eq_def, hpc]
  split
  · exact ⟨_, moves_move, goesOn_idle⟩
  · split_ifs with hsend
    · refine ⟨_, moves_move, .inr rfl, .inl rfl, .inl rfl, fun c' r' h => ?_⟩
      rw [← (Pc.replied.inj h).1]
      exact hsend.2
    · exact ⟨_, moves_move, goesOn_idle⟩

variable {e : Event R}

/-- Everything a step can do: a call comes, a worker goes on, finds nothing in the cache, sends what it
finds there, executes its call, puts the reply there, or an entry expires. -/
lemma step_cases (h : step cfg s e = some s') :
    (∃ w c, e = .start w c ∧ (s.worker w).pc = .idle ∧ Moves s s' w (.started c)) ∨
    (∃ w pc, Moves s s' w pc ∧ GoesOn cfg (s.worker w).pc pc) ∨
    (∃ w c, (s.worker w).pc = .tagged c ∧ cfg.dup c = true ∧ s.htDupreq c.xid = none ∧
      Moves s s' w (.missed c)) ∨
    (∃ w c d r, (s.worker w).pc = .tagged c ∧ cfg.dup c = true ∧ s.htDupreq c.xid = some (d, r) ∧
      s' = { s.move w .idle with fromCache := s.fromCache ++ [(c, d)] }) ∨
    (∃ w c res, (s.worker w).pc = .admitted c ∧
      s' = { s.move w (.computed c res) with executed := s.executed ++ [c] }) ∨
    (∃ w c r, (s.worker w).pc = .replied c r ∧
      s' = { s.move w .idle with htDupreq := Function.update s.htDupreq c.xid (some (c, r)) }) ∨
    ∃ xid, s' = { s with
      htDupreq := Function.update s.htDupreq xid none
      executed := s.executed.filter fun c => c.xid ≠ xid } := by
  cases e with
  | start w c =>
    rw [step] at h
    split at h
    · rename_i hpc
      rw [← Option.some.inj h]
      exact .inl ⟨w, c, rfl, hpc, moves_move⟩
    · cases h
  | check w hostaddr =>
    rw [step] at h
    split at h
    · rename_i c hpc
      rw [← Option.some.inj h]
      refine .inr (.inl ?_)
      split_ifs
      · exact ⟨w, _, moves_move, goesOn_idle⟩
      · refine ⟨w, _, moves_move, ?_⟩
        rw [hpc]
        exact ⟨.inr rfl, .inr rfl, .inl rfl, fun _ _ h => by cases h⟩
    · cases h
  | tag w =>
    rw [step] at h
    split at h
    · rename_i c hpc
      rw [← Option.some.inj h]
      refine .inr (.inl ⟨w, _, moves_setWorker, ?_⟩)
      rw [hpc]
      exact ⟨.inr rfl, .inr rfl, .inl rfl, fun _ _ h => by cases h⟩
    · cases h
  | lookup w =>
    rw [step] at h
    split at h
    · rename_i c hpc
      rw [← Option.some.inj h, lookup]
      by_cases hdup : (cfg.of c).canBeDup
      · rw [if_pos hdup]
        split
        · rename_i d r hentry
          exact .inr (.inr (.inr (.inl ⟨w, c, d, r, hpc, hdup, hentry, rfl⟩)))
        · rename_i hnone
          exact .inr (.inr (.inl ⟨w, c, hpc, hdup, hnone, moves_move⟩))
      · rw [if_neg hdup]
        refine .inr (.inl ⟨w, _, moves_move, ?_⟩)
        rw [hpc]
        exact ⟨.inr rfl, .inl rfl, .inl (if_neg hdup), fun _ _ h => by cases h⟩
    · cases h
  | locate w found =>
    cases hpc : (s.worker w).pc with
    | missed c => exact .inr (.inl ⟨w, locate_cases hpc h⟩)
    | _ => simp [step, hpc] at h
  | admitCall w readOnly allowed =>
    rw [step] at h
    split at h
    · rename_i c hpc
      rw [← Option.some.inj h]
      exact .inr (.inl ⟨w, admit_cases hpc⟩)
    · cases h
  | execute w res =>
    rw [step] at h
    split at h
    · rename_i c hpc
      exact .inr (.inr (.inr (.inr (.inl ⟨w, c, res, hpc, (Option.some.inj h).symm⟩))))
    · cases h
  | clear w =>
    rw [step] at h
    split at h
    · rename_i c res hpc
      rw [← Option.some.inj h]
      refine .inr (.inl ⟨w, _, moves_setWorker, ?_⟩)
      rw [hpc]
      exact ⟨.inr rfl, .inl rfl, .inl rfl, fun _ _ h => by cases h⟩
    · cases h
  | reply w sendOk =>
    rw [step] at h
    split at h
    · rename_i c res hpc
      rw [← Option.some.inj h]
      exact .inr (.inl ⟨w, reply_cases hpc⟩)
    · cases h
  | add w addOk =>
    rw [step] at h
    split at h
    · rename_i c r hpc
      rw [← Option.some.inj h]
      cases addOk with
      | true => exact .inr (.inr (.inr (.inr (.inr (.inl ⟨w, c, r, hpc, rfl⟩)))))
      | false => exact .inr (.inl ⟨w, _, moves_move, goesOn_idle⟩)
    · cases h
  | expire xid =>
    exact .inr (.inr (.inr (.inr (.inr (.inr ⟨xid, (Option.some.inj h).symm⟩)))))

/-! ## Careful steps -/

/-- The condition on the calls that come: no worker has a call with the same xid, the entry of the xid
is of the same client and procedure, and there is one if a call with the xid was executed. -/
def Careful (cfg : Config) (s : State R) : Event R → Prop
  | .start _ c => cfg.dup c = true →
    (∀ w d, (s.worker w).pc.dupCall cfg = some d → d.xid ≠ c.xid) ∧
    (∀ d r, s.htDupreq c.xid = some (d, r) → Same d c) ∧
    (s.htDupreq c.xid = none → executedOf cfg s c.xid = [])
  | _ => True

/-- What careful steps keep. -/
structure Kept (cfg : Config) (s : State R) : Prop where
  alone : ∀ w w' c c', (s.worker w).pc.dupCall cfg = some c → (s.worker w').pc.dupCall cfg = some c' →
    c.xid = c'.xid → w = w'
  once : ∀ xid, (executedOf cfg s xid).length ≤ 1
  fresh : ∀ w c, (s.worker w).pc.fresh cfg = some c → executedOf cfg s c.xid = []
  looking : ∀ w c, (s.worker w).pc.looking cfg = some c →
    (∀ d r, s.htDupreq c.xid = some (d, r) → Same d c) ∧
      (s.htDupreq c.xid = none → executedOf cfg s c.xid = [])
  replied : ∀ w c r, (s.worker w).pc = .replied c r → cfg.dup c = true
  own : ∀ p ∈ s.fromCache, Same p.2 p.1

lemma dupCall_eq_some : pc.dupCall cfg = some c ↔ pc.call = some c ∧ cfg.dup c = true := by
  rw [Pc.dupCall, Option.filter_eq_some_iff]

/-- A worker that looks has the call. -/
lemma dupCall_of_looking (h : pc.looking cfg = some c) : pc.dupCall cfg = some c := by
  rw [dupCall_eq_some]
  cases pc with
  | started d | checked d | tagged d =>
    rw [Pc.looking] at h
    split_ifs at h with hdup
    rw [Option.some.injEq] at h
    exact h ▸ ⟨rfl, hdup⟩
  | _ => cases h

/-- A worker with a fresh call has it. -/
lemma dupCall_of_fresh (h : pc.fresh cfg = some c) : pc.dupCall cfg = some c := by
  rw [dupCall_eq_some]
  cases pc with
  | missed d | located d | admitted d =>
    rw [Pc.fresh] at h
    split_ifs at h with hdup
    rw [Option.some.injEq] at h
    exact h ▸ ⟨rfl, hdup⟩
  | _ => cases h

lemma executedOf_congr (h : s'.executed = s.executed) (xid : ℕ) :
    executedOf cfg s' xid = executedOf cfg s xid := by
  rw [executedOf, executedOf, h]

/-- One worker moves with a call that no other has. -/
lemma Kept.moves (h : Kept cfg s) (hmoves : Moves s s' w pc)
    (halone : ∀ c, pc.dupCall cfg = some c → ∀ w' c', w' ≠ w →
      (s.worker w').pc.dupCall cfg = some c' → c.xid ≠ c'.xid)
    (hfresh : ∀ c, pc.fresh cfg = some c → executedOf cfg s c.xid = [])
    (hlooking : ∀ c, pc.looking cfg = some c →
      (∀ d r, s.htDupreq c.xid = some (d, r) → Same d c) ∧
        (s.htDupreq c.xid = none → executedOf cfg s c.xid = []))
    (hreplied : ∀ c r, pc = .replied c r → cfg.dup c = true) : Kept cfg s' := by
  have hexecuted := @executedOf_congr _ cfg _ _ hmoves.executed
  refine ⟨fun w₁ w₂ c₁ c₂ h₁ h₂ hxid => ?_, fun xid => ?_, fun w' c hc => ?_, fun w' c hc => ?_,
    fun w' c r hc => ?_, ?_⟩
  · -- the worker that moves against the others
    by_cases hw₁ : w₁ = w
    · by_cases hw₂ : w₂ = w
      · rw [hw₁, hw₂]
      · rw [hw₁, hmoves.pc_self] at h₁
        rw [hmoves.pc_other w₂ hw₂] at h₂
        exact absurd hxid (halone c₁ h₁ w₂ c₂ hw₂ h₂)
    · rw [hmoves.pc_other w₁ hw₁] at h₁
      by_cases hw₂ : w₂ = w
      · rw [hw₂, hmoves.pc_self] at h₂
        exact absurd hxid.symm (halone c₂ h₂ w₁ c₁ hw₁ h₁)
      · rw [hmoves.pc_other w₂ hw₂] at h₂
        exact h.alone w₁ w₂ c₁ c₂ h₁ h₂ hxid
  · rw [hexecuted]
    exact h.once xid
  · rw [hexecuted]
    by_cases hw : w' = w
    · rw [hw, hmoves.pc_self] at hc
      exact hfresh c hc
    · rw [hmoves.pc_other w' hw] at hc
      exact h.fresh w' c hc
  · rw [hexecuted, hmoves.htDupreq]
    by_cases hw : w' = w
    · rw [hw, hmoves.pc_self] at hc
      exact hlooking c hc
    · rw [hmoves.pc_other w' hw] at hc
      exact h.looking w' c hc
  · by_cases hw : w' = w
    · rw [hw, hmoves.pc_self] at hc
      exact hreplied c r hc
    · rw [hmoves.pc_other w' hw] at hc
      exact h.replied w' c r hc
  · rw [hmoves.fromCache]
    exact h.own

/-- A worker goes on with the call it has. -/
lemma Kept.goesOn (h : Kept cfg s) (hmoves : Moves s s' w pc) (hgoes : GoesOn cfg (s.worker w).pc pc) :
    Kept cfg s' := by
  refine h.moves hmoves (fun c hc w' c' hw' hc' hxid => ?_) (fun c hc => ?_) (fun c hc => ?_)
    hgoes.replied
  · rcases hgoes.call with hcall | hcall
    · rw [Pc.dupCall, hcall] at hc
      cases hc
    · rw [Pc.dupCall, hcall] at hc
      exact hw' (h.alone w w' c c' hc hc' hxid).symm
  · rcases hgoes.fresh with hfresh | hfresh
    · rw [hfresh] at hc
      cases hc
    · rw [hfresh] at hc
      exact h.fresh w c hc
  · rcases hgoes.looking with hlooking | hlooking
    · rw [hlooking] at hc
      cases hc
    · rw [hlooking] at hc
      exact h.looking w c hc

/-- The answer comes from the cache. -/
lemma Kept.hit (h : Kept cfg s) (hpc : (s.worker w).pc = .tagged c) (hdup : cfg.dup c = true) {r : R}
    (hentry : s.htDupreq c.xid = some (d, r)) :
    Kept cfg { s.move w .idle with fromCache := s.fromCache ++ [(c, d)] } := by
  have hidle : Kept cfg (s.move w .idle) := h.goesOn moves_move goesOn_idle
  have hlooking : (s.worker w).pc.looking cfg = some c := by
    rw [hpc]
    exact if_pos hdup
  refine ⟨hidle.alone, hidle.once, hidle.fresh, hidle.looking, hidle.replied, fun p hp => ?_⟩
  rcases List.mem_append.mp hp with hp | hp
  · exact h.own p hp
  · rw [List.mem_singleton.mp hp]
    exact (h.looking w c hlooking).1 d r hentry

/-- A call is executed, and no second time. -/
lemma Kept.execute (h : Kept cfg s) (hpc : (s.worker w).pc = .admitted c) :
    Kept cfg { s.move w (.computed c res) with executed := s.executed ++ [c] } := by
  have hmoved : Kept cfg (s.move w (.computed c res)) := by
    refine h.goesOn moves_move ?_
    rw [hpc]
    exact ⟨.inr rfl, .inl rfl, .inl rfl, fun _ _ h => by cases h⟩
  have hself : ((s.move w (.computed c res)).worker w).pc = .computed c res := moves_move.pc_self
  by_cases hdup : cfg.dup c = true
  · have hnone : executedOf cfg s c.xid = [] := h.fresh w c (by rw [hpc]; exact if_pos hdup)
    have hcall : ((s.move w (.computed c res)).worker w).pc.dupCall cfg = some c := by
      rw [hself]
      exact dupCall_eq_some.mpr ⟨rfl, hdup⟩
    -- the calls with this xid are no longer none, and no other worker has one
    have hother : ∀ xid, xid ≠ c.xid →
        executedOf cfg { s.move w (.computed c res) with executed := s.executed ++ [c] } xid =
          executedOf cfg s xid := by
      intro xid hxid
      rw [executedOf, List.filter_append]
      simp [executedOf, hxid.symm]
    have hne : ∀ w' c', w' ≠ w → ((s.move w (.computed c res)).worker w').pc.dupCall cfg = some c' →
        c'.xid ≠ c.xid := fun w' c' hw' hc' hxid => hw' (hmoved.alone w' w c' c hc' hcall hxid)
    refine ⟨hmoved.alone, fun xid => ?_, fun w' c' hc' => ?_, fun w' c' hc' => ?_, hmoved.replied,
      hmoved.own⟩
    · by_cases hxid : xid = c.xid
      · rw [hxid, executedOf, List.filter_append, ← executedOf, hnone, List.nil_append]
        exact List.length_filter_le _ _
      · rw [hother xid hxid]
        exact h.once xid
    · by_cases hw' : w' = w
      · rw [hw'] at hc'
        simp only [hself] at hc'
        cases hc'
      · rw [hother _ (hne w' c' hw' (dupCall_of_fresh hc'))]
        exact hmoved.fresh w' c' hc'
    · by_cases hw' : w' = w
      · rw [hw'] at hc'
        simp only [hself] at hc'
        cases hc'
      · rw [hother _ (hne w' c' hw' (dupCall_of_looking hc'))]
        exact hmoved.looking w' c' hc'
  · have hsame : ∀ xid, executedOf cfg { s.move w (.computed c res) with
        executed := s.executed ++ [c] } xid = executedOf cfg s xid := by
      intro xid
      rw [executedOf, List.filter_append]
      simp [executedOf, hdup]
    refine ⟨hmoved.alone, fun xid => ?_, fun w' c' hc' => ?_, fun w' c' hc' => ?_, hmoved.replied,
      hmoved.own⟩
    · rw [hsame]
      exact h.once xid
    · rw [hsame]
      exact hmoved.fresh w' c' hc'
    · rw [hsame]
      exact hmoved.looking w' c' hc'

/-- The answer goes into the cache. -/
lemma Kept.add (h : Kept cfg s) {r : R} (hpc : (s.worker w).pc = .replied c r) :
    Kept cfg { s.move w .idle with htDupreq := Function.update s.htDupreq c.xid (some (c, r)) } := by
  have hidle : Kept cfg (s.move w .idle) := h.goesOn moves_move goesOn_idle
  have hcall : (s.worker w).pc.dupCall cfg = some c := by
    rw [hpc]
    exact dupCall_eq_some.mpr ⟨rfl, h.replied w c r hpc⟩
  refine ⟨hidle.alone, hidle.once, hidle.fresh, fun w' c' hc' => ?_, hidle.replied, hidle.own⟩
  have hne : c'.xid ≠ c.xid := by
    intro hxid
    by_cases hw' : w' = w
    · rw [hw'] at hc'
      simp only [(moves_move (s := s) (w := w)).pc_self] at hc'
      cases hc'
    · have hother := dupCall_of_looking hc'
      simp only [moves_move.pc_other w' hw'] at hother
      exact hw' (h.alone w' w c' c hother hcall hxid)
  simp only [Function.update_of_ne hne]
  exact hidle.looking w' c' hc'

/-- An expired call may be executed again. -/
lemma Kept.expire (h : Kept cfg s) {xid : ℕ} :
    Kept cfg { s with
      htDupreq := Function.update s.htDupreq xid none
      executed := s.executed.filter fun c => c.xid ≠ xid } := by
  have hexecuted : ∀ xid', executedOf cfg { s with
      htDupreq := Function.update s.htDupreq xid none
      executed := s.executed.filter fun c => c.xid ≠ xid } xid' =
        if xid' = xid then [] else executedOf cfg s xid' := by
    intro xid'
    rw [executedOf, List.filter_filter]
    split_ifs with hxid
    · rw [List.filter_eq_nil_iff]
      intro c _
      simp [hxid]
    · refine List.filter_congr fun c _ => ?_
      by_cases hc : c.xid = xid'
      · simp [hc, hxid]
      · simp [hc]
  refine ⟨h.alone, fun xid' => ?_, fun w c hc => ?_, fun w c hc => ?_, h.replied, h.own⟩
  · rw [hexecuted]
    split_ifs
    · exact Nat.zero_le 1
    · exact h.once xid'
  · rw [hexecuted, h.fresh w c hc, ite_self]
  · rw [hexecuted]
    by_cases hxid : c.xid = xid
    · rw [if_pos hxid]
      simp [hxid]
    · rw [if_neg hxid]
      simp only [Function.update_of_ne hxid]
      exact h.looking w c hc

/-- Every careful step keeps `Kept`. -/
lemma Kept.step (h : Kept cfg s) (hcareful : Careful cfg s e) (hs : step cfg s e = some s') : Kept cfg s' := by
  rcases step_cases hs with ⟨w, c, rfl, -, hmoves⟩ | ⟨w, pc, hmoves, hgoes⟩ |
    ⟨w, c, hpc, hdup, hnone, hmoves⟩ | ⟨w, c, d, r, hpc, hdup, hentry, rfl⟩ | ⟨w, c, res, hpc, rfl⟩ |
    ⟨w, c, r, hpc, rfl⟩ | ⟨xid, rfl⟩
  · refine h.moves hmoves (fun c' hc' w' d hw' hd hxid => ?_) (fun c' hc' => by cases hc')
      (fun c' hc' => ?_) fun c' r hc' => by cases hc'
    · obtain ⟨hcall, hdup⟩ := dupCall_eq_some.mp hc'
      obtain rfl : c = c' := Option.some.inj hcall
      exact (hcareful hdup).1 w' d hd hxid.symm
    · obtain ⟨hcall, hdup⟩ := dupCall_eq_some.mp (dupCall_of_looking hc')
      obtain rfl : c = c' := Option.some.inj hcall
      exact (hcareful hdup).2
  · exact h.goesOn hmoves hgoes
  · have hlooking : (s.worker w).pc.looking cfg = some c := by
      rw [hpc]
      exact if_pos hdup
    refine h.moves hmoves (fun c' hc' w' d hw' hd hxid => ?_) (fun c' hc' => ?_)
      (fun c' hc' => by cases hc') fun c' r hc' => by cases hc'
    · obtain ⟨hcall, -⟩ := dupCall_eq_some.mp hc'
      obtain rfl : c = c' := Option.some.inj hcall
      exact hw' (h.alone w w' c d (dupCall_of_looking hlooking) hd hxid).symm
    · obtain ⟨hcall, -⟩ := dupCall_eq_some.mp (dupCall_of_fresh hc')
      obtain rfl : c = c' := Option.some.inj hcall
      exact (h.looking w c hlooking).2 hnone
  · exact h.hit hpc hdup hentry
  · exact h.execute hpc
  · exact h.add hpc
  · exact h.expire

/-! ## `current_xid` -/

/-- The call that `current_xid` is of. -/
def Pc.marked : Pc R → Option Call
  | .tagged c | .missed c | .located c | .admitted c => some c
  | .computed c _ => some c
  | _ => none

/-- `current_xid` is the xid of the call of the worker from where it is set to where it is cleared, and
else 0. -/
def Marks (s : State R) : Prop :=
  ∀ w, (s.worker w).currentXid = ((s.worker w).pc.marked.map Call.xid).getD 0

/-- The condition: no reply is found in the cache, and every call of version 3 finds its export. -/
def Clears (cfg : Config) (s : State R) : Event R → Prop
  | .lookup w =>
    match (s.worker w).pc with
    | .tagged c => cfg.dup c = true → s.htDupreq c.xid = none
    | _ => True
  | .locate w exportFound =>
    match (s.worker w).pc with
    | .missed c => needsExport cfg 3 c = true → exportFound = true
    | _ => True
  | _ => True

lemma Marks.setWorker {data : Worker R} (h : Marks s)
    (hdata : data.currentXid = (data.pc.marked.map Call.xid).getD 0) :
    Marks (s.setWorker w data) := by
  intro w'
  by_cases hw' : w' = w
  · rw [hw']
    simpa [State.setWorker] using hdata
  · simpa [State.setWorker, hw'] using h w'

lemma Marks.move (h : Marks s) (hpc : pc.marked = (s.worker w).pc.marked) : Marks (s.move w pc) := by
  refine h.setWorker ?_
  rw [hpc]
  exact h w

/-- The admission keeps the marks. -/
lemma Marks.admitCall {readOnly : Option R} {allowed : Bool} (h : Marks s)
    (hpc : (s.worker w).pc = .located c) : Marks (admitCall cfg s w c readOnly allowed) := by
  have hxid := h w
  rw [hpc] at hxid
  rw [Execute.admitCall]
  split
  · exact h.move (by rw [hpc]; rfl)
  · split_ifs
    · exact h.setWorker hxid
    · exact h.setWorker rfl

/-- The reply keeps the marks. -/
lemma Marks.reply {sendOk : Bool} (h : Marks s) (hpc : (s.worker w).pc = .cleared c res) :
    Marks (reply cfg s w c res sendOk) := by
  rw [Execute.reply.eq_def]
  split
  · exact h.move (by rw [hpc]; rfl)
  · split_ifs
    · exact h.move (by rw [hpc]; rfl)
    · exact h.move (by rw [hpc]; rfl)

/-- Every step keeps the marks where tags are cleared. -/
lemma Marks.step (h : Marks s) (hclears : Clears cfg s e) (hs : step cfg s e = some s') : Marks s' := by
  cases e with
  | start w c =>
    rw [Execute.step] at hs
    split at hs
    · rename_i hpc
      rw [← Option.some.inj hs]
      exact h.move (by rw [hpc]; rfl)
    · cases hs
  | check w hostaddr =>
    rw [Execute.step] at hs
    split at hs
    · rename_i c hpc
      rw [← Option.some.inj hs]
      split_ifs
      · exact h.move (by rw [hpc]; rfl)
      · exact h.move (by rw [hpc]; rfl)
    · cases hs
  | tag w =>
    rw [Execute.step] at hs
    split at hs
    · rw [← Option.some.inj hs]
      exact h.setWorker rfl
    · cases hs
  | lookup w =>
    rw [Execute.step] at hs
    split at hs
    · rename_i c hpc
      simp only [Clears, hpc] at hclears
      have hmissed : Marks (s.move w (.missed c)) := h.move (by rw [hpc]; rfl)
      rw [← Option.some.inj hs, lookup]
      by_cases hdup : (cfg.of c).canBeDup
      · rw [if_pos hdup, hclears hdup]
        exact hmissed
      · rw [if_neg hdup]
        exact hmissed
    · cases hs
  | locate w exportFound =>
    rw [Execute.step] at hs
    split at hs
    · rename_i c hpc
      simp only [Clears, hpc] at hclears
      have hlocated : Marks (s.move w (.located c)) := h.move (by rw [hpc]; rfl)
      split_ifs at hs with hfound hthree htwo
      · rw [← Option.some.inj hs]
        exact hlocated
      · exact absurd (hclears hthree) hfound
      · rw [← Option.some.inj hs]
        exact hlocated
    · cases hs
  | admitCall w readOnly allowed =>
    rw [Execute.step] at hs
    split at hs
    · rename_i c hpc
      rw [← Option.some.inj hs]
      exact h.admitCall hpc
    · cases hs
  | execute w res =>
    rw [Execute.step] at hs
    split at hs
    · rename_i c hpc
      rw [← Option.some.inj hs]
      have hmoved : Marks (s.move w (.computed c res)) := h.move (by rw [hpc]; rfl)
      exact hmoved
    · cases hs
  | clear w =>
    rw [Execute.step] at hs
    split at hs
    · rw [← Option.some.inj hs]
      exact h.setWorker rfl
    · cases hs
  | reply w sendOk =>
    rw [Execute.step] at hs
    split at hs
    · rename_i c res hpc
      rw [← Option.some.inj hs]
      exact h.reply hpc
    · cases hs
  | add w addOk =>
    rw [Execute.step] at hs
    split at hs
    · rename_i c r hpc
      have hidle : Marks (s.move w .idle) := h.move (by rw [hpc]; rfl)
      rw [← Option.some.inj hs]
      split_ifs
      · exact hidle
      · exact hidle
    · cases hs
  | expire xid =>
    rw [← Option.some.inj hs]
    exact h

/-! ## Runs -/

/-- No call of a client with an xid was executed twice. -/
def AtMostOnce (cfg : Config) (s : State R) : Prop :=
  ∀ client xid, (s.executed.filter fun c => cfg.dup c && c.client == client && c.xid == xid).length ≤ 1

/-- What was sent from the cache was the reply to a call of the same client, program, version and
procedure. -/
def OwnReply (s : State R) : Prop := ∀ p ∈ s.fromCache, Same p.2 p.1

/-- A worker whose `current_xid` is set is in `nfs_rpc_execute` for a call with that xid. -/
def MarkedInside (s : State R) : Prop :=
  ∀ w, (s.worker w).currentXid ≠ 0 →
    ∃ c, (s.worker w).pc.call = some c ∧ c.xid = (s.worker w).currentXid

/-- What `Kept` says of the calls executed. -/
lemma Kept.atMostOnce (h : Kept cfg s) : AtMostOnce cfg s := by
  intro client xid
  refine Nat.le_trans (List.Sublist.length_le ?_) (h.once xid)
  have hfilter : (s.executed.filter fun c => cfg.dup c && c.client == client && c.xid == xid) =
      (executedOf cfg s xid).filter fun c => c.client == client := by
    rw [executedOf, List.filter_filter]
    refine List.filter_congr fun c _ => ?_
    cases cfg.dup c <;> cases (c.client == client) <;> rfl
  rw [hfilter]
  exact List.filter_sublist

/-- What the marks say of the calls inside. -/
lemma Marks.markedInside (h : Marks s) : MarkedInside s := by
  intro w hw
  have hmark := h w
  cases hpc : (s.worker w).pc with
  | tagged c | missed c | located c | admitted c =>
    rw [hpc] at hmark
    exact ⟨c, rfl, hmark.symm⟩
  | computed c res =>
    rw [hpc] at hmark
    exact ⟨c, rfl, hmark.symm⟩
  | _ =>
    rw [hpc] at hmark
    exact absurd hmark hw

lemma kept_initialState : Kept cfg (initialState : State R) where
  alone w w' c c' hc := by cases hc
  once xid := Nat.zero_le 1
  fresh w c hc := by cases hc
  looking w c hc := by cases hc
  replied w c r hc := by cases hc
  own p hp := by cases hp

/-- Calls that come carefully are executed once and get their own reply. In a run without replies from
the cache in which every export is found, `current_xid` is cleared on every exit. -/
theorem once_of_careful (cfg : Config) :
    (∀ s : State R, ReachableBy (step cfg) (Careful cfg) initialState s →
      AtMostOnce cfg s ∧ OwnReply s) ∧
    ∀ s : State R, ReachableBy (step cfg) (Clears cfg) initialState s → MarkedInside s := by
  refine ⟨fun s h => ?_, fun s h => ?_⟩
  · have hkept : Kept cfg s :=
      h.invariant kept_initialState fun s e s' hs hcareful hstep => hs.step hcareful hstep
    exact ⟨hkept.atMostOnce, hkept.own⟩
  · have hmarks : Marks s :=
      h.invariant (fun w => rfl) fun s e s' hs hclears hstep => hs.step hclears hstep
    exact hmarks.markedInside

/-! ## Sample runs -/

/-- Two workers, and functions that can be duplicated. -/
def sampleConfig : Config := ⟨100003, 2, fun _ _ _ => ⟨false, false, true⟩⟩

/-- A `MKDIR` of one client. -/
def sampleMkdir : Call := ⟨⟨1, 700⟩, 5, 100003, 3, 9⟩

/-- A `RENAME` of another client with the same xid. -/
def sampleRename : Call := ⟨⟨2, 700⟩, 5, 100003, 3, 14⟩

/-- A worker executes a call to the end of the function: its result is sent, and added to the cache. -/
def executesTo (w : ℕ) (c : Call) : List (Event ℕ) :=
  [.start w c, .check w ⟨0, 0⟩, .tag w, .lookup w, .locate w true, .admitCall w none true,
    .execute w (some 17), .clear w, .reply w true, .add w true]

/-- A call, and the answer from the cache to the same call sent again. -/
def sampleRetransmitted : List (Event ℕ) :=
  executesTo 0 sampleMkdir ++ [.start 1 sampleMkdir, .check 1 ⟨0, 0⟩, .tag 1, .lookup 1]

/-- The call comes again when the worker has reset its `current_xid` and has not added the reply. -/
def sampleBetween : List (Event ℕ) :=
  (executesTo 0 sampleMkdir).dropLast ++ executesTo 1 sampleMkdir

/-- A call of another client with the same xid. -/
def sampleForeign : List (Event ℕ) :=
  executesTo 0 sampleMkdir ++ [.start 1 sampleRename, .check 1 ⟨0, 0⟩, .tag 1, .lookup 1]

/-- The sample run meets the condition. -/
lemma meets_sampleRetransmitted :
    Meets (step sampleConfig) (Careful sampleConfig) initialState sampleRetransmitted := by
  -- the two calls that come find all workers idle, and the second one its own reply
  have hfirst : Careful sampleConfig initialState (.start 0 sampleMkdir : Event ℕ) := by
    intro _
    exact ⟨fun w d hd => (by cases hd), fun d r hd => (by cases hd), fun _ => rfl⟩
  refine And.intro hfirst (And.intro trivial (And.intro trivial (And.intro trivial (And.intro trivial
    (And.intro trivial (And.intro trivial (And.intro trivial (And.intro trivial (And.intro trivial
    (And.intro ?_ (And.intro trivial (And.intro trivial (And.intro trivial trivial)))))))))))))
  intro _
  refine ⟨fun w d hd => ?_, fun d r hd => ?_, fun hd => ?_⟩
  · rcases w with - | w
    · cases hd
    · cases hd
  · cases hd
    exact ⟨rfl, rfl, rfl, rfl⟩
  · cases hd

/-- The call sent again is answered with the reply in the cache, and the first one leaves the function
with `current_xid` reset. -/
theorem once_of_careful_retransmitted :
    ((execute (step sampleConfig) initialState sampleRetransmitted).any fun s =>
      s.executed = [sampleMkdir] ∧ s.fromCache = [(sampleMkdir, sampleMkdir)]) = true ∧
    (∀ s, execute (step sampleConfig) initialState sampleRetransmitted = some s →
      AtMostOnce sampleConfig s ∧ OwnReply s) ∧
    (execute (step sampleConfig) initialState (executesTo 0 sampleMkdir)).isSome = true ∧
    ∀ s, execute (step sampleConfig) initialState (executesTo 0 sampleMkdir) = some s →
      MarkedInside s := by
  refine ⟨by decide +kernel, fun s hs => ?_, by decide +kernel, fun s hs => ?_⟩
  · exact (once_of_careful sampleConfig).1 s (reachableBy_of_execute hs meets_sampleRetransmitted)
  · refine (once_of_careful sampleConfig).2 s (reachableBy_of_execute hs ?_)
    exact And.intro trivial (And.intro trivial (And.intro trivial (And.intro (fun _ => rfl)
      (And.intro (fun _ => rfl) (And.intro trivial (And.intro trivial (And.intro trivial
      (And.intro trivial (And.intro trivial trivial)))))))))

/-- A call sent again between the reset of `current_xid` and the insertion of the reply is executed
again, a call gets the reply to the call of another client with its xid, and a worker that has answered
from the cache keeps its `current_xid`. -/
theorem not_once_of_same_xid :
    (¬ ∀ s : State ℕ, Reachable (step sampleConfig) initialState s → AtMostOnce sampleConfig s) ∧
    (¬ ∀ s : State ℕ, Reachable (step sampleConfig) initialState s → OwnReply s) ∧
    ¬ ∀ s : State ℕ, Reachable (step sampleConfig) initialState s → MarkedInside s := by
  refine ⟨fun h => ?_, fun h => ?_, fun h => ?_⟩
  · have hrun : ((execute (step sampleConfig) initialState sampleBetween).any fun s =>
        s.executed = [sampleMkdir, sampleMkdir]) = true := by decide +kernel
    rw [Option.any_eq_true] at hrun
    obtain ⟨s, hs, hexecuted⟩ := hrun
    have honce := h s (reachable_of_execute hs) ⟨1, 700⟩ 5
    rw [of_decide_eq_true hexecuted] at honce
    exact absurd honce (by decide)
  · have hrun : ((execute (step sampleConfig) initialState sampleForeign).any fun s =>
        s.fromCache = [(sampleRename, sampleMkdir)]) = true := by decide +kernel
    rw [Option.any_eq_true] at hrun
    obtain ⟨s, hs, hcache⟩ := hrun
    have hown := h s (reachable_of_execute hs) (sampleRename, sampleMkdir)
      (by rw [of_decide_eq_true hcache]; exact List.mem_singleton_self _)
    exact absurd hown (by decide)
  · have hrun : ((execute (step sampleConfig) initialState sampleRetransmitted).any fun s =>
        (s.worker 1).currentXid = 5 ∧ ((s.worker 1).pc.call).isNone) = true := by decide +kernel
    rw [Option.any_eq_true] at hrun
    obtain ⟨s, hs, hfinal⟩ := hrun
    obtain ⟨hxid, hcall⟩ := of_decide_eq_true hfinal
    obtain ⟨c, hc, -⟩ := h s (reachable_of_execute hs) 1 (by rw [hxid]; decide)
    rw [hc] at hcall
    cases hcall

end Ganesha.DupReq.Execute
