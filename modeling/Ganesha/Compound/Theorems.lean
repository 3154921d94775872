import Ganesha.Compound.Common

/-!
# What a COMPOUND evaluates
-/

namespace Ganesha.Compound
open Fattr (Build)

variable {σ α ρ : Type} {ops : Operations σ α ρ} {build : Build} {minor argop : ℕ}
  {l : List (ArgOp α)} {s s' : Loop σ α ρ}

/-! ## The evaluation -/

/-- The function of an operation code: the one of the table, or the one for codes that are not defined. -/
def handlerOf (minor argop : ℕ) : Funct :=
  (((optabvers minor).find? fun desc => desc.val = argop).map OpDesc.funct).getD .nfs4OpIllegal

/-- An operation that was done: the function, the request and the reply. -/
structure Done (α ρ : Type) where
  funct : Funct
  op : ArgOp α
  res : ResOp ρ

/-- The operations in order, up to the first that fails, and the data behind them. -/
def evaluate (ops : Operations σ α ρ) (build : Build) (minor : ℕ) :
    List (ArgOp α) → ℕ → CompoundData σ ρ → List (Done α ρ) × CompoundData σ ρ
  | [], _, data => ([], data)
  | op :: rest, i, data =>
    let r := ops.run (handlerOf minor op.argop) op (setOppos build i data)
    if r.2.status ≠ nfs4Ok then ([⟨handlerOf minor op.argop, op, r.2⟩], r.1)
    else
      let e := evaluate ops build minor rest (i + 1) r.1
      (⟨handlerOf minor op.argop, op, r.2⟩ :: e.1, e.2)

/-- The calls of the operations that were done. -/
def callsOf (done : List (Done α ρ)) : List (Funct × ArgOp α) := done.map fun d => (d.funct, d.op)

/-- The status of the last operation. -/
def lastStatus (done : List (Done α ρ)) : ℕ := ((done.getLast?).map fun d => d.res.status).getD nfs4Ok

/-- The functions are called in order, and the reply has an entry for each of them and the status of
the last. -/
structure Matches (o : Outcome σ α ρ) (e : List (Done α ρ) × CompoundData σ ρ) : Prop where
  calls : o.calls = callsOf e.1
  data : o.data = e.2
  len : o.reply.len = e.1.length
  entries : o.reply.entries.map ResOp.status = e.1.map fun d => d.res.status
  status : o.reply.status = lastStatus e.1

/-- A request without credentials, or for which there is no memory, is dropped. -/
def Dropped (req : Request σ α ρ) : Prop := req.argarray ≠ [] ∧ ¬ (req.credOk = true ∧ req.allocOk = true)

/-- A request is evaluated. -/
def CompoundLaw (ops : Operations σ α ρ) (build : Build) (req : Request σ α ρ) : Prop :=
  (Dropped req ∧ nfs4Compound ops build req = some .drop) ∨
    ∃ o, nfs4Compound ops build req = some (.ok o) ∧
      Matches o (evaluate ops build req.minorversion req.argarray 0 (initialData req.start))

/-! ## Dispatching -/

/-- The codes that are dispatched to their function: not 0, 1 and 2, and in the build for NFSv4.1 not
those that NFSv4.0 does not have. -/
def Served (build : Build) (minor argop : ℕ) : Prop :=
  3 ≤ argop ∧ (build = .nfs41 → minor = 0 → argop ≤ nfs4OpReleaseLockowner)

instance : Decidable (Served build minor argop) := inferInstanceAs (Decidable (_ ∧ _))

lemma val_le (minor : ℕ) : ∀ desc ∈ optabvers minor,
    desc.val ≤ nfs4OpReclaimComplete ∨ desc.funct = .nfs4OpIllegal := by
  rcases minor with - | minor
  · decide
  · show ∀ desc ∈ optab4v1, _
    decide

/-- Numbers beyond the last are illegal. -/
lemma handlerOf_large (h : nfs4OpReclaimComplete < argop) : handlerOf minor argop = .nfs4OpIllegal := by
  unfold handlerOf
  cases hfind : (optabvers minor).find? fun desc => desc.val = argop with
  | none => rfl
  | some desc =>
    have hval : desc.val = argop := by simpa using List.find?_some hfind
    rcases val_le minor desc (List.mem_of_find?_eq_some hfind) with hle | hillegal
    · omega
    · exact hillegal

lemma dispatch_small (build : Build) : ∀ minor ∈ [0, 1], Accepts build minor →
    ∀ argop < nfs4OpReclaimComplete + 1, Served build minor argop →
      (dispatch build minor argop).map OpDesc.funct = some (handlerOf minor argop) := by
  cases build <;> decide +kernel

lemma dispatch_large (build : Build) : ∀ minor ∈ [0, 1], Accepts build minor →
    (build = .nfs41 → minor ≠ 0) →
    (descOf build minor (posIllegal build)).map OpDesc.funct = some .nfs4OpIllegal := by
  cases build <;> decide +kernel

lemma Accepts.mem (h : Accepts build minor) : minor ∈ [0, 1] := by
  cases build <;> simp only [Accepts] at h <;> simp <;> omega

/-- A served operation is sent to its own handler. -/
lemma dispatch_of_served (haccepts : Accepts build minor) (h : Served build minor argop) :
    ∃ desc, dispatch build minor argop = some desc ∧ desc.funct = handlerOf minor argop := by
  have hmap : (dispatch build minor argop).map OpDesc.funct = some (handlerOf minor argop) := by
    by_cases hsmall : argop < nfs4OpReclaimComplete + 1
    · exact dispatch_small build minor haccepts.mem haccepts argop hsmall h
    have hlarge : nfs4OpReclaimComplete < argop := by omega
    have hno : ¬ inTable build minor argop := by
      unfold inTable
      have hlast : nfs4OpReleaseLockowner < nfs4OpReclaimComplete := by decide
      omega
    rw [handlerOf_large hlarge, dispatch, if_neg hno]
    refine dispatch_large build minor haccepts.mem haccepts fun hbuild hminor => ?_
    have hle := h.2 hbuild hminor
    have hlast : nfs4OpReleaseLockowner < nfs4OpReclaimComplete := by decide
    omega
  obtain ⟨desc, hdesc, hfunct⟩ := Option.map_eq_some_iff.mp hmap
  exact ⟨desc, hdesc, hfunct⟩

/-- Any other is refused or sent elsewhere. -/
lemma dispatch_of_not_served (haccepts : Accepts build minor) (h : ¬ Served build minor argop) :
    dispatch build minor argop = none ∨
      ∃ desc, dispatch build minor argop = some desc ∧ desc.funct ≠ handlerOf minor argop := by
  have hsmall : ∀ minor ∈ [0, 1], Accepts build minor → ∀ argop < 3,
      (dispatch build minor argop).map OpDesc.funct = some .nfs4OpAccess ∧
        handlerOf minor argop = .nfs4OpIllegal := by
    cases build <;> decide +kernel
  by_cases hlow : argop < 3
  · right
    obtain ⟨hmap, hhandler⟩ := hsmall minor haccepts.mem haccepts argop hlow
    obtain ⟨desc, hdesc, hfunct⟩ := Option.map_eq_some_iff.mp hmap
    refine ⟨desc, hdesc, ?_⟩
    rw [hfunct, hhandler]
    decide
  · left
    have hold : build = .nfs41 ∧ minor = 0 ∧ nfs4OpReleaseLockowner < argop := by
      by_contra hno
      refine h ⟨by omega, fun hbuild hminor => ?_⟩
      by_contra hlt
      exact hno ⟨hbuild, hminor, by omega⟩
    obtain ⟨rfl, rfl, hlt⟩ := hold
    have hno : ¬ inTable .nfs41 0 argop := by
      unfold inTable
      omega
    rw [dispatch, if_neg hno]
    decide

/-- The codes that a table can be indexed with. -/
def Named (minor argop : ℕ) : Prop := argop ≤ if minor = 0 then 40 else 59

instance : Decidable (Named minor argop) := inferInstanceAs (Decidable (_ ≤ _))

lemma descOf_large (build : Build) (minor : ℕ) (h : 62 ≤ argop) : descOf build minor argop = none := by
  have hlength : (optab4index build).length ≤ 62 := by cases build <;> decide
  unfold descOf
  rw [List.getElem?_eq_none (by omega)]
  rfl

/-- Which operations have a table entry. -/
lemma isSome_descOf (haccepts : Accepts build minor) :
    (descOf build minor argop).isSome ↔ Named minor argop := by
  have hsmall : ∀ minor ∈ [0, 1], Accepts build minor → ∀ argop < 62,
      ((descOf build minor argop).isSome ↔ Named minor argop) := by
    cases build <;> decide +kernel
  by_cases hlt : argop < 62
  · exact hsmall minor haccepts.mem haccepts argop hlt
  · rw [descOf_large build minor (by omega)]
    refine iff_of_false (by simp) ?_
    unfold Named
    split_ifs <;> omega

/-- The number the table entry holds. -/
lemma val_descOf : (descOf .nfs41 1 argop).map OpDesc.val =
    if argop < 3 then some 3
    else if argop ≤ nfs4OpReclaimComplete then some argop
    else if argop = 59 then some 10044
    else none := by
  have hsmall : ∀ argop < 62, (descOf .nfs41 1 argop).map OpDesc.val =
      if argop < 3 then some 3
      else if argop ≤ nfs4OpReclaimComplete then some argop
      else if argop = 59 then some 10044
      else none := by decide +kernel
  by_cases hlt : argop < 62
  · exact hsmall argop hlt
  · have hlast : nfs4OpReclaimComplete = 58 := rfl
    rw [descOf_large .nfs41 1 (by omega), if_neg (by omega), if_neg (by omega), if_neg (by omega)]
    rfl

/-- The entry that holds a given number. -/
lemma val_descOf_eq {val : ℕ} (hval : 3 < val) (hlast : val ≤ nfs4OpReclaimComplete) :
    ((descOf .nfs41 1 argop).map OpDesc.val = some val) ↔ argop = val := by
  rw [val_descOf]
  have hlast' : nfs4OpReclaimComplete = 58 := rfl
  split_ifs with hlow hle h59
  · rw [Option.some.injEq]
    omega
  · rw [Option.some.injEq]
  · rw [Option.some.injEq]
    omega
  · refine iff_of_false (by simp) ?_
    omega

/-! ## The loop -/

/-- Each operation is served and allowed by the session, up to the first that fails. -/
def Clean (ops : Operations σ α ρ) (build : Build) (minor : ℕ) :
    List (ArgOp α) → ℕ → CompoundData σ ρ → Prop
  | [], _, _ => True
  | op :: rest, i, data =>
    Served build minor op.argop ∧ ¬ tooManyOps build minor i (setOppos build i data) ∧
      let r := ops.run (handlerOf minor op.argop) op (setOppos build i data)
      (r.2.status = nfs4Ok → Clean ops build minor rest (i + 1) r.1)

/-- The loop has done these operations. -/
structure Evaluated (s s' : Loop σ α ρ) (e : List (Done α ρ) × CompoundData σ ρ) : Prop where
  calls : s'.calls = s.calls ++ callsOf e.1
  data : s'.data = e.2
  len : s'.len = s.i + e.1.length
  entries : s'.entries = s.entries ++ e.1.map Done.res
  status : s'.status = ((e.1.getLast?).map fun d => d.res.status).getD s.status
  replay : s'.replay = s.replay
  le : s.i ≤ s'.i

lemma callsOf_cons (d : Done α ρ) (done : List (Done α ρ)) :
    callsOf (d :: done) = (d.funct, d.op) :: callsOf done := rfl

/-- The loop after one operation more. -/
def Loop.push (s : Loop σ α ρ) (d : Done α ρ) (data : CompoundData σ ρ) : Loop σ α ρ :=
  { s with
    calls := s.calls ++ [(d.funct, d.op)]
    data := data
    entries := s.entries ++ [d.res]
    status := d.res.status
    i := s.i + 1 }

variable {data : CompoundData σ ρ}

/-- One operation in front of the rest. -/
lemma Evaluated.cons {d : Done α ρ} {e : List (Done α ρ) × CompoundData σ ρ}
    (h : Evaluated (s.push d data) s' e) :
    Evaluated s s' (d :: e.1, e.2) where
  calls := by
    rw [h.calls, callsOf_cons]
    exact List.append_assoc ..
  data := h.data
  len := by
    rw [h.len, List.length_cons]
    show s.i + 1 + e.1.length = s.i + (e.1.length + 1)
    omega
  entries := by
    rw [h.entries, List.map_cons]
    exact List.append_assoc ..
  status := by
    rw [h.status, List.getLast?_cons]
    cases e.1.getLast? <;> rfl
  replay := h.replay
  le := (Nat.le_succ _).trans h.le

lemma replays_of_pos {i : ℕ} (hi : 1 ≤ i) : replays build minor i argop data = some false := by
  unfold replays
  rw [if_neg]
  omega

variable {op : ArgOp α}

/-- One served operation of the loop. -/
lemma operationsLoop_served (ops : Operations σ α ρ) (rest : List (ArgOp α)) (haccepts : Accepts build minor)
    (hserved : Served build minor op.argop)
    (hallowed : ¬ tooManyOps build minor s.i (setOppos build s.i s.data)) :
    operationsLoop ops build minor (op :: rest) s =
      let r := ops.run (handlerOf minor op.argop) op (setOppos build s.i s.data)
      let s' := s.push ⟨handlerOf minor op.argop, op, r.2⟩ r.1
      if r.2.status ≠ nfs4Ok then some { s' with len := s.i + 1, i := s.i }
      else (replays build minor s.i op.argop r.1).bind fun replay =>
        if replay then r.1.cachedRes.bind fun cached =>
          some { s' with status := cached.status, replay := some cached, i := s.i }
        else operationsLoop ops build minor rest s' := by
  obtain ⟨desc, hdesc, hfunct⟩ := dispatch_of_served haccepts hserved
  rw [operationsLoop]
  dsimp only
  rw [if_neg hallowed, hdesc]
  simp only [Option.bind_eq_bind, Option.bind_some]
  rw [hfunct]
  rfl

/-- The whole loop, by induction on the operations left. -/
lemma operationsLoop_of_clean (haccepts : Accepts build minor) (hi : 1 ≤ s.i)
    (hlen : s.len = s.i + l.length) (h : Clean ops build minor l s.i s.data) :
    ∃ s', operationsLoop ops build minor l s = some s' ∧
      Evaluated s s' (evaluate ops build minor l s.i s.data) := by
  induction l generalizing s with
  | nil =>
    refine ⟨s, rfl, ?_⟩
    exact ⟨(List.append_nil _).symm, rfl, hlen, (List.append_nil _).symm, rfl, rfl, le_rfl⟩
  | cons op rest ih =>
    obtain ⟨hserved, hallowed, hrest⟩ := h
    rw [operationsLoop_served ops rest haccepts hserved hallowed, evaluate]
    dsimp only
    by_cases hok : (ops.run (handlerOf minor op.argop) op (setOppos build s.i s.data)).2.status ≠ nfs4Ok
    · rw [if_pos hok, if_pos hok]
      exact ⟨_, rfl, rfl, rfl, rfl, rfl, rfl, rfl, le_rfl⟩
    rw [if_neg hok, if_neg hok, replays_of_pos hi, Option.bind_some]
    rw [not_not] at hok
    rw [List.length_cons] at hlen
    obtain ⟨s', hs', hdone⟩ := ih (s := s.push ⟨handlerOf minor op.argop, op,
        (ops.run (handlerOf minor op.argop) op (setOppos build s.i s.data)).2⟩
        (ops.run (handlerOf minor op.argop) op (setOppos build s.i s.data)).1)
      (Nat.le_succ_of_le hi) (by show s.len = s.i + 1 + rest.length; omega) (hrest hok)
    exact ⟨s', hs', hdone.cons⟩

/-- The loop only adds calls. -/
lemma operationsLoop_calls (h : operationsLoop ops build minor l s = some s') :
    ∃ more, s'.calls = s.calls ++ more := by
  induction l generalizing s with
  | nil =>
    rw [← Option.some.inj h]
    exact ⟨[], (List.append_nil _).symm⟩
  | cons op rest ih =>
    rw [operationsLoop] at h
    dsimp only at h
    split_ifs at h with hmany
    · rw [← Option.some.inj h]
      exact ⟨[], (List.append_nil _).symm⟩
    rw [Option.bind_eq_bind, Option.bind_eq_some_iff] at h
    obtain ⟨desc, -, h⟩ := h
    split_ifs at h with hok
    · rw [← Option.some.inj h]
      exact ⟨[(desc.funct, op)], rfl⟩
    rw [Option.bind_eq_bind, Option.bind_eq_some_iff] at h
    obtain ⟨replay, -, h⟩ := h
    split_ifs at h with hreplay
    · rw [Option.bind_eq_bind, Option.bind_eq_some_iff] at h
      obtain ⟨cached, -, h⟩ := h
      rw [← Option.some.inj h]
      exact ⟨[(desc.funct, op)], rfl⟩
    · obtain ⟨more, hmore⟩ := ih h
      refine ⟨(desc.funct, op) :: more, ?_⟩
      rw [hmore]
      exact List.append_assoc ..

/-- The first call is that of the first operation. -/
lemma operationsLoop_cons_calls {desc : OpDesc}
    (hmany : ¬ tooManyOps build minor s.i (setOppos build s.i s.data))
    (hdesc : dispatch build minor op.argop = some desc)
    (h : operationsLoop ops build minor (op :: l) s = some s') :
    ∃ more, s'.calls = s.calls ++ (desc.funct, op) :: more := by
  rw [operationsLoop] at h
  dsimp only at h
  rw [if_neg hmany, hdesc] at h
  simp only [Option.bind_eq_bind, Option.bind_some] at h
  split_ifs at h with hok
  · rw [← Option.some.inj h]
    exact ⟨[], rfl⟩
  rw [Option.bind_eq_some_iff] at h
  obtain ⟨replay, -, h⟩ := h
  split_ifs at h with hreplay
  · rw [Option.bind_eq_some_iff] at h
    obtain ⟨cached, -, h⟩ := h
    rw [← Option.some.inj h]
    exact ⟨[], rfl⟩
  · obtain ⟨more, hmore⟩ := operationsLoop_calls h
    refine ⟨more, ?_⟩
    rw [hmore]
    exact List.append_assoc ..

lemma evaluate_cons (ops : Operations σ α ρ) (build : Build) (minor : ℕ) (op : ArgOp α)
    (rest : List (ArgOp α)) (i : ℕ) (data : CompoundData σ ρ) :
    ∃ res e, (evaluate ops build minor (op :: rest) i data).1 =
      ⟨handlerOf minor op.argop, op, res⟩ :: e := by
  rw [evaluate]
  dsimp only
  split_ifs
  · exact ⟨_, _, rfl⟩
  · exact ⟨_, _, rfl⟩

/-- When an operation is not served, or not allowed by the session, other functions are called than
those of the operations. -/
lemma operationsLoop_of_not_clean (haccepts : Accepts build minor)
    (h : ¬ Clean ops build minor l s.i s.data) :
    ∀ s', operationsLoop ops build minor l s = some s' →
      s'.calls ≠ s.calls ++ callsOf (evaluate ops build minor l s.i s.data).1 := by
  induction l generalizing s with
  | nil => exact absurd trivial h
  | cons op rest ih =>
    intro s' hs'
    obtain ⟨res, e, hfirst⟩ := evaluate_cons ops build minor op rest s.i s.data
    by_cases hmany : tooManyOps build minor s.i (setOppos build s.i s.data)
    · -- the loop is left before the operation
      rw [operationsLoop] at hs'
      dsimp only at hs'
      rw [if_pos hmany] at hs'
      rw [← Option.some.inj hs', hfirst, callsOf_cons]
      simp
    by_cases hserved : Served build minor op.argop
    swap
    · -- the function is another one
      rcases dispatch_of_not_served haccepts hserved with hnone | ⟨desc, hdesc, hfunct⟩
      · rw [operationsLoop] at hs'
        dsimp only at hs'
        rw [if_neg hmany, hnone] at hs'
        cases hs'
      · obtain ⟨more, hmore⟩ := operationsLoop_cons_calls hmany hdesc hs'
        rw [hmore, hfirst, callsOf_cons]
        intro heq
        have hcons := List.append_cancel_left heq
        exact hfunct (congrArg Prod.fst (List.cons.inj hcons).1)
    rw [operationsLoop_served ops rest haccepts hserved hmany] at hs'
    dsimp only at hs'
    have hok : (ops.run (handlerOf minor op.argop) op (setOppos build s.i s.data)).2.status = nfs4Ok := by
      by_contra hfail
      exact h ⟨hserved, hmany, fun hok => absurd hok hfail⟩
    have hrest : ¬ Clean ops build minor rest (s.i + 1)
        (ops.run (handlerOf minor op.argop) op (setOppos build s.i s.data)).1 :=
      fun hrest => h ⟨hserved, hmany, fun _ => hrest⟩
    rw [if_neg (not_not.mpr hok), Option.bind_eq_some_iff] at hs'
    obtain ⟨replay, -, hs'⟩ := hs'
    rw [evaluate]
    dsimp only
    rw [if_neg (not_not.mpr hok), callsOf_cons]
    split_ifs at hs' with hreplay
    · -- the replay ends the loop before the operation that is not served
      rw [Option.bind_eq_some_iff] at hs'
      obtain ⟨cached, -, hs'⟩ := hs'
      rw [← Option.some.inj hs']
      cases rest with
      | nil => exact absurd trivial hrest
      | cons op' rest' =>
        obtain ⟨res', e', hsecond⟩ := evaluate_cons ops build minor op' rest' (s.i + 1)
          (ops.run (handlerOf minor op.argop) op (setOppos build s.i s.data)).1
        rw [hsecond, callsOf_cons]
        simp [Loop.push]
    · have hdiffers := ih (s := s.push ⟨handlerOf minor op.argop, op,
          (ops.run (handlerOf minor op.argop) op (setOppos build s.i s.data)).2⟩
          (ops.run (handlerOf minor op.argop) op (setOppos build s.i s.data)).1) hrest s' hs'
      intro heq
      apply hdiffers
      rw [heq]
      exact List.append_cons ..

/-! ## The whole compound -/

/-- The reply to a first operation is taken from the cache. -/
def Replayed (build : Build) (minor argop : ℕ) (data : CompoundData σ ρ) : Prop :=
  build = .nfs41 ∧ minor = 1 ∧ (argop = nfs4OpSequence ∨ argop = nfs4OpCreateSession) ∧ data.useDrc

/-- The cached reply is the one of a single operation that succeeds. -/
def SingleOk (data : CompoundData σ ρ) : Prop :=
  ∃ c, data.cachedRes = some c ∧ c.status = nfs4Ok ∧ c.len = 1 ∧ c.entries.map ResOp.status = [nfs4Ok]

/-- The requests that are evaluated. -/
structure Evaluable (ops : Operations σ α ρ) (build : Build) (req : Request σ α ρ) : Prop where
  /-- The loop of the log finds all the names. -/
  named : req.log = .fullDebug → ∀ op ∈ req.argarray, Named req.minorversion op.argop
  /-- The first of several operations has a name, and is no EXCHANGE_ID. -/
  first : build = .nfs41 → 1 < req.argarray.length → ∀ op ∈ req.argarray.head?,
    Named 1 op.argop ∧ op.argop ≠ nfs4OpExchangeId
  clean : Clean ops build req.minorversion req.argarray 0 (initialData req.start)
  /-- No message is written about the end of a loop that is left at the first operation. -/
  failed : ∀ op ∈ req.argarray.head?,
    (ops.run (handlerOf req.minorversion op.argop) op
      (setOppos build 0 (initialData req.start))).2.status ≠ nfs4Ok → req.log = .event
  replayed : ∀ op rest, req.argarray = op :: rest →
    (ops.run (handlerOf req.minorversion op.argop) op
      (setOppos build 0 (initialData req.start))).2.status = nfs4Ok →
    Replayed build req.minorversion op.argop (ops.run (handlerOf req.minorversion op.argop) op
      (setOppos build 0 (initialData req.start))).1 →
    rest = [] ∧ req.log = .event ∧ SingleOk (ops.run (handlerOf req.minorversion op.argop) op
      (setOppos build 0 (initialData req.start))).1

/-- When a compound is refused for what stands first. -/
lemma notOnlyOp_iff : notOnlyOp build l = some false ↔
    (build = .nfs41 → 1 < l.length → ∀ op ∈ l.head?,
      Named 1 op.argop ∧ op.argop ≠ nfs4OpExchangeId) := by
  match l with
  | [] => simp [notOnlyOp]
  | [op] => simp [notOnlyOp]
  | op :: op' :: rest =>
    cases build with
    | nfs40 => simp [notOnlyOp]
    | nfs41 =>
      have hnamed : (descOf .nfs41 1 op.argop).isSome ↔ Named 1 op.argop :=
        isSome_descOf (by decide)
      have hval : (descOf .nfs41 1 op.argop).map OpDesc.val = some nfs4OpExchangeId ↔
          op.argop = nfs4OpExchangeId := val_descOf_eq (by decide) (by decide)
      have hlength : 1 < rest.length + 1 + 1 := by omega
      simp only [notOnlyOp, List.head?_cons, Option.mem_def, Option.some.injEq, forall_eq',
        List.length_cons, forall_const, hlength]
      rw [Option.map_eq_some_iff, ← hnamed, ne_eq, ← hval]
      cases descOf .nfs41 1 op.argop with
      | none => simp
      | some desc => simp

/-- When an operation is answered from the slot. -/
lemma replays_eq (h : argop ≤ 59) :
    ∃ replay, replays build minor 0 argop data = some replay ∧
      (replay = true ↔ Replayed build minor argop data) := by
  unfold replays Replayed
  by_cases hversion : build = .nfs41 ∧ minor = 1
  swap
  · rw [if_neg fun h => hversion ⟨h.1, h.2.1⟩]
    exact ⟨false, rfl, iff_of_false (by decide) fun h => hversion ⟨h.1, h.2.1⟩⟩
  rw [if_pos ⟨hversion.1, hversion.2, rfl⟩]
  obtain ⟨rfl, rfl⟩ := hversion
  have hsome : (descOf .nfs41 1 argop).isSome := (isSome_descOf (by decide)).mpr h
  obtain ⟨desc, hdesc⟩ := Option.isSome_iff_exists.mp hsome
  have hsequence : (descOf .nfs41 1 argop).map OpDesc.val = some nfs4OpSequence ↔
      argop = nfs4OpSequence := val_descOf_eq (by decide) (by decide)
  have hcreate : (descOf .nfs41 1 argop).map OpDesc.val = some nfs4OpCreateSession ↔
      argop = nfs4OpCreateSession := val_descOf_eq (by decide) (by decide)
  rw [hdesc, Option.map_some, Option.some.injEq] at hsequence hcreate
  rw [hdesc, Option.bind_eq_bind, Option.bind_some]
  refine ⟨_, rfl, ?_⟩
  rw [decide_eq_true_eq, hsequence, hcreate]
  simp

/-- The loop at the beginning. -/
def Loop.start (req : Request σ α ρ) : Loop σ α ρ where
  calls := []
  data := initialData req.start
  len := req.argarray.length
  entries := []
  status := nfs4Ok
  i := 0
  replay := none

/-- What is done behind the checks of the request. -/
def finish (ops : Operations σ α ρ) (build : Build) (req : Request σ α ρ) :
    Option (Result σ α ρ) := do
  let s ← operationsLoop ops build req.minorversion req.argarray (Loop.start req)
  let reply := (s.replay.map fun r => { r with status := s.status }).getD
    ⟨s.status, s.len, s.entries⟩
  if req.log ≠ .event ∧ s.i = 0 then none
  else
    some (.ok
      { calls := s.calls
        data := s.data
        reply := reply
        cached := if req.minorversion = 1 ∧ s.data.cachedRes.isSome then some reply else none })

variable {req : Request σ α ρ}

lemma nfs4Compound_eq (haccepts : Accepts build req.minorversion) (hle : req.argarray.length ≤ 30)
    (hcred : req.credOk = true) (halloc : req.allocOk = true) (hne : req.argarray ≠ []) : nfs4Compound ops build req =
      if req.log = .fullDebug ∧ ¬ debugLoop build req.minorversion req.argarray then none
      else (notOnlyOp build req.argarray).bind fun only =>
        if only then some (.ok (.early req.start
          ⟨nfs4errNotOnlyOp, req.oldLen, [⟨nfs4errNotOnlyOp, ops.empty⟩]⟩))
        else finish ops build req := by
  have hlength : req.argarray.length ≠ 0 := fun h => hne (List.length_eq_zero_iff.mp h)
  unfold nfs4Compound
  rw [if_neg (not_not.mpr haccepts), if_neg hlength, if_neg (by omega), if_neg (by simp [hcred]),
    if_neg (by simp [halloc])]
  rfl

lemma lastStatus_cons (d : Done α ρ) (done : List (Done α ρ)) :
    lastStatus (d :: done) = ((done.getLast?).map fun d => d.res.status).getD d.res.status := by
  unfold lastStatus
  rw [List.getLast?_cons]
  cases done.getLast? <;> rfl

/-- The loop and what follows it against the evaluation. -/
lemma finish_matches_iff {rest : List (ArgOp α)} (haccepts : Accepts build req.minorversion)
    (hreq : req.argarray = op :: rest)
    (hclean : Clean ops build req.minorversion req.argarray 0 (initialData req.start)) :
    (∃ o, finish ops build req = some (.ok o) ∧
        Matches o (evaluate ops build req.minorversion req.argarray 0 (initialData req.start))) ↔
      let r := ops.run (handlerOf req.minorversion op.argop) op
        (setOppos build 0 (initialData req.start))
      (r.2.status ≠ nfs4Ok → req.log = .event) ∧
        (r.2.status = nfs4Ok → Replayed build req.minorversion op.argop r.1 →
          rest = [] ∧ req.log = .event ∧ SingleOk r.1) := by
  rw [hreq] at hclean ⊢
  obtain ⟨hserved, hallowed, hrest⟩ := hclean
  dsimp only at hrest ⊢
  have hloop := operationsLoop_served (s := Loop.start req) ops rest haccepts hserved hallowed
  rw [evaluate]
  unfold finish
  rw [hreq, hloop]
  dsimp only [Loop.start]
  generalize hr : ops.run (handlerOf req.minorversion op.argop) op
    (setOppos build 0 (initialData req.start)) = r at *
  by_cases hok : r.2.status ≠ nfs4Ok
  · rw [if_pos hok, if_pos hok]
    simp only [Option.bind_eq_bind, Option.bind_some]
    by_cases hlog : req.log = .event
    · rw [if_neg fun h => h.1 hlog]
      refine iff_of_true ⟨_, rfl, ?_⟩ ⟨fun _ => hlog, fun h => absurd h hok⟩
      exact ⟨rfl, rfl, rfl, rfl, rfl⟩
    · rw [if_pos ⟨hlog, trivial⟩]
      refine iff_of_false ?_ fun h => hlog (h.1 hok)
      rintro ⟨o, ho, -⟩
      cases ho
  rw [if_neg hok, if_neg hok]
  rw [not_not] at hok
  -- an operation that succeeds has a code of the table
  have hnamed : op.argop ≤ 59 := by
    by_contra hlarge
    have hlast : nfs4OpReclaimComplete = 58 := rfl
    have hillegal := (ops.illegal op (setOppos build 0 (initialData req.start))).2
    have hhandler : handlerOf req.minorversion op.argop = .nfs4OpIllegal :=
      handlerOf_large (by omega)
    rw [← hhandler, hr, hok] at hillegal
    cases hillegal
  obtain ⟨replay, hreplays, hiff⟩ : ∃ replay,
      replays build req.minorversion 0 op.argop r.1 = some replay ∧
        (replay = true ↔ Replayed build req.minorversion op.argop r.1) := replays_eq hnamed
  rw [hreplays, Option.bind_some]
  by_cases hreplay : replay = true
  · rw [if_pos hreplay]
    have hreplayed := hiff.mp hreplay
    cases hcached : r.1.cachedRes with
    | none =>
      refine iff_of_false ?_ ?_
      · rintro ⟨o, ho, -⟩
        cases ho
      · rintro ⟨-, h⟩
        obtain ⟨-, -, c, hc, -⟩ := h hok hreplayed
        rw [hcached] at hc
        cases hc
    | some cached =>
      simp only [Option.bind_eq_bind, Option.bind_some]
      by_cases hlog : req.log = .event
      swap
      · rw [if_pos ⟨hlog, trivial⟩]
        refine iff_of_false ?_ fun h => hlog (h.2 hok hreplayed).2.1
        rintro ⟨o, ho, -⟩
        cases ho
      rw [if_neg fun h => h.1 hlog]
      constructor
      · rintro ⟨o, ho, hmatches⟩
        rw [← Result.ok.inj (Option.some.inj ho)] at hmatches
        have hnil : rest = [] := by
          -- one call was made
          cases rest with
          | nil => rfl
          | cons op' rest' =>
            obtain ⟨res', e', hsecond⟩ := evaluate_cons ops build req.minorversion op' rest' 1 r.1
            have hcalls := hmatches.calls
            rw [hsecond] at hcalls
            cases hcalls
        rw [hnil] at hmatches
        refine ⟨fun h => absurd hok h, fun _ _ => ⟨hnil, hlog, cached, hcached, ?_, ?_, ?_⟩⟩
        · exact hmatches.status.trans hok
        · exact hmatches.len
        · rw [← hok]
          exact hmatches.entries
      · rintro ⟨-, h⟩
        obtain ⟨hnil, -, c, hc, hstatus, hlen, hentries⟩ := h hok hreplayed
        rw [hcached] at hc
        rw [← Option.some.inj hc] at hstatus hlen hentries
        refine ⟨_, rfl, ?_⟩
        rw [hnil]
        refine ⟨rfl, rfl, hlen, ?_, ?_⟩
        · rw [evaluate, List.map_cons, hok]
          exact hentries
        · rw [evaluate, lastStatus_cons]
          exact hstatus.trans hok.symm
  · rw [if_neg hreplay]
    obtain ⟨s', hs', hdone⟩ := operationsLoop_of_clean (l := rest)
      (s := (Loop.start req).push ⟨handlerOf req.minorversion op.argop, op, r.2⟩ r.1) haccepts
      le_rfl (by show req.argarray.length = 1 + rest.length; rw [hreq, List.length_cons]; omega)
      (hrest hok)
    have hpos : s'.i ≠ 0 := Nat.one_le_iff_ne_zero.mp hdone.le
    refine iff_of_true ?_ ⟨fun h => absurd hok h, fun _ h => absurd (hiff.mpr h) hreplay⟩
    dsimp only [Loop.start] at hs'
    rw [hs']
    simp only [Option.bind_eq_bind, Option.bind_some]
    rw [if_neg fun h => hpos h.2, hdone.replay]
    refine ⟨_, rfl, ?_⟩
    constructor
    · rw [callsOf_cons]
      exact hdone.calls
    · exact hdone.data
    · show s'.len = _
      rw [hdone.len, List.length_cons]
      exact Nat.add_comm 1 _
    · show s'.entries.map ResOp.status = _
      rw [hdone.entries, List.map_append, List.map_cons, List.map_map]
      rfl
    · rw [lastStatus_cons]
      exact hdone.status

/-- The compound against the evaluation. -/
lemma nfs4Compound_matches_iff (haccepts : Accepts build req.minorversion) (hle : req.argarray.length ≤ 30)
    (hkept : ¬ Dropped req) :
    (∃ o, nfs4Compound ops build req = some (.ok o) ∧
        Matches o (evaluate ops build req.minorversion req.argarray 0 (initialData req.start))) ↔
      Evaluable ops build req := by
  cases hreq : req.argarray with
  | nil =>
    have hresult : nfs4Compound ops build req = some (.ok (.early req.start ⟨nfs4Ok, 0, []⟩)) := by
      unfold nfs4Compound
      rw [if_neg (not_not.mpr haccepts), if_pos (by rw [hreq]; rfl)]
    refine iff_of_true ⟨_, hresult, ⟨rfl, rfl, rfl, rfl, rfl⟩⟩ ?_
    constructor
    all_goals simp [hreq, Clean]
  | cons op rest =>
    have hne : req.argarray ≠ [] := by simp [hreq]
    obtain ⟨hcred, halloc⟩ : req.credOk = true ∧ req.allocOk = true := by
      by_contra hno
      exact hkept ⟨hne, hno⟩
    rw [nfs4Compound_eq haccepts hle hcred halloc hne, ← hreq]
    have hnamed : debugLoop build req.minorversion req.argarray ↔
        ∀ op ∈ req.argarray, Named req.minorversion op.argop := by
      unfold debugLoop
      exact forall₂_congr fun _ _ => isSome_descOf haccepts
    by_cases hlog : req.log = .fullDebug ∧ ¬ debugLoop build req.minorversion req.argarray
    · rw [if_pos hlog]
      refine iff_of_false ?_ fun h => hlog.2 (hnamed.mpr (h.named hlog.1))
      rintro ⟨o, ho, -⟩
      cases ho
    rw [if_neg hlog]
    have hnames : req.log = .fullDebug → ∀ op ∈ req.argarray, Named req.minorversion op.argop :=
      fun hfull => hnamed.mp (not_not.mp fun hno => hlog ⟨hfull, hno⟩)
    -- the evaluation begins with a call
    have hcalls : (callsOf (evaluate ops build req.minorversion req.argarray 0
        (initialData req.start)).1) ≠ [] := by
      obtain ⟨res, e, hfirst⟩ := evaluate_cons ops build req.minorversion op rest 0
        (initialData req.start)
      rw [hreq, hfirst, callsOf_cons]
      exact List.cons_ne_nil _ _
    cases hfirst : notOnlyOp build req.argarray with
    | none =>
      refine iff_of_false ?_ fun h => ?_
      · rintro ⟨o, ho, -⟩
        cases ho
      · rw [notOnlyOp_iff.mpr h.first] at hfirst
        cases hfirst
    | some only =>
      cases only with
      | true =>
        refine iff_of_false ?_ fun h => ?_
        · rintro ⟨o, ho, hmatches⟩
          rw [← Result.ok.inj (Option.some.inj ho)] at hmatches
          exact hcalls hmatches.calls.symm
        · rw [notOnlyOp_iff.mpr h.first] at hfirst
          cases hfirst
      | false =>
        rw [Option.bind_some, if_neg (by decide)]
        by_cases hclean : Clean ops build req.minorversion req.argarray 0 (initialData req.start)
        · rw [finish_matches_iff haccepts hreq hclean]
          dsimp only
          constructor
          · rintro ⟨hfailed, hreplayed⟩
            refine ⟨hnames, notOnlyOp_iff.mp hfirst, hclean, fun op' hop' => ?_,
              fun op' rest' hreq' => ?_⟩
            · rw [hreq, List.head?_cons, Option.mem_some_iff] at hop'
              rw [← hop']
              exact hfailed
            · rw [hreq, List.cons.injEq] at hreq'
              rw [← hreq'.1, ← hreq'.2]
              exact hreplayed
          · intro h
            refine ⟨h.failed op ?_, h.replayed op rest hreq⟩
            rw [hreq]
            exact rfl
        · refine iff_of_false ?_ fun h => hclean h.clean
          rintro ⟨o, ho, hmatches⟩
          unfold finish at ho
          rw [Option.bind_eq_bind, Option.bind_eq_some_iff] at ho
          obtain ⟨s', hs', ho⟩ := ho
          have hdiffers := operationsLoop_of_not_clean (s := Loop.start req) haccepts hclean s' hs'
          by_cases hend : req.log ≠ .event ∧ s'.i = 0
          · rw [if_pos hend] at ho
            cases ho
          rw [if_neg hend] at ho
          rw [← Result.ok.inj (Option.some.inj ho)] at hmatches
          exact hdiffers hmatches.calls

/-- A compound of at most 30 operations, of a minor version that is accepted, is evaluated if and only
if it is dropped, or: the log finds the names of all operations when it writes them; the first of
several operations has a name and is no EXCHANGE_ID (in the build for NFSv4.1); the operations have
codes from 3 on, and none of NFSv4.1 when the minor version is 0 (in that build), and the session
allows them, up to the first that fails; the first does not fail when messages are written; and it is
not answered from the cache, or it is alone and so is the cached one. -/
theorem compoundLaw_iff {ops : Operations σ α ρ} {build : Build} {req : Request σ α ρ}
    (haccepts : Accepts build req.minorversion) (hle : req.argarray.length ≤ 30) :
    CompoundLaw ops build req ↔ Dropped req ∨ Evaluable ops build req := by
  by_cases hdropped : Dropped req
  · have hdrop : nfs4Compound ops build req = some .drop := by
      have hlength : req.argarray.length ≠ 0 := fun h => hdropped.1 (List.length_eq_zero_iff.mp h)
      unfold nfs4Compound
      rw [if_neg (not_not.mpr haccepts), if_neg hlength, if_neg (by omega)]
      by_cases hcred : req.credOk = true
      · rw [if_neg (not_not.mpr hcred), if_pos fun halloc => hdropped.2 ⟨hcred, halloc⟩]
      · rw [if_pos hcred]
    exact iff_of_true (Or.inl ⟨hdropped, hdrop⟩) (Or.inl hdropped)
  · rw [or_iff_right hdropped, ← nfs4Compound_matches_iff haccepts hle hdropped]
    exact or_iff_right fun h => hdropped h.1

/-- Operations without data, which all succeed but the one that is illegal. -/
def sampleOps : Operations Unit Unit Unit where
  run funct _ data := (data, ⟨if funct = .nfs4OpIllegal then nfs4errOpIllegal else nfs4Ok, ()⟩)
  empty := ()
  illegal _ _ := ⟨rfl, rfl⟩

/-- A request with these operation codes. -/
def sampleRequest (minor : ℕ) (codes : List ℕ) : Request Unit Unit Unit where
  minorversion := minor
  argarray := codes.map fun argop => ⟨argop, ()⟩
  log := .event
  credOk := true
  allocOk := true
  oldLen := 0
  start := ()

/-- PUTROOTFH, GETATTR, and a code that is not defined. -/
theorem compoundLaw_of_getattr :
    CompoundLaw sampleOps .nfs40 (sampleRequest 0 [24, 9, 10044]) := by
  refine (compoundLaw_iff (by decide) (by decide)).mpr (Or.inr ?_)
  constructor
  · intro h
    cases h
  · intro h
    cases h
  · refine ⟨by decide, by decide, fun _ => ⟨by decide, by decide, fun _ => ⟨by decide, by decide,
      fun _ => trivial⟩⟩⟩
  · intro op _ _
    rfl
  · intro op rest _ _ h
    cases h.1

/-- In the build for NFSv4.1 the table of NFSv4.0 is indexed out of its bounds with the position of
the illegal operation of NFSv4.1. -/
theorem not_compoundLaw_of_illegal : ¬ CompoundLaw sampleOps .nfs41 (sampleRequest 0 [10044]) := by
  rintro (⟨h, -⟩ | ⟨o, ho, -⟩)
  · exact h.2 ⟨rfl, rfl⟩
  · have hfault : (nfs4Compound sampleOps .nfs41 (sampleRequest 0 [10044])).isNone = true := by
      decide +kernel
    rw [ho] at hfault
    cases hfault

end Ganesha.Compound
