import Ganesha.Nfs4.Keys

/-!
# Lists and table of the states

The first half is about the functions of `cache_inode_state.c` called in any order, with states of
any type: the list of a file is linked both ways and holds the states of the table that belong to
the file (`Coherent`), and nothing else as long as the key of a new state is free and the table
takes it (`Listed`). `pstate_tail` is only assigned when a state is put behind another one, and
never read.

The second half is about runs of the server: no two states have the same stateid if no request gives
an owner a second state under one fileid, and the owners that have states under one fileid were made
within 2^16 of each other. That the owners of a run have different counters is derived (`Counted`).
-/

namespace Ganesha.Nfs4
open Library.Transition Library.LinkedList

variable {s s' s₀ : Server} {chain : ℕ → List ℕ} {e e' p q : ℕ}

/-! ## Calls of `cache_inode_state.c` -/

/-- A call, an object that enters the cache, or a change of an owner. -/
inductive StateEvent
  | load (e : ℕ) (type : FileType) (digest : Option UInt64)
  | owner (o : ℕ) (owner : Owner)
  | add (pentry : Option ℕ) (type : StateType) (data : StateData) (powner : ℕ) (setOk : Bool)
  | get (other : Other)
  | delByKey (other : Other)
  | del (p : ℕ)

/-- The server after a call. -/
def stateStep (s : Server) : StateEvent → Option Server
  | .load e type digest =>
    if s.entries e = none then
      some { s with entries := Function.update s.entries e (some ⟨type, digest, none, none⟩) }
    else none
  | .owner o owner => some (s.setOwner o fun _ => owner)
  | .add pentry type data powner setOk =>
    (cacheInodeAddState s pentry type data powner setOk).map fun r => r.2.2
  | .get _ => some s
  | .delByKey other => (cacheInodeDelStateByKey s other).map Prod.snd
  | .del p => (cacheInodeDelState s p).map Prod.snd

/-- Only a state that is in use is deleted. -/
def Live (s : Server) : StateEvent → Prop
  | .del p => (s.states p).pentry.any fun e => p ∈ statesOf s e
  | _ => True

/-- The lists of the files and the table go together. -/
structure Coherent (s : Server) : Prop where
  linked : ∀ e entry, s.entries e = some entry → Linked (fun p => (s.states p).next)
    (fun p => (s.states p).prev) none entry.pstateHead (statesOf s e)
  nodup : ∀ e, (statesOf s e).Nodup
  pentry : ∀ e, ∀ p ∈ statesOf s e, (s.states p).pentry = some e
  table : ∀ other p, s.htStateId other = some p →
    (s.states p).stateidOther = other ∧ ∃ e, (s.states p).pentry = some e ∧ p ∈ statesOf s e

/-- Every state of a list is in the table. -/
def Listed (s : Server) : Prop :=
  ∀ e, ∀ p ∈ statesOf s e, s.htStateId (s.states p).stateidOther = some p

/-- `pstate_tail` is the last state of the list. -/
def TailLast (s : Server) : Prop :=
  ∀ e entry, s.entries e = some entry → entry.pstateTail = (statesOf s e).getLast?

/-- The key of a new state is free, and the table has the memory to take it. -/
def KeyFresh (s : Server) : StateEvent → Prop
  | .add (some e) _ _ powner setOk =>
    setOk = true ∧ ∀ other ∈ s.keyOf e powner, s.htStateId other = none
  | _ => True

/-- Lists that are chained so are coherent. -/
lemma Shape.coherent (h : Shape s chain) : Coherent s where
  linked e entry hentry := by
    rw [h.statesOf_eq]
    exact h.linked e entry hentry
  nodup e := by
    rw [h.statesOf_eq]
    exact h.nodup e
  pentry e p hp := by
    rw [h.statesOf_eq] at hp
    exact h.pentry e p hp
  table other p hp := by
    obtain ⟨hother, e, hmem⟩ := h.table other p hp
    refine ⟨hother, e, h.pentry e p hmem, ?_⟩
    rw [h.statesOf_eq]
    exact hmem

/-- What is left is still listed. -/
lemma Deletes.listed (h : Shape s chain) (hd : Deletes s s' chain e p)
    (hlisted : ∀ e, ∀ p ∈ chain e, s.htStateId (s.states p).stateidOther = some p) :
    ∀ e', ∀ q ∈ shrink chain e p e', s'.htStateId (s'.states q).stateidOther = some q := by
  intro e' q hq
  rw [h.mem_shrink hd.mem] at hq
  have hother := (State.core_eq.mp (hd.core q hq.2)).2.2.2.1
  have hne : (s.states q).stateidOther ≠ (s.states p).stateidOther := fun heq => by
    have hp := hlisted e p hd.mem
    rw [← heq, hlisted e' q hq.1] at hp
    exact hq.2 (Option.some.inj hp)
  rw [hd.htStateId, hother, Function.update_of_ne hne]
  exact hlisted e' q hq.1

/-- Every step on the states keeps the lists. -/
lemma stateStep_shape {ev : StateEvent} (h : Shape s chain) (hlive : Live s ev)
    (hstep : stateStep s ev = some s') :
    ∃ chain', Shape s' chain' ∧ (KeyFresh s ev →
      (∀ e, ∀ p ∈ chain e, s.htStateId (s.states p).stateidOther = some p) →
      ∀ e, ∀ p ∈ chain' e, s'.htStateId (s'.states p).stateidOther = some p) := by
  cases ev with
  | load e type digest =>
    simp only [stateStep] at hstep
    split_ifs at hstep with he
    cases hstep
    exact ⟨chain, h.load he type digest, fun _ => id⟩
  | owner o owner =>
    cases hstep
    exact ⟨chain, h.setOwner _, fun _ => id⟩
  | get other =>
    cases hstep
    exact ⟨chain, h, fun _ => id⟩
  | add pentry type data powner setOk =>
    obtain ⟨⟨status, res, s''⟩, hadd, rfl⟩ := Option.map_eq_some_iff.mp hstep
    cases pentry with
    | none =>
      cases hadd
      exact ⟨chain, h, fun _ => id⟩
    | some e =>
      cases hentry : s.entries e with
      | none => simp [cacheInodeAddState, hentry] at hadd
      | some entry =>
        obtain ⟨status', res', s₂, hadd', hapart, hadds⟩ :=
          cacheInodeAddState_spec h hentry type data powner setOk
        rw [hadd] at hadd'
        obtain ⟨rfl, rfl, rfl⟩ : status = status' ∧ res = res' ∧ s'' = s₂ := by simpa using hadd'
        cases hadds with
        | fails _ hshape hcore htable =>
          refine ⟨chain, hshape, fun _ hlisted e' p hp => ?_⟩
          rw [htable, (State.core_eq.mp (hcore p ⟨e', hp⟩)).2.2.2.1]
          exact hlisted e' p hp
        | adds p hp hshape hcore htype hdata howner hkey hreg =>
          refine ⟨extend chain e p, hshape, fun hfreshKey hlisted e' q hq => ?_⟩
          obtain ⟨hok, hfresh⟩ := hfreshKey
          have htable : s''.htStateId =
              Function.update s.htStateId (s''.states p).stateidOther (some p) := by
            rcases hreg with ⟨-, -, -, htable⟩ | ⟨hfalse, -⟩
            · exact htable
            · rw [hok] at hfalse
              cases hfalse
          rw [htable]
          rcases mem_extend.mp hq with hq | ⟨rfl, -⟩
          · have hq' := hlisted e' q hq
            have hkey' : s.keyOf e powner = some (s''.states p).stateidOther := by
              rw [Server.keyOf, hentry, Option.bind_some, hkey]
            -- the key of the new state is not that of a state in the table
            have hne : (s.states q).stateidOther ≠ (s''.states p).stateidOther := fun heq => by
              rw [heq, hfresh _ hkey'] at hq'
              cases hq'
            rw [(State.core_eq.mp (hcore q ⟨e', hq⟩)).2.2.2.1, Function.update_of_ne hne]
            exact hq'
          · exact Function.update_self ..
  | delByKey other =>
    cases hp : s.htStateId other with
    | none =>
      simp only [stateStep, cacheInodeDelStateByKey, hp, Option.map_some, Option.some.injEq] at hstep
      rw [← hstep]
      exact ⟨chain, h, fun _ => id⟩
    | some p =>
      obtain ⟨e, s₂, hdel, hdeletes⟩ := cacheInodeDelStateByKey_spec h hp
      simp only [stateStep, hdel, Option.map_some, Option.some.injEq] at hstep
      rw [← hstep]
      exact ⟨_, hdeletes.shape, fun _ => hdeletes.listed h⟩
  | del p =>
    obtain ⟨e, -, hmem⟩ : ∃ e, (s.states p).pentry = some e ∧ p ∈ chain e := by
      simp only [Live, Option.any_eq_true, decide_eq_true_eq] at hlive
      obtain ⟨e, he, hmem⟩ := hlive
      rw [h.statesOf_eq] at hmem
      exact ⟨e, he, hmem⟩
    cases hq : s.htStateId (s.states p).stateidOther with
    | none =>
      simp only [stateStep, cacheInodeDelState, hq, Option.map_some, Option.some.injEq] at hstep
      rw [← hstep]
      exact ⟨chain, h, fun _ => id⟩
    | some q =>
      obtain ⟨s₂, hdel, hdeletes⟩ := cacheInodeDelState_spec h hmem hq
      simp only [stateStep, hdel, Option.map_some, Option.some.injEq] at hstep
      rw [← hstep]
      exact ⟨_, hdeletes.shape, fun _ => hdeletes.listed h⟩

/-- The lists and the table go together after every sequence of calls, and the lists hold nothing
else if every new state finds its key free. -/
theorem coherent_of_reachableBy (h₀ : Initial s₀) :
    (∀ s, ReachableBy stateStep Live s₀ s → Coherent s) ∧
      ∀ s, ReachableBy stateStep (fun s ev => Live s ev ∧ KeyFresh s ev) s₀ s → Listed s := by
  constructor
  · intro s h
    have hinv : ∃ chain, Shape s chain := by
      refine h.invariant (I := fun s => ∃ chain, Shape s chain) ⟨_, h₀.valid.toShape⟩ ?_
      rintro s ev s' ⟨chain, hshape⟩ hlive hstep
      obtain ⟨chain', hshape', -⟩ := stateStep_shape hshape hlive hstep
      exact ⟨chain', hshape'⟩
    obtain ⟨chain, hshape⟩ := hinv
    exact hshape.coherent
  · intro s h
    have hinv : ∃ chain, Shape s chain ∧
        ∀ e, ∀ p ∈ chain e, s.htStateId (s.states p).stateidOther = some p := by
      refine h.invariant (I := fun s => ∃ chain, Shape s chain ∧
        ∀ e, ∀ p ∈ chain e, s.htStateId (s.states p).stateidOther = some p)
        ⟨_, h₀.valid.toShape, fun _ _ => nofun⟩ ?_
      rintro s ev s' ⟨chain, hshape, hlisted⟩ ⟨hlive, hfresh⟩ hstep
      obtain ⟨chain', hshape', hlisted'⟩ := stateStep_shape hshape hlive hstep
      exact ⟨chain', hshape', hlisted' hfresh hlisted⟩
    obtain ⟨chain, hshape, hlisted⟩ := hinv
    intro e p hp
    rw [hshape.statesOf_eq] at hp
    exact hlisted e p hp

instance Live.decidable (s : Server) : ∀ ev, Decidable (Live s ev)
  | .del p => inferInstanceAs (Decidable ((s.states p).pentry.any _ = true))
  | .load .. | .owner .. | .add .. | .get _ | .delByKey _ => inferInstanceAs (Decidable True)

instance KeyFresh.decidable (s : Server) : ∀ ev, Decidable (KeyFresh s ev)
  | .add (some e) _ _ powner setOk =>
    inferInstanceAs (Decidable (setOk = true ∧ ∀ other ∈ s.keyOf e powner, s.htStateId other = none))
  | .add none .. | .load .. | .owner .. | .get _ | .delByKey _ | .del _ =>
    inferInstanceAs (Decidable True)

/-- A share state of the owner `o` on the file with the entry 7. -/
def addShareOf (o : ℕ) : StateEvent := .add (some 7) .share (.share [] 1 0 0) o true

/-- Three owners get a state on one file, and the state in the middle is deleted. -/
theorem coherent_after_deletion :
    (execute stateStep freshServer
      [.load 7 .regular (some 42), .owner 1 ⟨⟨1, []⟩, true, 0, 1, none⟩,
        .owner 2 ⟨⟨2, []⟩, true, 0, 2, none⟩, addShareOf 0, addShareOf 1, addShareOf 2, .del 1]).any
        (fun s => statesOf s 7 = [0, 2]) = true ∧
      ∀ s, execute stateStep freshServer
        [.load 7 .regular (some 42), .owner 1 ⟨⟨1, []⟩, true, 0, 1, none⟩,
          .owner 2 ⟨⟨2, []⟩, true, 0, 2, none⟩, addShareOf 0, addShareOf 1, addShareOf 2, .del 1] =
          some s → Coherent s ∧ Listed s := by
  refine ⟨by decide +kernel, fun s hs => ⟨?_, ?_⟩⟩
  · exact (coherent_of_reachableBy freshServer_initial).1 s
      (reachableBy_of_execute hs (by decide +kernel))
  · exact (coherent_of_reachableBy freshServer_initial).2 s
      (reachableBy_of_execute hs (by decide +kernel))

/-- The first state of a file is not made its tail, and the second state of an owner takes the key
of the first one. -/
theorem not_listed_after_second_state :
    (¬ ∀ s₀ s, Initial s₀ → ReachableBy stateStep Live s₀ s → TailLast s) ∧
      ¬ ∀ s₀ s, Initial s₀ → ReachableBy stateStep Live s₀ s → Listed s := by
  constructor
  · intro h
    let events : List StateEvent := [.load 7 .regular (some 42), addShareOf 0]
    obtain ⟨s, hs⟩ : ∃ s, execute stateStep freshServer events = some s :=
      Option.isSome_iff_exists.mp (by decide +kernel)
    have hread : (execute stateStep freshServer events).all (fun s => statesOf s 7 = [0] ∧
        (s.entries 7).isSome ∧ (s.entries 7).bind Entry.pstateTail = none) = true := by
      decide +kernel
    rw [hs, Option.all_some, decide_eq_true_iff] at hread
    obtain ⟨hlist, hsome, htail⟩ := hread
    obtain ⟨entry, hentry⟩ := Option.isSome_iff_exists.mp hsome
    have hlast := h freshServer s freshServer_initial
      (reachableBy_of_execute hs (by decide +kernel)) 7 entry hentry
    rw [hentry, Option.bind_some] at htail
    rw [htail, hlist] at hlast
    cases hlast
  · intro h
    let events : List StateEvent := [.load 7 .regular (some 42), addShareOf 0, addShareOf 0]
    obtain ⟨s, hs⟩ : ∃ s, execute stateStep freshServer events = some s :=
      Option.isSome_iff_exists.mp (by decide +kernel)
    have hread : (execute stateStep freshServer events).all (fun s => statesOf s 7 = [0, 1] ∧
        s.htStateId (s.states 0).stateidOther = some 1) = true := by decide +kernel
    rw [hs, Option.all_some, decide_eq_true_iff] at hread
    have hlisted := h freshServer s freshServer_initial
      (reachableBy_of_execute hs (by decide +kernel)) 7 0 (by rw [hread.1]; decide)
    rw [hread.2] at hlisted
    cases hlisted

/-! ## Stateids of a run -/

/-- Two states that are in use have different stateids. -/
def StateidsUnique (s : Server) : Prop :=
  ∀ e e', ∀ p ∈ statesOf s e, ∀ q ∈ statesOf s e',
    (s.states p).stateidOther = (s.states q).stateidOther → p = q

/-- The owner may get a state under this fileid: it has none there yet, and the owners that have
were made less than 2^16 owners before it or after it. -/
def KeyFits (s : Server) (fileid : Option UInt64) (name : OwnerName) : Prop :=
  ∀ e entry, s.entries e = some entry → entry.digest = fileid → ∀ q ∈ statesOf s e,
    (s.owners (s.states q).powner).name ≠ name ∧
      (s.owners (s.states q).powner).counter.toNat < (ownerCounter s name).toNat + 2 ^ 16 ∧
      (ownerCounter s name).toNat < (s.owners (s.states q).powner).counter.toNat + 2 ^ 16

/-- Fewer than 2^32 owners are made, and the owners of the states that are added may have them. -/
def KeysFit (s : Server) : Event → Prop
  | .opOpen args env => s.openOwnerCounter.toNat + 1 < 2 ^ 32 ∧
      (args.Passes s env → ∀ e, OpenGrants s args env e →
        KeyFits s (env.fileid s e) args.ownerName)
  | .opLock e args env => s.openOwnerCounter.toNat + 1 < 2 ^ 32 ∧
      ∀ name, args.Grants s e name env → s.htOpenOwner name = none →
        KeyFits s ((s.entries e).bind Entry.digest) name
  | _ => True

/-- The counter does not wrap at an owner that is made. -/
lemma KeysFit.next_lt {ev : Event} (hfits : KeysFit s ev) (hstep : step s ev = some s')
    (hne : s'.openOwnerCounter ≠ s.openOwnerCounter) : s.openOwnerCounter.toNat + 1 < 2 ^ 32 := by
  cases ev with
  | load e type digest =>
    simp only [step] at hstep
    split_ifs at hstep
    cases hstep
    exact absurd rfl hne
  | opOpen args env => exact hfits.1
  | opLock e args env => exact hfits.1
  | opClose e other env =>
    obtain ⟨⟨res, s''⟩, hclose, rfl⟩ := Option.map_eq_some_iff.mp hstep
    exact absurd (Ids.opClose hclose).openOwnerCounter hne
  | opLocku e args filehandle clientKnown =>
    obtain ⟨⟨res, s''⟩, hlocku, rfl⟩ := Option.map_eq_some_iff.mp hstep
    exact absurd (Ids.opLocku hlocku).openOwnerCounter hne

/-- The counter of an owner after a step is the one that its name had or got. -/
lemma Allots.ownerCounter_eq {F : ℕ → Option UInt64 → Prop} {name : OwnerName} {o : ℕ}
    (ha : Allots s s' F) (ho : s'.htOpenOwner name = some o) :
    (s'.owners o).counter = ownerCounter s name := by
  unfold ownerCounter
  rcases ha.owners with ⟨htable, -⟩ | ⟨name', o', hnone, htable, hcounter, -⟩
  · rw [htable] at ho
    simp only [ho]
    exact ha.counter o ⟨name, ho⟩
  · rw [htable] at ho
    rcases eq_or_ne name name' with rfl | hne
    · rw [Function.update_self] at ho
      simp only [hnone]
      rw [← Option.some.inj ho]
      exact hcounter
    · rw [Function.update_of_ne hne] at ho
      simp only [ho]
      exact ha.counter o ⟨name, ho⟩

/-- What is known of the stateid of a state that a step adds to `e`. -/
structure NewKey (s s' : Server) (e : ℕ) (st : State) (fileid : UInt64) (name : OwnerName) :
    Prop where
  owner : (s'.owners st.powner).name = name
  other : st.stateidOther = ⟨s.serverBootTime, fileid, (ownerCounter s name).toUInt16⟩
  digest : ∀ entry', s'.entries e = some entry' → entry'.digest = some fileid
  fits : KeyFits s (some fileid) name

/-- A state that is added has a key with a counter of its own. -/
lemma Event.Adds.newKey {ev : Event} {st : State} (hadds : ev.Adds s s' e st)
    (ha : Allots s s' ev.Brings) (hfits : KeysFit s ev) :
    ∃ fileid name, NewKey s s' e st fileid name := by
  cases ev with
  | load => exact hadds.elim
  | opClose => exact hadds.elim
  | opLocku => exact hadds.elim
  | opOpen args env =>
    obtain ⟨-, -, hname, hpasses, hgrants, fileid, hfileid, hother⟩ := hadds
    refine ⟨fileid, args.ownerName, hname, hother, fun entry' hentry' => ?_, ?_⟩
    · have hdigest := ha.digest e
      rw [hentry'] at hdigest
      unfold OpenEnv.fileid at hfileid
      rcases hdigest with hsame | ⟨hnone, digest, hcreate, hsome⟩
      · cases hentry : s.entries e with
        | none =>
          rw [hentry] at hsame
          cases hsame
        | some entry =>
          rw [hentry] at hsame hfileid
          rw [← hfileid]
          exact Option.some.inj hsame
      · have hcreate' : env.create = .ok (e, digest) := hcreate
        simp only [hnone, hcreate'] at hfileid
        rw [← hfileid]
        exact Option.some.inj hsome
    · rw [← hfileid]
      exact hfits.2 hpasses e hgrants
  | opLock e'' args env =>
    obtain ⟨rfl, -, hgrants, hnew, fileid, hfileid, hother⟩ := hadds
    refine ⟨fileid, _, rfl, ?_, fun entry' hentry' => ?_, ?_⟩
    · rw [hother, ownerCounter, hnew]
    · rcases ha.digest e with hsame | ⟨-, digest, hfalse, -⟩
      · cases hentry : s.entries e with
        | none =>
          rw [hentry] at hfileid
          cases hfileid
        | some entry =>
          rw [hentry, hentry'] at hsame
          rw [hentry] at hfileid
          rw [← hfileid]
          exact Option.some.inj hsame
      · exact hfalse.elim
    · rw [← hfileid]
      exact hfits.2 _ hgrants hnew

lemma toUInt16_inj {a b : UInt32} (h : a.toUInt16 = b.toUInt16) (hab : a.toNat < b.toNat + 2 ^ 16)
    (hba : b.toNat < a.toNat + 2 ^ 16) : a = b := by
  have hmod := congrArg UInt16.toNat h
  rw [UInt32.toNat_toUInt16, UInt32.toNat_toUInt16] at hmod
  refine UInt32.toNat_inj.mp ?_
  omega

/-- The stateid of a state in use is not that of the new state. -/
lemma NewKey.other_ne {F : ℕ → Option UInt64 → Prop} {chain' : ℕ → List ℕ} {fileid : UInt64}
    {name : OwnerName} {st : State} (h : NewKey s s' e st fileid name) (hv : Valid s chain)
    (hv' : Valid s' chain') (ha : Allots s s' F) (hkeyed : Keyed s chain) (hcounted : Counted s')
    (howner : st.powner ∈ known s') (hq : q ∈ chain e') :
    (s.states q).stateidOther ≠ st.stateidOther := by
  intro heq
  obtain ⟨entry, fileid', hentry, hdigest, hother⟩ := hkeyed e' q hq
  rw [hother, h.other] at heq
  obtain ⟨-, rfl, hcounter⟩ := Other.mk.inj heq
  rw [← hv.statesOf_eq] at hq
  obtain ⟨hname, hlt, hlt'⟩ := h.fits e' entry hentry hdigest q hq
  have hsame := toUInt16_inj hcounter hlt hlt'
  rw [hv.statesOf_eq] at hq
  -- both owners are in the table, with one counter
  obtain ⟨name₁, ho₁⟩ := hv.powner q ⟨e', hq⟩
  obtain ⟨name₂, ho₂⟩ := howner
  have hname₂ : name₂ = name := (hv'.name name₂ _ ho₂).symm.trans h.owner
  rw [hname₂] at ho₂
  have ho₁' : s'.htOpenOwner name₁ = some (s.states q).powner := by
    rcases ha.owners with ⟨htable, -⟩ | ⟨name₃, o₃, hnone, htable, -⟩
    · rw [htable]
      exact ho₁
    · have hne : name₁ ≠ name₃ := fun heq' => by
        rw [heq', hnone] at ho₁
        cases ho₁
      rw [htable, Function.update_of_ne hne]
      exact ho₁
  have hcounters : (s'.owners (s.states q).powner).counter = (s'.owners st.powner).counter := by
    rw [ha.counter _ ⟨name₁, ho₁⟩, ha.ownerCounter_eq ho₂, hsame]
  have hnames := hcounted.inj name₁ _ name _ ho₁' ho₂ hcounters
  exact hname ((hv.name name₁ _ ho₁).trans hnames)

/-- A state that stays keeps its key. -/
lemma Keyed.still {chain' : ℕ → List ℕ} {F : ℕ → Option UInt64 → Prop} {U : Set ℕ}
    (h : Keyed s chain) (hv : Valid s chain) (hv' : Valid s' chain') (ha : Allots s s' F)
    (hstill : Still s s' U) (hp : p ∈ chain e) (hU : p ∈ U) (hp' : p ∈ chain' e) :
    ∃ entry fileid, s'.entries e = some entry ∧ entry.digest = some fileid ∧
      (s'.states p).stateidOther = ⟨s'.serverBootTime, fileid,
        (s'.owners (s'.states p).powner).counter.toUInt16⟩ := by
  obtain ⟨entry, fileid, hentry, hdigest, hother⟩ := h e p hp
  obtain ⟨entry', hentry'⟩ := hv'.entry_of_mem hp'
  refine ⟨entry', fileid, hentry', ?_, ?_⟩
  · rcases ha.digest e with hsame | ⟨hnone, -⟩
    · rw [hentry, hentry'] at hsame
      exact (Option.some.inj hsame).trans hdigest
    · rw [hnone] at hentry
      cases hentry
  · have hsame := hstill.same p hU
    rw [hsame.other, hsame.powner, hother, ha.serverBootTime, ha.counter _ (hv.powner p ⟨e, hp⟩)]

/-- What a run keeps about the stateids. -/
structure Distinct (s : Server) (chain : ℕ → List ℕ) : Prop where
  counted : Counted s
  keyed : Keyed s chain
  unique : StateidsUnique s

/-- One step keeps the stateids apart. -/
theorem step_distinct {ev : Event} (hv : Valid s chain) (hdistinct : Distinct s chain)
    (hpos : Possible s ev) (hfits : KeysFit s ev) (hstep : step s ev = some s') :
    ∃ chain', Valid s' chain' ∧ Distinct s' chain' := by
  have ha := step_allots hv hpos hstep
  have hcounted : Counted s' := hdistinct.counted.allots ha (hfits.next_lt hstep)
  cases step_outcome hv hpos hstep with
  | keeps _ hv' hs =>
    refine ⟨chain, hv', hcounted, fun e p hp => ?_, fun e e' p hp q hq heq => ?_⟩
    · exact hdistinct.keyed.still hv hv' ha hs hp ⟨e, hp⟩ hp
    · -- the keys of a state that was kept
      rw [hv'.statesOf_eq] at hp hq
      rw [(hs.same p ⟨e, hp⟩).other, (hs.same q ⟨e', hq⟩).other] at heq
      rw [← hv.statesOf_eq] at hp hq
      exact hdistinct.unique e e' p hp q hq heq
  | adds e₁ p₁ _ hv' hs hG =>
    obtain ⟨fileid, name, hnew⟩ := hG.newKey ha hfits
    have hmem : p₁ ∈ extend chain e₁ p₁ e₁ := mem_extend.mpr (.inr ⟨rfl, rfl⟩)
    have howner := hv'.powner p₁ ⟨e₁, hmem⟩
    have hne {q e' : ℕ} (hq : q ∈ chain e') :
        (s.states q).stateidOther ≠ (s'.states p₁).stateidOther :=
      hnew.other_ne hv hv' ha hdistinct.keyed hcounted howner hq
    refine ⟨_, hv', hcounted, fun e p hp => ?_, fun e e' p hp q hq heq => ?_⟩
    · rcases mem_extend.mp hp with hp' | ⟨rfl, rfl⟩
      · exact hdistinct.keyed.still hv hv' ha hs hp' ⟨e, hp'⟩ hp
      · obtain ⟨entry, hentry⟩ := hv'.entry_of_mem hp
        obtain ⟨name', ho⟩ := howner
        have hname' : name' = name := (hv'.name name' _ ho).symm.trans hnew.owner
        rw [hname'] at ho
        refine ⟨entry, fileid, hentry, hnew.digest entry hentry, ?_⟩
        rw [hnew.other, ha.serverBootTime, ha.ownerCounter_eq ho]
    · rw [hv'.statesOf_eq, mem_extend] at hp hq
      rcases hp with hp | ⟨rfl, rfl⟩
      · rw [(hs.same p ⟨e, hp⟩).other] at heq
        rcases hq with hq | ⟨rfl, rfl⟩
        · rw [(hs.same q ⟨e', hq⟩).other] at heq
          rw [← hv.statesOf_eq] at hp hq
          exact hdistinct.unique e e' p hp q hq heq
        · exact absurd heq (hne hp)
      · rcases hq with hq | ⟨rfl, -⟩
        · rw [(hs.same q ⟨e', hq⟩).other] at heq
          exact absurd heq.symm (hne hq)
        · rfl
  | deletes e₁ p₁ hp₁ hv' hs _ =>
    refine ⟨_, hv', hcounted, fun e p hp => ?_, fun e e' p hp q hq heq => ?_⟩
    · have hp' := (hv.mem_shrink hp₁).mp hp
      exact hdistinct.keyed.still hv hv' ha hs hp'.1 ⟨⟨e, hp'.1⟩, hp'.2⟩ hp
    · rw [hv'.statesOf_eq, hv.mem_shrink hp₁] at hp hq
      rw [(hs.same p ⟨⟨e, hp.1⟩, hp.2⟩).other, (hs.same q ⟨⟨e', hq.1⟩, hq.2⟩).other] at heq
      rw [← hv.statesOf_eq] at hp hq
      exact hdistinct.unique e e' p hp.1 q hq.1 heq

/-- The entry of the table for a state in use is not replaced. -/
def NotReplaced (s s' : Server) : Prop :=
  ∀ other q r e, s.htStateId other = some q → q ∈ statesOf s' e → s'.htStateId other = some r → r = q

/-- With unique stateids no state is replaced in the table. -/
lemma notReplaced_of_unique {ev : Event} (hv : Valid s chain) (hpos : Possible s ev)
    (hstep : step s ev = some s') (hunique : StateidsUnique s') : NotReplaced s s' := by
  intro other q r e hq hmem hr
  obtain ⟨hother, e₁, hq₁⟩ := hv.table other q hq
  obtain ⟨chain', hv'⟩ := (step_outcome hv hpos hstep).valid
  obtain ⟨hother', e₂, hr₂⟩ := hv'.table other r hr
  rw [← hv'.statesOf_eq] at hr₂
  refine hunique e₂ e r hr₂ q hmem ?_
  rw [hother', ← hother]
  symm
  cases step_outcome hv hpos hstep with
  | keeps _ _ hs => exact (hs.same q ⟨e₁, hq₁⟩).other
  | adds _ _ _ _ hs _ => exact (hs.same q ⟨e₁, hq₁⟩).other
  | deletes e₃ p₃ hp₃ hv₃ hs _ =>
    rw [hv₃.statesOf_eq, hv.mem_shrink hp₃] at hmem
    exact (hs.same q ⟨⟨e₁, hq₁⟩, hmem.2⟩).other

/-- In such a run all keys are distinct. -/
lemma distinct_of_reachableBy (h₀ : Initial s₀)
    (h : ReachableBy step (fun s ev => Possible s ev ∧ KeysFit s ev) s₀ s) :
    ∃ chain, Valid s chain ∧ Distinct s chain := by
  refine h.invariant (I := fun s => ∃ chain, Valid s chain ∧ Distinct s chain) ?_ ?_
  · refine ⟨_, h₀.valid, ⟨fun name o ho => ?_, fun name o _ _ ho => ?_⟩, fun _ _ => nofun,
      fun e e' p hp => ?_⟩
    · rw [h₀.htOpenOwner] at ho
      cases ho
    · rw [h₀.htOpenOwner] at ho
      cases ho
    · rw [h₀.valid.statesOf_eq] at hp
      cases hp
  · rintro s ev s' ⟨chain, hv, hdistinct⟩ ⟨hpos, hfits⟩ hstep
    exact step_distinct hv hdistinct hpos hfits hstep

/-- Stateids are unique in every run that gives no owner a second state under one fileid, the owners
there being made within 2^16 of each other, and no step of such a run replaces the entry of a state
in use. -/
theorem stateidsUnique_of_keysFit (h₀ : Initial s₀)
    (h : ReachableBy step (fun s ev => Possible s ev ∧ KeysFit s ev) s₀ s) :
    StateidsUnique s ∧ ∀ ev s', Possible s ev → KeysFit s ev → step s ev = some s' →
      NotReplaced s s' := by
  obtain ⟨chain, hv, hdistinct⟩ := distinct_of_reachableBy h₀ h
  refine ⟨hdistinct.unique, fun ev s' hpos hfits hstep => ?_⟩
  obtain ⟨_, _, hdistinct'⟩ := step_distinct hv hdistinct hpos hfits hstep
  exact notReplaced_of_unique hv hpos hstep hdistinct'.unique

/-- The file is created by one client and opened by another. -/
theorem stateidsUnique_after_two_owners :
    (execute step freshServer
      [.opOpen (sampleOpen 1 .create 1 0) (sampleEnv (.error .notFound)),
       .opOpen (sampleOpen 2 .nocreate 1 0)
         { sampleEnv (.ok 7) with create := .error .entryExists }]).any
        (fun s => statesOf s 7 = [0, 1]) = true ∧
      ∀ s, execute step freshServer
        [.opOpen (sampleOpen 1 .create 1 0) (sampleEnv (.error .notFound)),
         .opOpen (sampleOpen 2 .nocreate 1 0)
           { sampleEnv (.ok 7) with create := .error .entryExists }] = some s →
        StateidsUnique s := by
  refine ⟨by decide +kernel, fun s hs => ?_⟩
  obtain ⟨s₁, hs₁, hs⟩ := Option.bind_eq_some_iff.mp hs
  obtain ⟨s₂, hs₂, hs⟩ := Option.bind_eq_some_iff.mp hs
  cases hs
  have hread : (step freshServer
      (.opOpen (sampleOpen 1 .create 1 0) (sampleEnv (.error .notFound)))).all (fun s =>
        statesOf s 7 = [0] ∧ s.openOwnerCounter = 1 ∧
          (s.owners (s.states 0).powner).name = ⟨1, [65]⟩ ∧
          (s.owners (s.states 0).powner).counter = 1 ∧
          ownerCounter s (sampleOpen 2 .nocreate 1 0).ownerName = 2) = true := by decide +kernel
  rw [hs₁, Option.all_some, decide_eq_true_iff] at hread
  obtain ⟨hlist, hnext, hname, hcounter, hcounter₂⟩ := hread
  have hentries : (step freshServer
      (.opOpen (sampleOpen 1 .create 1 0) (sampleEnv (.error .notFound)))).map Server.entries =
        some (Function.update (Function.update (fun _ => none) 7
          (some ⟨.regular, some 42, none, none⟩)) 7 (some ⟨.regular, some 42, some 0, none⟩)) := rfl
  rw [hs₁, Option.map_some] at hentries
  have hentries := Option.some.inj hentries
  -- only the file with the entry 7 has a state
  have hstates : ∀ e, ∀ q ∈ statesOf s₁ e, q = 0 := by
    intro e q hq
    rcases eq_or_ne e 7 with rfl | hne
    · rw [hlist] at hq
      exact List.mem_singleton.mp hq
    · have hnone : s₁.entries e = none := by
        rw [hentries, Function.update_of_ne hne, Function.update_of_ne hne]
      rw [statesOf, hnone] at hq
      cases hallocs : s₁.allocs <;> rw [hallocs] at hq <;> cases hq
  have hreach₁ : ReachableBy step (fun s ev => Possible s ev ∧ KeysFit s ev) freshServer s₁ := by
    refine ReachableBy.init.next ⟨by decide +kernel, ?_⟩ hs₁
    refine ⟨by decide, ?_⟩
    intro _ e _ e' entry _ _ q hq
    rw [freshServer_initial.valid.statesOf_eq] at hq
    cases hq
  have hreach₂ : ReachableBy step (fun s ev => Possible s ev ∧ KeysFit s ev) freshServer s := by
    refine hreach₁.next ⟨?_, ?_⟩ hs₂
    · exact ⟨by decide, by decide, trivial⟩
    refine ⟨?_, ?_⟩
    · rw [hnext]
      decide
    · intro _ e _ e' entry _ _ q hq
      rw [hstates e' q hq, hname, hcounter, hcounter₂]
      decide
  exact (stateidsUnique_of_keysFit freshServer_initial hreach₂).1

/-- One owner opens a file twice with `UNCHECKED4`. -/
theorem not_stateidsUnique_after_reopen :
    ¬ ∀ s₀ s, Initial s₀ → ReachableBy step Possible s₀ s → StateidsUnique s := by
  intro h
  let events : List Event :=
    [.opOpen (sampleOpen 1 .create 1 0) (sampleEnv (.error .notFound)),
     .opOpen (sampleOpen 1 .create 1 0)
       { sampleEnv (.ok 7) with create := .error .entryExists }]
  obtain ⟨s, hs⟩ : ∃ s, execute step freshServer events = some s :=
    Option.isSome_iff_exists.mp (by decide +kernel)
  have hread : (execute step freshServer events).all (fun s => statesOf s 7 = [0, 1] ∧
      (s.states 0).stateidOther = (s.states 1).stateidOther) = true := by decide +kernel
  rw [hs, Option.all_some, decide_eq_true_iff] at hread
  have hsame := h freshServer s freshServer_initial
    (reachableBy_of_execute hs (by decide +kernel)) 7 7 0 (by rw [hread.1]; decide) 1
    (by rw [hread.1]; decide) hread.2
  cases hsame

end Ganesha.Nfs4
