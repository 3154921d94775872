import Ganesha.Nfs4.ShareTheorems

/-!
# Upgrades and downgrades

`NFS_Protocols/nfs4_op_open_downgrade.c`, and what becomes of the modes that an OPEN has recorded.
Nothing in the server assigns `share_access` or `share_deny` of a state after it was made: an OPEN by
an owner that has the file open uses the state there is (`OPEN4_NOCREATE`) or adds one of its own
(`UNCHECKED4`), and OPEN_DOWNGRADE changes a seqid.
-/

namespace Ganesha.Nfs4
open Library.Transition

variable {s s' s₀ : Server} {chain : ℕ → List ℕ} {e p : ℕ}

/-! ## The request -/

/-- `OPEN_DOWNGRADE4args`. -/
structure DowngradeArgs where
  stateidOther : Other
  shareAccess : ℕ
  shareDeny : ℕ

/-- The status and the stateid. -/
structure DowngradeRes where
  status : NfsStat
  stateid : Option (UInt32 × Other) := none

/-- `nfs4_op_open_downgrade`; `filehandle` is the error of the tests on the current filehandle and
its type. The modes of the request are not read. -/
def nfs4OpOpenDowngrade (s : Server) (args : DowngradeArgs) (filehandle : Option NfsStat) :
    DowngradeRes × Server :=
  match filehandle with
  | some err => ({ status := err }, s)
  | none => match cacheInodeGetState s args.stateidOther with
    | none => ({ status := .errno .notFound }, s)
    | some p =>
      let s := s.setState p fun st => { st with seqid := st.seqid + 1 }
      ({ status := .ok, stateid := some ((s.states p).seqid, (s.states p).stateidOther) }, s)

/-- The modes of a state. -/
def Server.modes (s : Server) (p : ℕ) : ℕ × ℕ :=
  ((s.states p).data.shareAccess, (s.states p).data.shareDeny)

/-! ## Runs -/

/-- A request to the server; OPEN_DOWNGRADE is one of them. -/
inductive ShareEvent
  | request (ev : Event)
  | opOpenDowngrade (args : DowngradeArgs) (filehandle : Option NfsStat)

/-- The state is in the list of its file. -/
def Server.live (s : Server) (p : ℕ) : Bool :=
  (s.states p).pentry.any fun e => p ∈ statesOf s e

/-- The modes that the states are made for: those of the OPEN for a state that was not there. -/
def asks (s : Server) (asked : ℕ → ℕ × ℕ) : Event → ℕ → ℕ × ℕ
  | .opOpen args _, p => if s.live p then asked p else (args.shareAccess, args.shareDeny)
  | _, p => asked p

/-- The server, and for each state the modes that it was made for. -/
def shareStep : Server × (ℕ → ℕ × ℕ) → ShareEvent → Option (Server × (ℕ → ℕ × ℕ))
  | (s, asked), .request ev => (step s ev).map fun s' => (s', asks s asked ev)
  | (s, asked), .opOpenDowngrade args filehandle =>
    some ((nfs4OpOpenDowngrade s args filehandle).2, asked)

/-- What the events are. -/
def SharePossible (σ : Server × (ℕ → ℕ × ℕ)) : ShareEvent → Prop
  | .request ev => Possible σ.1 ev
  | .opOpenDowngrade .. => True

instance SharePossible.decidable (σ : Server × (ℕ → ℕ × ℕ)) :
    ∀ ev, Decidable (SharePossible σ ev)
  | .request ev => inferInstanceAs (Decidable (Possible σ.1 ev))
  | .opOpenDowngrade .. => inferInstanceAs (Decidable True)

/-- The modes of each share state are those that it was made for. -/
def ModesKept (σ : Server × (ℕ → ℕ × ℕ)) : Prop :=
  ∀ e, ∀ p ∈ statesOf σ.1 e, (σ.1.states p).type = .share → σ.1.modes p = σ.2 p

/-- The states in use are those of the chains. -/
lemma Valid.live_iff (h : Valid s chain) : s.live p = true ↔ p ∈ used chain := by
  rw [Server.live, Option.any_eq_true]
  constructor
  · rintro ⟨e, -, hmem⟩
    rw [decide_eq_true_eq, h.statesOf_eq] at hmem
    exact ⟨e, hmem⟩
  · rintro ⟨e, hmem⟩
    refine ⟨e, h.pentry e p hmem, ?_⟩
    rw [decide_eq_true_eq, h.statesOf_eq]
    exact hmem

lemma State.Same.modes_eq (h : (s.states p).Same (s'.states p)) : s'.modes p = s.modes p := by
  have haccess := congrArg StateData.shareAccess h.hold
  have hdeny := congrArg StateData.shareDeny h.hold
  rw [StateData.shareAccess_hold, StateData.shareAccess_hold] at haccess
  rw [StateData.shareDeny_hold, StateData.shareDeny_hold] at hdeny
  rw [Server.modes, Server.modes, haccess, hdeny]

lemma Valid.asks_of_used (h : Valid s chain) (asked : ℕ → ℕ × ℕ) (ev : Event)
    (hp : p ∈ used chain) : asks s asked ev p = asked p := by
  cases ev with
  | opOpen args env => exact if_pos (h.live_iff.mpr hp)
  | load => rfl
  | opClose => rfl
  | opLock => rfl
  | opLocku => rfl

/-- One request keeps the modes. -/
theorem step_modesKept {asked : ℕ → ℕ × ℕ} {ev : Event} (hv : Valid s chain)
    (hkept : ModesKept (s, asked)) (hpos : Possible s ev) (hstep : step s ev = some s') :
    ModesKept (s', asks s asked ev) := by
  -- a state that was there holds what it held
  have hold : ∀ {U : Set ℕ} {e p}, Still s s' U → p ∈ U → p ∈ chain e →
      (s'.states p).type = .share → s'.modes p = asks s asked ev p := by
    intro U e p hs hU hp hshare
    have hsame := hs.same p hU
    rw [hsame.type] at hshare
    rw [hsame.modes_eq, hv.asks_of_used asked ev ⟨e, hp⟩]
    exact hkept e p (by rw [hv.statesOf_eq]; exact hp) hshare
  intro e p hp hshare
  have hshare' : (s'.states p).type = .share := hshare
  show s'.modes p = asks s asked ev p
  have hp' : p ∈ statesOf s' e := hp
  cases step_outcome hv hpos hstep with
  | keeps _ hv' hs =>
    rw [hv'.statesOf_eq] at hp'
    exact hold hs ⟨e, hp'⟩ hp' hshare'
  | adds e' p' hnew hv' hs hG =>
    rw [hv'.statesOf_eq, mem_extend] at hp'
    rcases hp' with hp' | ⟨rfl, rfl⟩
    · exact hold hs ⟨e, hp'⟩ hp' hshare'
    · cases ev with
      | opOpen args env =>
        obtain ⟨-, ⟨verifier, hdata⟩, -⟩ := hG
        have hdead : ¬ s.live p = true := mt hv.live_iff.mp hnew
        rw [Server.modes, hdata, asks, if_neg hdead]
        rfl
      | opLock e' args env =>
        rw [hG.2.1.1] at hshare'
        cases hshare'
      | load => exact hG.elim
      | opClose => exact hG.elim
      | opLocku => exact hG.elim
  | deletes e' p' hmem hv' hs _ =>
    rw [hv'.statesOf_eq, hv.mem_shrink hmem] at hp'
    exact hold hs ⟨⟨e, hp'.1⟩, hp'.2⟩ hp'.1 hshare'

lemma nfs4OpOpenDowngrade_spec (h : Valid s chain) (args : DowngradeArgs)
    (filehandle : Option NfsStat) :
    Valid (nfs4OpOpenDowngrade s args filehandle).2 chain ∧
      Still s (nfs4OpOpenDowngrade s args filehandle).2 (used chain) := by
  unfold nfs4OpOpenDowngrade
  split
  · exact ⟨h, .refl s _⟩
  · split
    · exact ⟨h, .refl s _⟩
    · exact h.touchSeqid (f := fun seqid => seqid + 1)

/-- The owner's open of a file that it has open adds no state. -/
lemma openNocreate_again {args : OpenArgs} {env : OpenEnv} {res : OpenRes} {o q : ℕ}
    (h : Valid s chain) (hlookup : env.lookup = .ok e) (hq : q ∈ chain e) (hown : args.Own s q)
    (hopen : openNocreate s o args env = some (res, s')) : Valid s' chain := by
  simp only [openNocreate, hlookup] at hopen
  obtain ⟨entry, hentry, hopen⟩ := Option.bind_eq_some_iff.mp hopen
  split at hopen
  next =>
    cases hopen
    exact h
  next =>
    cases hopen
    exact h
  next =>
    cases hopen
    exact h
  next =>
    split at hopen
    next =>
      cases hopen
      exact h
    next =>
      obtain ⟨scan, hscan, hdone⟩ := nocreateLoop_spec args none h.toShape hentry
        (List.nil_append (chain e)).symm (Nat.lt_succ_of_le (h.allocs e))
      rw [List.getLast?_nil] at hscan
      rw [hscan, Option.bind_some] at hopen
      cases scan with
      | denied incr =>
        cases hopen
        exact (h.setOwner (o := o) (f := fun owner => { owner with seqid := owner.seqid + incr })
          fun _ => rfl).1
      | done sameOwner =>
        cases sameOwner with
        | none => exact absurd hown ((hdone rfl).2 q hq).1
        | some p =>
          obtain ⟨hv, -⟩ := h.touchSeqid (p := p) (f := fun seqid => seqid + 1)
          set s₁ := s.setState p fun st => { st with seqid := st.seqid + 1 }
          have hb := openEnd_bumps s₁ o p (s₁.owners o).seqid env
          rw [Option.some.inj hopen] at hb
          rcases hb with rfl | ⟨o', f, hf, rfl⟩
          · exact hv
          · exact (hv.setOwner hf).1

/-- So does the whole operation. -/
theorem nfs4OpOpen_again {args : OpenArgs} {env : OpenEnv} {res : OpenRes} {q : ℕ}
    (h : Valid s chain) (htype : args.openType = .nocreate) (hlookup : env.lookup = .ok e)
    (hq : q ∈ chain e) (hown : args.Own s q) (hopen : nfs4OpOpen s args env = some (res, s')) :
    Valid s' chain := by
  unfold nfs4OpOpen at hopen
  split at hopen
  next =>
    cases hopen
    exact h
  next =>
    split at hopen
    all_goals try
      cases hopen
      exact h
    next =>
      split at hopen
      next =>
        cases hopen
        exact h
      next =>
        split_ifs at hopen
        rcases howner : openOwner s args env with ⟨_ | o, s₁⟩
        · rw [howner] at hopen
          cases hopen
          exact (openOwner_spec h howner).1
        · simp only [howner, htype] at hopen
          obtain ⟨hv, hb, -⟩ := openOwner_spec h howner
          split at hopen
          next =>
            cases hopen
            exact hv
          next =>
            have hown₁ : args.Own s₁ q := (h.own_refused_iff args hv hb ⟨e, hq⟩).1.mpr hown
            exact openNocreate_again hv hlookup hq hown₁ hopen

/-- The stateid `other` is that of a new state of `e`, with the modes of the request. -/
def Renewed (s s' : Server) (e : ℕ) (args : OpenArgs) (other : Other) : Prop :=
  ∃ p, (∀ e', p ∉ statesOf s e') ∧
    (∀ e' q, q ∈ statesOf s' e' ↔ q ∈ statesOf s e' ∨ q = p ∧ e' = e) ∧
    (s'.states p).type = .share ∧ (s'.states p).stateidOther = other ∧
    s'.modes p = (args.shareAccess, args.shareDeny)

/-- An `UNCHECKED4` open of a file that exists makes a state if it succeeds, also for an owner that
has one. -/
lemma openUnchecked_again {args : OpenArgs} {env : OpenEnv} {res : OpenRes} {o : ℕ} {seqid : UInt32}
    {other : Other} (h : Valid s chain) (ho : o ∈ known s)
    (hopen : openUnchecked s o e args env = some (res, s'))
    (hstateid : res.stateid = some (seqid, other)) : Renewed s s' e args other := by
  unfold openUnchecked at hopen
  split at hopen
  next =>
    cases hopen
    cases hstateid
  next =>
    obtain ⟨⟨status, q, s₁⟩, hadd, hend⟩ := Option.map_eq_some_iff.mp hopen
    have htype : StateType.share.Takes (candidateData args env.stack) := trivial
    have hout := h.addState htype ho hadd
    split at hend
    next p' s₂ heq =>
      obtain ⟨rfl, rfl, rfl⟩ : status = .success ∧ q = some p' ∧ s₁ = s₂ := by simpa using heq
      -- the stateid sent back is that of `p'`
      have hsame : s' = s₁ ∧ (s₁.states p').stateidOther = other := by
        unfold openEnd at hend
        split_ifs at hend
        · cases hend
          cases hstateid
        · split at hend
          next =>
            cases hend
            cases hstateid
          next =>
            cases hend
            exact ⟨rfl, (Prod.mk.inj (Option.some.inj hstateid)).2⟩
      obtain ⟨rfl, hother⟩ := hsame
      cases hout with
      | keeps hfails => exact absurd rfl hfails
      | adds e' p hp hv hs hG =>
        obtain ⟨rfl, hshare, hdata, -, hkey⟩ := hG
        refine ⟨p, fun e'' hmem => hp ⟨e'', ?_⟩, fun e'' q => ?_, hshare, ?_, ?_⟩
        · rw [h.statesOf_eq] at hmem
          exact hmem
        · rw [hv.statesOf_eq, h.statesOf_eq, mem_extend]
        · rw [← hother]
          obtain ⟨entry, fileid, hentry, -⟩ := Server.keyOf_eq_some hkey
          obtain ⟨status', q', s'', hadd', -, hadds⟩ :=
            cacheInodeAddState_spec h.toShape hentry .share (candidateData args env.stack) o
              env.stateSetOk
          rw [hadd] at hadd'
          obtain ⟨rfl, rfl, rfl⟩ : CacheStatus.success = status' ∧ some p' = q' ∧ s' = s'' := by
            simpa using hadd'
          cases hadds with
          | adds r hr hshape _ _ _ _ hkey' hregisters =>
            rcases hregisters with ⟨-, -, hq, -⟩ | ⟨-, hstatus, -, -⟩
            · cases hq
              rw [Server.keyOf, hentry, Option.bind_some, hkey'] at hkey
              exact (Option.some.inj hkey).symm
            · cases hstatus
        · rw [Server.modes, hdata]
          rfl
      | deletes e' p _ _ _ hD => exact hD.elim
    next =>
      cases hend
      cases hstateid

/-- An unchecked creation of a file that is there makes a state of its own. -/
theorem nfs4OpOpen_unchecked {args : OpenArgs} {env : OpenEnv} {res : OpenRes} {seqid : UInt32}
    {other : Other} (h : Valid s chain) (htype : args.openType = .create)
    (hmode : args.mode = .unchecked) (hlookup : env.lookup = .ok e)
    (hopen : nfs4OpOpen s args env = some (res, s')) (hstateid : res.stateid = some (seqid, other)) :
    Renewed s s' e args other := by
  unfold nfs4OpOpen at hopen
  split at hopen
  next =>
    cases hopen
    cases hstateid
  next =>
    split at hopen
    all_goals try
      cases hopen
      cases hstateid
    next =>
      split at hopen
      next =>
        cases hopen
        cases hstateid
      next =>
        split_ifs at hopen
        rcases howner : openOwner s args env with ⟨_ | o, s₁⟩
        · rw [howner] at hopen
          cases hopen
          cases hstateid
        · simp only [howner, htype] at hopen
          obtain ⟨hv, -, ho⟩ := openOwner_spec h howner
          split at hopen
          next =>
            cases hopen
            cases hstateid
          next =>
            rw [openCreate, hlookup] at hopen
            simp only [hmode] at hopen
            have hnew := openUnchecked_again hv ⟨_, (ho o rfl).1⟩ hopen hstateid
            -- the lists are those from before the owner was looked up
            unfold Renewed at hnew ⊢
            simpa only [hv.statesOf_eq, h.statesOf_eq] using hnew

/-- The modes of a state are those of the OPEN that made it. An `OPEN4_NOCREATE` by an owner that
has the file open makes no state, an `UNCHECKED4` open makes one of its own, and OPEN_DOWNGRADE of a
stateid that is known succeeds whatever the modes it asks for and changes the seqid of the state
only. -/
theorem modes_of_creation {σ : Server × (ℕ → ℕ × ℕ)} {asked : ℕ → ℕ × ℕ} (h₀ : Initial s₀)
    (h : ReachableBy shareStep SharePossible (s₀, asked) σ) :
    ModesKept σ ∧
      (∀ args env res s' q, args.openType = .nocreate → env.lookup = .ok e → q ∈ statesOf σ.1 e →
        args.Own σ.1 q → nfs4OpOpen σ.1 args env = some (res, s') →
        ∀ e', statesOf s' e' = statesOf σ.1 e') ∧
      (∀ args env res s' seqid other, args.openType = .create → args.mode = .unchecked →
        env.lookup = .ok e → nfs4OpOpen σ.1 args env = some (res, s') →
        res.stateid = some (seqid, other) → Renewed σ.1 s' e args other) ∧
      ∀ args p, σ.1.htStateId args.stateidOther = some p →
        nfs4OpOpenDowngrade σ.1 args none =
          ({ status := .ok, stateid := some ((σ.1.states p).seqid + 1, args.stateidOther) },
            σ.1.setState p fun st => { st with seqid := st.seqid + 1 }) := by
  have hinv : (∃ chain, Valid σ.1 chain) ∧ ModesKept σ := by
    refine h.invariant (I := fun σ => (∃ chain, Valid σ.1 chain) ∧ ModesKept σ) ?_ ?_
    · refine ⟨⟨_, h₀.valid⟩, fun e p hp => ?_⟩
      rw [h₀.valid.statesOf_eq] at hp
      cases hp
    · -- a request adds or keeps modes, a downgrade sets them
      rintro ⟨s, asked⟩ ev ⟨s', asked'⟩ ⟨⟨chain, hv⟩, hkept⟩ hpos hstep
      cases ev with
      | request ev =>
        obtain ⟨s'', hstep', heq⟩ := Option.map_eq_some_iff.mp hstep
        cases heq
        exact ⟨(step_outcome hv hpos hstep').valid, step_modesKept hv hkept hpos hstep'⟩
      | opOpenDowngrade args filehandle =>
        cases hstep
        obtain ⟨hv', hs⟩ := nfs4OpOpenDowngrade_spec hv args filehandle
        refine ⟨⟨chain, hv'⟩, fun e p hp hshare => ?_⟩
        rw [hv'.statesOf_eq] at hp
        have hsame := hs.same p ⟨e, hp⟩
        rw [hsame.type] at hshare
        rw [hsame.modes_eq]
        exact hkept e p (by rw [hv.statesOf_eq]; exact hp) hshare
  obtain ⟨⟨chain, hv⟩, hkept⟩ := hinv
  refine ⟨hkept, fun args env res s' q htype hlookup hq hown hopen e' => ?_,
    fun args env res s' seqid other htype hmode hlookup hopen hstateid => ?_, fun args p hp => ?_⟩
  · rw [hv.statesOf_eq] at hq
    have hv' := nfs4OpOpen_again hv htype hlookup hq hown hopen
    rw [hv'.statesOf_eq, hv.statesOf_eq]
  · exact nfs4OpOpen_unchecked hv htype hmode hlookup hopen hstateid
  · simp only [nfs4OpOpenDowngrade, cacheInodeGetState, hp, setState_states_self,
      (hv.table _ p hp).1]

/-- A state that is made for reading, opened again for writing and asked to go down to nothing. -/
theorem modes_of_creation_after_downgrade :
    ∃ σ, execute shareStep (freshServer, fun _ => (0, 0))
        [.request (.opOpen (sampleOpen 1 .create 1 0) (sampleEnv (.error .notFound))),
         .request (.opOpen (sampleOpen 1 .nocreate 2 0)
           { sampleEnv (.ok 7) with create := .error .entryExists }),
         .opOpenDowngrade ⟨⟨1, 42, 1⟩, 0, 0⟩ none] = some σ ∧
      statesOf σ.1 7 = [0] ∧ (σ.1.states 0).seqid = 2 ∧ σ.2 0 = (1, 0) ∧ ModesKept σ := by
  have hrun : (execute shareStep (freshServer, fun _ => (0, 0))
        [.request (.opOpen (sampleOpen 1 .create 1 0) (sampleEnv (.error .notFound))),
         .request (.opOpen (sampleOpen 1 .nocreate 2 0)
           { sampleEnv (.ok 7) with create := .error .entryExists }),
         .opOpenDowngrade ⟨⟨1, 42, 1⟩, 0, 0⟩ none]).any (fun σ =>
      decide (statesOf σ.1 7 = [0]) && decide ((σ.1.states 0).seqid = 2) &&
        decide (σ.2 0 = (1, 0))) = true := by
    decide +kernel
  rw [Option.any_eq_true] at hrun
  obtain ⟨σ, hσ, hvalues⟩ := hrun
  simp only [Bool.and_eq_true, decide_eq_true_eq] at hvalues
  refine ⟨σ, hσ, hvalues.1.1, hvalues.1.2, hvalues.2, ?_⟩
  exact (modes_of_creation (e := 7) freshServer_initial
    (reachableBy_of_execute hσ (by decide +kernel))).1

/-! ## Modes that are brought up to date -/

/-- What one owner has to do with one file: the server, the stateid of its last OPEN, and the modes
of its OPENs so far or of the OPEN_DOWNGRADE after them. -/
structure Session where
  server : Server
  stateid : Option Other
  wanted : ℕ × ℕ

/-- The requests of the owner. -/
inductive SessionEvent
  | opOpen (args : OpenArgs) (env : OpenEnv)
  | opOpenDowngrade (access deny : ℕ)

/-- A request that succeeds changes what is wanted. -/
def sessionStep (σ : Session) : SessionEvent → Option Session
  | .opOpen args env => (nfs4OpOpen σ.server args env).map fun (res, s') =>
    if res.status = .ok then
      { server := s'
        stateid := res.stateid.map Prod.snd
        wanted := (σ.wanted.1 ||| args.shareAccess, σ.wanted.2 ||| args.shareDeny) }
    else { σ with server := s' }
  | .opOpenDowngrade access deny => σ.stateid.map fun other =>
    let r := nfs4OpOpenDowngrade σ.server ⟨other, access, deny⟩ none
    if r.1.status = .ok then { σ with server := r.2, wanted := (access, deny) }
    else { σ with server := r.2 }

/-- The request is one of the owner `name` on the file `e`. -/
def SessionEvent.Of (name : OwnerName) (e : ℕ) (σ : Session) : SessionEvent → Prop
  | .opOpen args env =>
    Possible σ.server (.opOpen args env) ∧ args.ownerName = name ∧ env.file = some e
  | .opOpenDowngrade .. => True

instance SessionEvent.Of.decidable (name : OwnerName) (e : ℕ) (σ : Session) :
    ∀ ev, Decidable (SessionEvent.Of name e σ ev)
  | .opOpen .. => inferInstanceAs (Decidable (_ ∧ _ ∧ _))
  | .opOpenDowngrade .. => inferInstanceAs (Decidable True)

/-- The state of the stateid records what is wanted, and OPEN_DOWNGRADE succeeds for a part of that
only. -/
def UnionRecorded (σ : Session) : Prop :=
  ∀ other p, σ.stateid = some other → σ.server.htStateId other = some p →
    σ.server.modes p = σ.wanted ∧
      ∀ access deny, (nfs4OpOpenDowngrade σ.server ⟨other, access, deny⟩ none).1.status = .ok →
        access &&& (σ.server.modes p).1 = access ∧ deny &&& (σ.server.modes p).2 = deny

/-- An owner creates the file for reading, and opens it again for writing. -/
theorem not_unionRecorded_after_reopen :
    ¬ ∀ s₀ name e σ, Initial s₀ →
      ReachableBy sessionStep (SessionEvent.Of name e) ⟨s₀, none, (0, 0)⟩ σ → UnionRecorded σ := by
  intro h
  let name : OwnerName := (sampleOpen 1 .create 1 0).ownerName
  let events : List SessionEvent :=
    [.opOpen (sampleOpen 1 .create 1 0) (sampleEnv (.error .notFound)),
     .opOpen (sampleOpen 1 .nocreate 2 0) { sampleEnv (.ok 7) with create := .error .entryExists }]
  have hrun : (execute sessionStep ⟨freshServer, none, (0, 0)⟩ events).any (fun σ =>
      σ.stateid.any (fun other => decide (σ.server.htStateId other = some 0)) &&
        decide (σ.server.modes 0 = (1, 0)) && decide (σ.wanted = (3, 0))) = true := by
    decide +kernel
  rw [Option.any_eq_true] at hrun
  obtain ⟨σ, hσ, hvalues⟩ := hrun
  rw [Bool.and_eq_true, Bool.and_eq_true, Option.any_eq_true, decide_eq_true_eq,
    decide_eq_true_eq] at hvalues
  obtain ⟨⟨⟨other, hother, hp⟩, hmodes⟩, hwanted⟩ := hvalues
  have hunion := h freshServer name 7 σ freshServer_initial
    (reachableBy_of_execute hσ (by decide +kernel))
  have heq := (hunion other 0 hother (of_decide_eq_true hp)).1
  rw [hmodes, hwanted] at heq
  cases heq

end Ganesha.Nfs4
