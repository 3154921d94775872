import Ganesha.Nfs4.Runs

/-!
# Share reservations

`NoShareConflict`: no share state of a file gives an access that a share state of another owner on
it denies. `cache_inode_add_state` never refuses a state, since the case of LOCK in
`cache_inode_state_conflict` overwrites what the case of SHARE has found, so only the tests of
`OPEN4_NOCREATE` itself stand against a conflict. They do not look at the read access of the other
states, nor at the write access of a state whose owner has the same bytes at another client.
-/

namespace Ganesha.Nfs4
open Library.Transition

variable {s s' s₀ : Server} {chain : ℕ → List ℕ} {ev : Event}

/-- No access of one owner is denied by another. -/
def NoShareConflict (s : Server) : Prop :=
  ∀ e, ∀ p ∈ statesOf s e, ∀ q ∈ statesOf s e,
    (s.states p).type = .share → (s.states q).type = .share →
    (s.owners (s.states p).powner).name ≠ (s.owners (s.states q).powner).name →
    (s.states p).data.shareAccess &&& (s.states q).data.shareDeny = 0

/-- A share state of another owner than that of the request. -/
def OpenArgs.Others (args : OpenArgs) (s : Server) (q : ℕ) : Prop :=
  (s.states q).type = .share ∧ (s.owners (s.states q).powner).name ≠ args.ownerName

/-- The OPEN makes no state on `e` that conflicts with one of another owner: `UNCHECKED4` finds no
such state, `OPEN4_NOCREATE` finds none that it denies, or is refused, or its owner has the file open
already. -/
def OpenFitsAt (s : Server) (args : OpenArgs) (env : OpenEnv) (e : ℕ) : Prop :=
  args.Passes s env →
    (args.openType = .create → args.mode = .unchecked →
      openAccessChecks args env args.attrProvided = none →
      ∀ q ∈ statesOf s e, args.Others s q →
        (s.states q).data.conflicts (candidateData args []) = false) ∧
    (args.openType = .nocreate → openAccessChecks args env false = none →
      (∃ q ∈ statesOf s e, args.Refused s q) ∨ (∃ q ∈ statesOf s e, args.Own s q) ∨
        ∀ q ∈ statesOf s e, args.Others s q →
          (s.states q).data.shareAccess &&& args.shareDeny = 0)

/-- The event is no OPEN of a file that exists, or one that fits. -/
def OpenFits (s : Server) : Event → Prop
  | .opOpen args env => match env.lookup with
    | .error _ => True
    | .ok e => OpenFitsAt s args env e
  | _ => True

/-- The reservations of `a` and `b`. -/
def Compatible (a b : Holding) : Prop :=
  a.type = .share → b.type = .share → a.owner ≠ b.owner →
    a.data.shareAccess &&& b.data.shareDeny = 0

@[simp] lemma StateData.shareAccess_hold (data : StateData) :
    data.hold.shareAccess = data.shareAccess := by cases data <;> rfl

@[simp] lemma StateData.shareDeny_hold (data : StateData) :
    data.hold.shareDeny = data.shareDeny := by cases data <;> rfl

lemma noShareConflict_iff : NoShareConflict s ↔ Pairs Compatible s := by
  simp only [NoShareConflict, Pairs, Compatible, Server.holding, StateData.shareAccess_hold,
    StateData.shareDeny_hold]

lemma StateData.conflicts_eq_false {data data' : StateData} : data.conflicts data' = false ↔
    data.shareAccess &&& data'.shareDeny = 0 ∧ data.shareDeny &&& data'.shareAccess = 0 := by
  unfold StateData.conflicts
  rw [decide_eq_false_iff_not, not_or, not_not, not_not]

lemma testBit_eq_false_of_and {x k : ℕ} (h : x &&& 2 ^ k = 0) : x.testBit k = false := by
  have hbit := congrArg (Nat.testBit · k) h
  simpa only [Nat.testBit_and, Nat.testBit_two_pow_self, Bool.and_true, Nat.zero_testBit] using hbit

/-- The two tests of the bits are the test of the masks. -/
lemma access_and_deny_eq_zero {access deny : ℕ} (haccess : access ∈ [1, 2, 3])
    (hread : deny &&& 1 = 0 ∨ access &&& 1 = 0) (hwrite : deny &&& 2 = 0 ∨ access &&& 2 = 0) :
    access &&& deny = 0 := by
  have hlt : access < 2 ^ 2 := by
    simp only [List.mem_cons, List.not_mem_nil, or_false] at haccess
    omega
  have hbit (k : ℕ) (h : deny &&& 2 ^ k = 0 ∨ access &&& 2 ^ k = 0) :
      (access.testBit k && deny.testBit k) = false := by
    rcases h with h | h
    · rw [testBit_eq_false_of_and h, Bool.and_false]
    · rw [testBit_eq_false_of_and h, Bool.false_and]
  refine Nat.eq_of_testBit_eq fun i => ?_
  rw [Nat.testBit_and, Nat.zero_testBit]
  match i with
  | 0 => exact hbit 0 hread
  | 1 => exact hbit 1 hwrite
  | i + 2 =>
    have hle : 2 ^ 2 ≤ 2 ^ (i + 2) := Nat.pow_le_pow_right (by omega) (by omega)
    rw [Nat.testBit_lt_two_pow (hlt.trans_le hle), Bool.false_and]

/-- An open that fits and is granted is compatible with those that are there. -/
lemma OpenArgs.compatible_of_fits {args : OpenArgs} {env : OpenEnv} {e q : ℕ}
    (hv : Valid s chain) (hpos : Possible s (.opOpen args env))
    (hfits : OpenFits s (.opOpen args env)) (hpasses : args.Passes s env)
    (hgrants : OpenGrants s args env e) (hq : q ∈ statesOf s e) (hothers : args.Others s q) :
    args.shareAccess &&& (s.states q).data.shareDeny = 0 ∧
      (s.states q).data.shareAccess &&& args.shareDeny = 0 := by
  cases hgrants with
  | created _ _ he =>
    rw [hv.statesOf_eq, hv.absent e he] at hq
    cases hq
  | unchecked hlookup htype hmode hchecks =>
    simp only [OpenFits, hlookup] at hfits
    have hno := (hfits hpasses).1 htype hmode hchecks q hq hothers
    rw [StateData.conflicts_eq_false] at hno
    rw [Nat.and_comm]
    exact ⟨hno.2, hno.1⟩
  | nocreate hlookup htype hchecks hscan =>
    simp only [OpenFits, hlookup] at hfits
    constructor
    · have hrefused := (hscan q hq).2
      refine access_and_deny_eq_zero hpos.1 ?_ ?_
      · by_contra hboth
        rw [not_or] at hboth
        exact hrefused ⟨hothers.1, .inr (.inl ⟨hboth.1, hboth.2⟩)⟩
      · by_contra hboth
        rw [not_or] at hboth
        exact hrefused ⟨hothers.1, .inr (.inr ⟨hboth.1, hboth.2⟩)⟩
    · rcases (hfits hpasses).2 htype hchecks with ⟨r, hr, hrefused⟩ | ⟨r, hr, hown⟩ | hall
      · exact absurd hrefused (hscan r hr).2
      · exact absurd hown (hscan r hr).1
      · exact hall q hq hothers

/-- One step keeps the reservations apart. -/
theorem step_noShareConflict (hv : Valid s chain) (hno : NoShareConflict s) (hpos : Possible s ev)
    (hfits : OpenFits s ev) (hstep : step s ev = some s') : NoShareConflict s' := by
  rw [noShareConflict_iff] at hno ⊢
  refine (step_outcome hv hpos hstep).pairs hv hno (fun _ _ _ _ _ hne => absurd rfl hne) ?_
  intro e p hG q hq
  cases ev with
  | load => exact hG.elim
  | opClose => exact hG.elim
  | opLocku => exact hG.elim
  | opLock e' args env =>
    have hlock : (s'.states p).type = .lock := hG.2.1.1
    constructor
    · intro hshare
      rw [Server.holding, hlock] at hshare
      cases hshare
    · intro _ hshare
      rw [Server.holding, hlock] at hshare
      cases hshare
  | opOpen args env =>
    obtain ⟨-, ⟨verifier, hdata⟩, hname, hpasses, hgrants, -⟩ := hG
    constructor
    · intro _ hshare hne
      have hothers : args.Others s q := ⟨hshare, fun heq => hne (hname.trans heq.symm)⟩
      simp only [Server.holding, hdata, StateData.shareDeny_hold]
      exact (args.compatible_of_fits hv hpos hfits hpasses hgrants hq hothers).1
    · intro hshare _ hne
      have hothers : args.Others s q := ⟨hshare, fun heq => hne (heq.trans hname.symm)⟩
      simp only [Server.holding, hdata, StateData.shareAccess_hold]
      exact (args.compatible_of_fits hv hpos hfits hpasses hgrants hq hothers).2

/-- Share reservations are safe in every run whose OPENs all fit. -/
theorem noShareConflict_of_openFits (h₀ : Initial s₀)
    (h : ReachableBy step (fun s ev => Possible s ev ∧ OpenFits s ev) s₀ s) : NoShareConflict s := by
  have hinv : (∃ chain, Valid s chain) ∧ NoShareConflict s := by
    refine h.invariant (I := fun s => (∃ chain, Valid s chain) ∧ NoShareConflict s) ?_ ?_
    · refine ⟨⟨_, h₀.valid⟩, fun e p hp => ?_⟩
      rw [h₀.valid.statesOf_eq] at hp
      cases hp
    · rintro s ev s' ⟨⟨chain, hv⟩, hno⟩ ⟨hpos, hfits⟩ hstep
      exact ⟨(step_outcome hv hpos hstep).valid, step_noShareConflict hv hno hpos hfits hstep⟩
  exact hinv.2

/-! ## Two runs -/

instance OpenArgs.Passes.decidable (args : OpenArgs) (s : Server) (env : OpenEnv) :
    Decidable (args.Passes s env) :=
  decidable_of_iff (env.filehandle = none ∧ args.claim = .null ∧ claimNullChecks s args env = none ∧
    openAttrChecks args env = none) ⟨fun ⟨h₁, h₂, h₃, h₄⟩ => ⟨h₁, h₂, h₃, h₄⟩,
      fun ⟨h₁, h₂, h₃, h₄⟩ => ⟨h₁, h₂, h₃, h₄⟩⟩

instance (args : OpenArgs) (s : Server) (q : ℕ) : Decidable (args.Others s q) :=
  inferInstanceAs (Decidable (_ ∧ _))

instance (args : OpenArgs) (s : Server) (q : ℕ) : Decidable (args.Own s q) :=
  inferInstanceAs (Decidable (_ ∧ _))

instance (args : OpenArgs) (s : Server) (q : ℕ) : Decidable (args.Refused s q) :=
  inferInstanceAs (Decidable (_ ∧ _))

instance (s : Server) (args : OpenArgs) (env : OpenEnv) (e : ℕ) :
    Decidable (OpenFitsAt s args env e) :=
  inferInstanceAs (Decidable (_ → _ ∧ _))

instance OpenFits.decidable (s : Server) : ∀ ev, Decidable (OpenFits s ev)
  | .opOpen args env => match h : env.lookup with
    | .error _ => isTrue (by simp only [OpenFits, h])
    | .ok e => decidable_of_iff (OpenFitsAt s args env e) (by simp only [OpenFits, h])
  | .load .. | .opClose .. | .opLock .. | .opLocku .. => inferInstanceAs (Decidable True)

/-- One client creates the file for reading and denies writing, and another opens it for writing
with `UNCHECKED4`. -/
theorem not_noShareConflict_after_unchecked :
    ¬ ∀ s₀ s, Initial s₀ → ReachableBy step Possible s₀ s → NoShareConflict s := by
  intro h
  let events : List Event :=
    [.opOpen (sampleOpen 1 .create 1 2) (sampleEnv (.error .notFound)),
     .opOpen (sampleOpen 2 .create 2 0)
       { sampleEnv (.ok 7) with create := .error .entryExists }]
  obtain ⟨s, hs⟩ : ∃ s, execute step freshServer events = some s :=
    Option.isSome_iff_exists.mp (by decide +kernel)
  have hreach : ReachableBy step Possible freshServer s :=
    reachableBy_of_execute hs (by decide +kernel)
  have hread : (execute step freshServer events).all (fun s => statesOf s 7 = [0, 1] ∧
      (s.states 0).type = .share ∧ (s.states 1).type = .share ∧
      (s.owners (s.states 1).powner).name ≠ (s.owners (s.states 0).powner).name ∧
      (s.states 1).data.shareAccess &&& (s.states 0).data.shareDeny ≠ 0) = true := by
    decide +kernel
  rw [hs, Option.all_some, decide_eq_true_iff] at hread
  obtain ⟨hlist, htype₀, htype₁, hname, hconflict⟩ := hread
  refine hconflict (h freshServer s freshServer_initial hreach 7 1 ?_ 0 ?_ htype₁ htype₀ hname)
  · rw [hlist]
    decide
  · rw [hlist]
    decide

/-- One client creates the file for reading and denies writing, another opens it for reading. -/
theorem noShareConflict_after_two_readers :
    (execute step freshServer
      [.opOpen (sampleOpen 1 .create 1 2) (sampleEnv (.error .notFound)),
       .opOpen (sampleOpen 2 .nocreate 1 0)
         { sampleEnv (.ok 7) with create := .error .entryExists }]).any
        (fun s => (statesOf s 7).length = 2) = true ∧
      ∀ s, execute step freshServer
        [.opOpen (sampleOpen 1 .create 1 2) (sampleEnv (.error .notFound)),
         .opOpen (sampleOpen 2 .nocreate 1 0)
           { sampleEnv (.ok 7) with create := .error .entryExists }] = some s →
        NoShareConflict s := by
  refine ⟨by decide +kernel, fun s hs => ?_⟩
  exact noShareConflict_of_openFits freshServer_initial
    (reachableBy_of_execute hs (by decide +kernel))

end Ganesha.Nfs4
