import Ganesha.Library.Transition
import Ganesha.Nfs4.Requests

/-!
# Runs of the server

One step is a request, or an object of the file system that enters the cache. A step that has no
result is one in which the server reads through `NULL` or writes beyond a buffer.
-/

namespace Ganesha.Nfs4
open Library.Transition Ganesha.Pools

/-- What happens to the server. -/
inductive Event
  | load (e : ℕ) (type : FileType) (digest : Option UInt64)
  | opOpen (args : OpenArgs) (env : OpenEnv)
  | opClose (e : ℕ) (other : Other) (env : CloseEnv)
  | opLock (e : ℕ) (args : LockArgs) (env : LockEnv)
  | opLocku (e : ℕ) (args : LockuArgs) (filehandle : Option NfsStat) (clientKnown : Bool)

/-- The server after an event. -/
def step (s : Server) : Event → Option Server
  | .load e type digest =>
    if s.entries e = none then
      some { s with entries := Function.update s.entries e (some ⟨type, digest, none, none⟩) }
    else none
  | .opOpen args env => (nfs4OpOpen s args env).map Prod.snd
  | .opClose e other env => (nfs4OpClose s e other env).map Prod.snd
  | .opLock e args env => (nfs4OpLock s e args env).map Prod.snd
  | .opLocku e args filehandle clientKnown =>
    (nfs4OpLocku s e args filehandle clientKnown).map Prod.snd

/-- What the events are: the modes of an OPEN are those of the protocol, a file that is created was
not there, and the error of a filehandle is an error. -/
def Possible (s : Server) : Event → Prop
  | .load .. => True
  | .opOpen args env => args.shareAccess ∈ [1, 2, 3] ∧ args.shareDeny ∈ [0, 1, 2, 3] ∧
      match env.create with
      | .ok (e, _) => (s.entries e).isNone
      | .error _ => True
  | .opClose .. => True
  | .opLock _ _ env => env.filehandle ≠ some .ok
  | .opLocku _ _ filehandle _ => filehandle ≠ some .ok

instance Possible.decidable (s : Server) : ∀ ev, Decidable (Possible s ev)
  | .load .. => inferInstanceAs (Decidable True)
  | .opOpen args env => match h : env.create with
    | .ok (e, _) => decidable_of_iff (args.shareAccess ∈ [1, 2, 3] ∧ args.shareDeny ∈ [0, 1, 2, 3] ∧
        (s.entries e).isNone) (by simp only [Possible, h])
    | .error _ => decidable_of_iff (args.shareAccess ∈ [1, 2, 3] ∧ args.shareDeny ∈ [0, 1, 2, 3])
        (by simp only [Possible, h, and_true])
  | .opClose .. => inferInstanceAs (Decidable True)
  | .opLock _ _ env => inferInstanceAs (Decidable (env.filehandle ≠ some .ok))
  | .opLocku _ _ filehandle _ => inferInstanceAs (Decidable (filehandle ≠ some .ok))

/-- The entry of the file that an OPEN is about: that of the name, or else the new one. -/
def OpenEnv.file (env : OpenEnv) : Option ℕ :=
  match env.lookup, env.create with
  | .ok e, _ => some e
  | .error _, .ok (e, _) => some e
  | .error _, .error _ => none

/-- The server when it starts. -/
structure Initial (s : Server) : Prop where
  entries : ∀ e, s.entries e = none
  htStateId : ∀ other, s.htStateId other = none
  htOpenOwner : ∀ name, s.htOpenOwner name = none
  spare : Spare s.poolStateV4 s.stateArrays ∅
  spareOwners : Spare s.poolOpenOwner s.ownerArrays ∅

variable {s s' s₀ : Server} {chain : ℕ → List ℕ} {ev : Event} {C : Server → Event → Prop}

/-- A server without states is valid. -/
lemma Initial.valid (h : Initial s) : Valid s fun _ => [] where
  linked e entry hentry := by
    rw [h.entries e] at hentry
    cases hentry
  absent _ _ := rfl
  nodup _ := List.nodup_nil
  pentry _ _ := nofun
  sound _ _ := nofun
  digest _ _ _ hne := absurd rfl hne
  table x p hx := by
    rw [h.htStateId x] at hx
    cases hx
  spare := h.spare.mono fun _ ⟨_, hp⟩ => nomatch hp
  allocs _ := Nat.zero_le _
  name name o ho := by
    rw [h.htOpenOwner name] at ho
    cases ho
  powner p hp := by
    obtain ⟨_, hp⟩ := hp
    cases hp
  spareOwners := h.spareOwners.mono fun o ⟨name, ho⟩ => by
    rw [h.htOpenOwner name] at ho
    cases ho

/-- A server that has just started, with four states and four owners in its pools. -/
def freshServer : Server where
  serverBootTime := 1
  fsalMaxNameLen := 255
  maxnamlen := 255
  returnBadStateid := true
  nbPreStateV4 := 0
  entries _ := none
  states _ := ⟨.none, .share [] 0 0 0, 0, ⟨0, 0, 0⟩, 0, none, none, none⟩
  owners _ := ⟨⟨0, []⟩, false, 0, 0, none⟩
  poolStateV4 := [0, 1, 2, 3]
  stateArrays _ := []
  poolOpenOwner := [0, 1, 2, 3]
  ownerArrays _ := []
  htStateId _ := none
  htOpenOwner _ := none
  openOwnerCounter := 0
  allocs := 0

lemma freshServer_initial : Initial freshServer := by
  have hspare : Spare [0, 1, 2, 3] (fun _ => []) (∅ : Set ℕ) :=
    ⟨by decide, fun _ _ => nofun, fun _ => List.nodup_nil, fun _ _ => nofun,
      fun _ _ _ => List.disjoint_nil_left _⟩
  exact ⟨fun _ => rfl, fun _ => rfl, fun _ => rfl, hspare, hspare⟩

/-- An OPEN of the file with the entry 7 by the client `clientid`, with these modes. -/
def sampleOpen (clientid : UInt64) (openType : OpenType) (access deny : ℕ) : OpenArgs where
  claim := .null
  fileLen := 1
  openType := openType
  mode := .unchecked
  createverf := []
  attrs := false
  shareAccess := access
  shareDeny := deny
  clientid := clientid
  ownerLen := 1
  ownerVal _ := 65
  seqid := 0

/-- All the calls of the request succeed; `lookup` is what the lookup of the name gives. -/
def sampleEnv (lookup : Except CacheStatus ℕ) : OpenEnv where
  filehandle := none
  fattrSupported := true
  fattrCheckAccess := true
  buffdesc2name := .success
  parentType := .directory
  client := some true
  ownerNameAlloc := true
  ownerSetOk := true
  getattr := .success
  fattrToFsalAttr := 1
  lookup := lookup
  accessDenyWrite := .success
  accessRead := .success
  setattr := .success
  accessWrite := .success
  create := .ok (7, some 42)
  stack := []
  stateSetOk := true
  openByName := .success
  finish := none

/-- What is known of a state that the event adds to the list of `e`. -/
def Event.Adds (s s' : Server) (e : ℕ) (st : State) : Event → Prop
  | .opOpen args env => st.type = .share ∧ (∃ verifier, st.data = candidateData args verifier) ∧
      (s'.owners st.powner).name = args.ownerName ∧ args.Passes s env ∧ OpenGrants s args env e ∧
      env.Keys s e (ownerCounter s args.ownerName) st
  | .opLock e' args env => e = e' ∧ args.Makes st ∧
      args.Grants s e (s'.owners st.powner).name env ∧
      s.NewKeys e (s'.owners st.powner).name st
  | _ => False

/-- What is known of a state that the event deletes. -/
def Event.Deletes (s : Server) (p : ℕ) : Event → Prop
  | .opClose .. => (s.states p).type = .share
  | .opLocku _ args filehandle _ => filehandle = none ∧
      rangeChecks args.offset args.length = none ∧ s.htStateId args.stateidOther = some p ∧
      (s.states p).type = .lock ∧ lockuChecks s p args = none
  | _ => False

/-- What one step does to the lists of states. -/
theorem step_outcome (h : Valid s chain) (hpos : Possible s ev) (hstep : step s ev = some s') :
    Outcome s s' chain True (fun e st => ev.Adds s s' e st) fun _ p => ev.Deletes s p := by
  cases ev with
  | load e type digest =>
    simp only [step] at hstep
    split_ifs at hstep with he
    cases hstep
    exact .keeps trivial (h.load he type digest) ⟨fun q _ => .refl _, fun _ _ ho => ho⟩
  | opOpen args env =>
    obtain ⟨⟨res, s''⟩, hopen, rfl⟩ := Option.map_eq_some_iff.mp hstep
    refine (nfs4OpOpen_outcome h (fun e digest hc => ?_) hopen).mono id (fun _ _ hG => hG)
      fun _ _ hD => hD
    have hcreate := hpos.2.2
    rw [hc] at hcreate
    exact Option.isNone_iff_eq_none.mp hcreate
  | opClose e other env =>
    obtain ⟨⟨res, s''⟩, hclose, rfl⟩ := Option.map_eq_some_iff.mp hstep
    exact (nfs4OpClose_outcome h hclose).mono id (fun _ _ hG => hG) fun _ _ hD => hD
  | opLock e args env =>
    obtain ⟨⟨res, s''⟩, hlock, rfl⟩ := Option.map_eq_some_iff.mp hstep
    refine (nfs4OpLock_outcome h hpos hlock).mono (fun _ => trivial) (fun e' st hG => ?_)
      fun _ _ hD => hD
    rw [hG.1]
    exact ⟨rfl, hG.2⟩
  | opLocku e args filehandle clientKnown =>
    obtain ⟨⟨res, s''⟩, hlocku, rfl⟩ := Option.map_eq_some_iff.mp hstep
    exact (nfs4OpLocku_outcome h hpos hlocku).mono (fun _ => trivial) (fun _ _ hG => hG)
      fun _ _ hD => hD.2

lemma Outcome.valid {K : Prop} {G : ℕ → State → Prop} {D : ℕ → ℕ → Prop}
    (h : Outcome s s' chain K G D) : ∃ chain', Valid s' chain' := by
  cases h with
  | keeps _ hv _ => exact ⟨_, hv⟩
  | adds _ _ _ hv _ _ => exact ⟨_, hv⟩
  | deletes _ _ _ hv _ _ => exact ⟨_, hv⟩

/-- The lists of states and the owners are sound after every run. -/
theorem valid_of_reachableBy (h₀ : Initial s₀) (hC : ∀ s ev, C s ev → Possible s ev)
    (h : ReachableBy step C s₀ s) : ∃ chain, Valid s chain := by
  refine h.invariant (I := fun s => ∃ chain, Valid s chain) ⟨_, h₀.valid⟩ ?_
  rintro s ev s' ⟨chain, hv⟩ hev hstep
  exact (step_outcome hv (hC s ev hev) hstep).valid

/-! ## Pairs of states of one file -/

/-- What a state holds, and for whom. -/
structure Holding where
  type : StateType
  data : StateData
  owner : OwnerName

/-- What the state `p` holds. -/
def Server.holding (s : Server) (p : ℕ) : Holding :=
  ⟨(s.states p).type, (s.states p).data.hold, (s.owners (s.states p).powner).name⟩

/-- `R` holds of any two states of one file. -/
def Pairs (R : Holding → Holding → Prop) (s : Server) : Prop :=
  ∀ e, ∀ p ∈ statesOf s e, ∀ q ∈ statesOf s e, R (s.holding p) (s.holding q)

lemma Valid.holding_eq {chain' : ℕ → List ℕ} {U : Set ℕ} {q : ℕ} (h : Valid s chain)
    (h' : Valid s' chain') (hstill : Still s s' U) (hq : q ∈ used chain) (hU : q ∈ U) :
    s'.holding q = s.holding q := by
  have hsame := hstill.same q hU
  unfold Server.holding
  rw [hsame.type, hsame.hold, h.name_eq h' hstill hq hU]

/-- A request keeps what holds of any two states of one file if what it adds goes with them. -/
theorem Outcome.pairs {R : Holding → Holding → Prop} {K : Prop} {G : ℕ → State → Prop}
    {D : ℕ → ℕ → Prop} (h : Outcome s s' chain K G D) (hv : Valid s chain) (hR : Pairs R s)
    (hself : ∀ e p, G e (s'.states p) → R (s'.holding p) (s'.holding p))
    (hnew : ∀ e p, G e (s'.states p) → ∀ q ∈ statesOf s e,
      R (s'.holding p) (s.holding q) ∧ R (s.holding q) (s'.holding p)) : Pairs R s' := by
  intro e p hp q hq
  cases h with
  | keeps _ hv' hs =>
    rw [hv'.statesOf_eq] at hp hq
    rw [hv.holding_eq hv' hs ⟨e, hp⟩ ⟨e, hp⟩, hv.holding_eq hv' hs ⟨e, hq⟩ ⟨e, hq⟩]
    rw [← hv.statesOf_eq] at hp hq
    exact hR e p hp q hq
  | adds e' p' hp' hv' hs hG =>
    rw [hv'.statesOf_eq, mem_extend] at hp hq
    rcases hp with hp | ⟨rfl, rfl⟩
    · rw [hv.holding_eq hv' hs ⟨e, hp⟩ ⟨e, hp⟩]
      rcases hq with hq | ⟨rfl, rfl⟩
      · rw [hv.holding_eq hv' hs ⟨e, hq⟩ ⟨e, hq⟩]
        rw [← hv.statesOf_eq] at hp hq
        exact hR e p hp q hq
      · exact (hnew e q hG p (hv.statesOf_eq e ▸ hp)).2
    · rcases hq with hq | ⟨rfl, -⟩
      · rw [hv.holding_eq hv' hs ⟨e, hq⟩ ⟨e, hq⟩]
        exact (hnew e p hG q (hv.statesOf_eq e ▸ hq)).1
      · exact hself _ _ hG
  | deletes e' p' hp' hv' hs _ =>
    rw [hv'.statesOf_eq, hv.mem_shrink hp'] at hp hq
    rw [hv.holding_eq hv' hs ⟨e, hp.1⟩ ⟨⟨e, hp.1⟩, hp.2⟩,
      hv.holding_eq hv' hs ⟨e, hq.1⟩ ⟨⟨e, hq.1⟩, hq.2⟩]
    rw [← hv.statesOf_eq] at hp hq
    exact hR e p hp.1 q hq.1

end Ganesha.Nfs4
