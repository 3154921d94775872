import Ganesha.Nfs4.Chains
import Ganesha.Nfs4.Lock

/-!
# Owners

`Valid s chain`: the lists of states are `chain`, the table of owners leads to an owner of the name
it is searched for, and every state has an owner of the table. Two states then have the same owner
when the names of their owners are the same (`Valid.powner_eq_iff`).
-/

namespace Ganesha.Nfs4
open Ganesha.Pools
open Ganesha.Hash (getPrealloc)

variable {s s' s'' : Server} {chain chain' : ℕ → List ℕ} {e p q o : ℕ} {entry : Entry}
  {name : OwnerName}

/-! ## States that hold the same -/

/-- The data of a state without the count of the locks taken through it. -/
def StateData.hold : StateData → StateData
  | .share verifier access deny _ => .share verifier access deny 0
  | .lock type offset length popenstate => .lock type offset length popenstate

lemma StateData.hold_setLockheld {data data' : StateData} {f : UInt32 → UInt32}
    (h : data.setLockheld f = some data') : data'.hold = data.hold := by
  cases data with
  | share verifier access deny held =>
    cases h
    rfl
  | lock => cases h

/-- Data of a state of this type. -/
def StateType.Takes : StateType → StateData → Prop
  | .share, .share .. => True
  | .lock, .lock .. => True
  | _, _ => False

/-- The state is a share or a lock, with the data of its type. -/
def State.Sound (st : State) : Prop := st.type.Takes st.data

/-- A state that holds what `st` holds. -/
structure State.Same (st st' : State) : Prop where
  type : st'.type = st.type
  hold : st'.data.hold = st.data.hold
  powner : st'.powner = st.powner
  other : st'.stateidOther = st.stateidOther

lemma State.Same.refl (st : State) : st.Same st := ⟨rfl, rfl, rfl, rfl⟩

lemma State.Same.trans {st st' st'' : State} (h : st.Same st') (h' : st'.Same st'') :
    st.Same st'' :=
  ⟨h'.type.trans h.type, h'.hold.trans h.hold, h'.powner.trans h.powner, h'.other.trans h.other⟩

lemma State.same_of_core {st st' : State} (h : st'.core = st.core) : st.Same st' := by
  obtain ⟨htype, hdata, -, hother, howner, -⟩ := State.core_eq.mp h
  exact ⟨htype, congrArg StateData.hold hdata, howner, hother⟩

lemma StateType.takes_hold {type : StateType} {data : StateData} :
    type.Takes data.hold ↔ type.Takes data := by
  cases type <;> cases data <;> rfl

lemma State.Same.sound {st st' : State} (h : st.Same st') (hst : st.Sound) : st'.Sound := by
  unfold State.Sound at hst ⊢
  rw [h.type, ← StateType.takes_hold, h.hold, StateType.takes_hold]
  exact hst

/-! ## The table of owners -/

/-- The owners of the table. -/
def known (s : Server) : Set ℕ := {o | ∃ name, s.htOpenOwner name = some o}

/-- The lists of states and their owners. -/
structure Valid (s : Server) (chain : ℕ → List ℕ) : Prop extends Shape s chain where
  sound : ∀ e, ∀ p ∈ chain e, (s.states p).Sound
  name : ∀ name o, s.htOpenOwner name = some o → (s.owners o).name = name
  powner : ∀ p ∈ used chain, (s.states p).powner ∈ known s
  spareOwners : Spare s.poolOpenOwner s.ownerArrays (known s)

/-- Everything but the owners and their table. -/
structure Beside (s s' : Server) : Prop where
  serverBootTime : s'.serverBootTime = s.serverBootTime
  states : s'.states = s.states
  entries : s'.entries = s.entries
  htStateId : s'.htStateId = s.htStateId
  poolStateV4 : s'.poolStateV4 = s.poolStateV4
  stateArrays : s'.stateArrays = s.stateArrays
  allocs : s'.allocs = s.allocs
  owners : ∀ name o, s.htOpenOwner name = some o → s'.htOpenOwner name = some o

lemma Beside.known_subset (h : Beside s s') : known s ⊆ known s' :=
  fun _ ⟨name, ho⟩ => ⟨name, h.owners name _ ho⟩

/-- Changes beside the states keep the server valid. -/
lemma Valid.beside (h : Valid s chain) (hb : Beside s s')
    (hname : ∀ name o, s'.htOpenOwner name = some o → (s'.owners o).name = name)
    (hspare : Spare s'.poolOpenOwner s'.ownerArrays (known s')) : Valid s' chain where
  toShape := by
    refine h.toShape.congr hb.entries (fun p hp => ?_) hb.htStateId ?_ hb.allocs.ge
    · rw [hb.states]
      exact ⟨rfl, rfl, rfl, rfl⟩
    · rw [hb.poolStateV4, hb.stateArrays]
      exact h.spare
  sound e p hp := by
    rw [hb.states]
    exact h.sound e p hp
  name := hname
  powner p hp := by
    rw [hb.states]
    exact hb.known_subset (h.powner p hp)
  spareOwners := hspare

lemma setOwner_owners_of_ne {o' : ℕ} {f : Owner → Owner} (hne : o' ≠ o) :
    (s.setOwner o f).owners o' = s.owners o' := Function.update_of_ne hne _ _

lemma setOwner_owners_self {f : Owner → Owner} :
    (s.setOwner o f).owners o = f (s.owners o) := Function.update_self ..

/-- An owner may change apart from its name. -/
lemma Valid.setOwner {f : Owner → Owner} (h : Valid s chain) (hf : ∀ owner, (f owner).name = owner.name) :
    Valid (s.setOwner o f) chain ∧ Beside s (s.setOwner o f) := by
  have hb : Beside s (s.setOwner o f) := ⟨rfl, rfl, rfl, rfl, rfl, rfl, rfl, fun _ _ ho => ho⟩
  refine ⟨h.beside hb (fun name o' ho' => ?_) h.spareOwners, hb⟩
  rcases eq_or_ne o' o with rfl | hne
  · rw [setOwner_owners_self, hf]
    exact h.name name o' ho'
  · rw [setOwner_owners_of_ne hne]
    exact h.name name o' ho'

/-- What an owner from the pool changes before it is in the table. -/
structure Prepares (s s' : Server) (o : ℕ) (name : OwnerName) : Prop where
  serverBootTime : s'.serverBootTime = s.serverBootTime
  openOwnerCounter : s'.openOwnerCounter = s.openOwnerCounter
  states : s'.states = s.states
  entries : s'.entries = s.entries
  htStateId : s'.htStateId = s.htStateId
  poolStateV4 : s'.poolStateV4 = s.poolStateV4
  stateArrays : s'.stateArrays = s.stateArrays
  allocs : s'.allocs = s.allocs
  owners : ∀ o' ≠ o, s'.owners o' = s.owners o'
  name : (s'.owners o).name = name
  spare : Spare s'.poolOpenOwner s'.ownerArrays (insert o (known s))

/-- `nfs_open_owner_Set` gives the owner its counter, and puts it into the table if its name is
not there. -/
lemma Valid.ownerSet {s₁ : Server} {ok b : Bool} (h : Valid s chain) (hp : Prepares s s₁ o name)
    (ho : o ∉ known s) (htable : s₁.htOpenOwner = s.htOpenOwner)
    (hset : nfsOpenOwnerSet s₁ name o ok = (b, s')) :
    Valid s' chain ∧ Beside s s' ∧ (b = true → s'.htOpenOwner name = some o ∧
      (s'.owners o).counter = s.openOwnerCounter + 1 ∧ s.htOpenOwner name = none) := by
  -- the new owner is not in the table
  have hne : ∀ name' o', s.htOpenOwner name' = some o' → o' ≠ o := fun name' o' ho' heq =>
    ho ⟨name', heq ▸ ho'⟩
  set s₂ : Server := Server.setOwner { s₁ with openOwnerCounter := s₁.openOwnerCounter + 1 } o
    fun owner => { owner with counter := s₁.openOwnerCounter + 1 } with hs₂
  have howners : ∀ name' o', s.htOpenOwner name' = some o' → (s₂.owners o').name = name' := by
    intro name' o' ho'
    have hne' := hne name' o' ho'
    rw [hs₂, setOwner_owners_of_ne hne']
    show (s₁.owners o').name = name'
    rw [hp.owners o' hne']
    exact h.name name' o' ho'
  have hown : (s₂.owners o).name = name := by
    rw [hs₂, setOwner_owners_self]
    exact hp.name
  -- the owner gets its place in the table, or not
  by_cases hok : ok = true ∧ s.htOpenOwner name = none
  · -- the owner is in the table now
    have heq : nfsOpenOwnerSet s₁ name o ok =
        (true, { s₂ with htOpenOwner := Function.update s.htOpenOwner name (some o) }) := by
      rw [← htable] at hok ⊢
      exact if_pos hok
    rw [heq] at hset
    obtain ⟨rfl, rfl⟩ := Prod.mk.inj hset
    have hb : Beside s { s₂ with htOpenOwner := Function.update s.htOpenOwner name (some o) } := by
      refine ⟨hp.serverBootTime, hp.states, hp.entries, hp.htStateId, hp.poolStateV4, hp.stateArrays, hp.allocs, ?_⟩
      intro name' o' ho'
      have hne' : name' ≠ name := fun heq' => by
        rw [heq', hok.2] at ho'
        cases ho'
      exact (Function.update_of_ne hne' ..).trans ho'
    refine ⟨h.beside hb ?_ ?_, hb, fun _ => ⟨Function.update_self .., ?_, hok.2⟩⟩
    · intro name' o' ho'
      have ho'' : Function.update s.htOpenOwner name (some o) name' = some o' := ho'
      rcases eq_or_ne name' name with rfl | hne'
      · rw [Function.update_self] at ho''
        rw [← Option.some.inj ho'']
        exact hown
      · rw [Function.update_of_ne hne'] at ho''
        exact howners name' o' ho''
    · refine hp.spare.mono ?_
      rintro o' ⟨name', ho'⟩
      have ho'' : Function.update s.htOpenOwner name (some o) name' = some o' := ho'
      rcases eq_or_ne name' name with rfl | hne'
      · rw [Function.update_self] at ho''
        exact .inl (Option.some.inj ho'').symm
      · rw [Function.update_of_ne hne'] at ho''
        exact .inr ⟨name', ho''⟩
    · show (s₂.owners o).counter = _
      rw [hs₂, setOwner_owners_self, hp.openOwnerCounter]
  · have heq : nfsOpenOwnerSet s₁ name o ok = (false, s₂) := by
      rw [← htable] at hok
      exact if_neg hok
    rw [heq] at hset
    obtain ⟨rfl, rfl⟩ := Prod.mk.inj hset
    have htable' : s₂.htOpenOwner = s.htOpenOwner := htable
    have hb : Beside s s₂ :=
      ⟨hp.serverBootTime, hp.states, hp.entries, hp.htStateId, hp.poolStateV4, hp.stateArrays, hp.allocs,
        fun name' o' ho' => htable' ▸ ho'⟩
    refine ⟨h.beside hb (fun name' o' ho' => howners name' o' (htable' ▸ ho')) ?_, hb, nofun⟩
    refine hp.spare.mono ?_
    rintro o' ⟨name', ho'⟩
    exact .inr ⟨name', htable' ▸ ho'⟩

lemma Valid.getOwner {pool : List ℕ} {arrays : ℕ → List ℕ} {res : Option ℕ} (h : Valid s chain)
    (hget : getPrealloc s.nbPreStateV4 s.poolOpenOwner s.ownerArrays = (res, pool, arrays)) :
    match res with
    | none => Spare pool arrays (known s)
    | some o => o ∉ known s ∧ Spare pool arrays (insert o (known s)) := by
  have hspare := h.spareOwners.get s.nbPreStateV4
  rw [hget] at hspare
  cases res with
  | none => exact hspare
  | some o => exact hspare

lemma Valid.pool {pool : List ℕ} {arrays : ℕ → List ℕ} (h : Valid s chain)
    (hspare : Spare pool arrays (known s)) :
    Valid { s with poolOpenOwner := pool, ownerArrays := arrays } chain ∧
      Beside s { s with poolOpenOwner := pool, ownerArrays := arrays } := by
  have hb : Beside s { s with poolOpenOwner := pool, ownerArrays := arrays } :=
    ⟨rfl, rfl, rfl, rfl, rfl, rfl, rfl, fun _ _ ho => ho⟩
  exact ⟨h.beside hb h.name hspare, hb⟩

/-- The counter of the owner of a name, or the one it will get. -/
def ownerCounter (s : Server) (name : OwnerName) : UInt32 :=
  match s.htOpenOwner name with
  | some o => (s.owners o).counter
  | none => s.openOwnerCounter + 1

/-- The owner of an OPEN. -/
theorem openOwner_spec {args : OpenArgs} {env : OpenEnv} {res : Option ℕ} (h : Valid s chain)
    (howner : openOwner s args env = (res, s')) :
    Valid s' chain ∧ Beside s s' ∧ ∀ o, res = some o → s'.htOpenOwner args.ownerName = some o ∧
      (s'.owners o).counter = ownerCounter s args.ownerName := by
  unfold openOwner at howner
  split at howner
  next o ho =>
    have hcounter : ownerCounter s args.ownerName = (s.owners o).counter := by
      rw [ownerCounter, ho]
    split_ifs at howner
    · obtain ⟨rfl, rfl⟩ := Prod.mk.inj howner
      obtain ⟨hv, hb⟩ := h.setOwner (o := o)
        (f := fun owner => { owner with seqid := 0, confirmed := false }) fun _ => rfl
      refine ⟨hv, hb, fun o' ho' => ⟨ho.trans ho', ?_⟩⟩
      rw [← Option.some.inj ho', setOwner_owners_self, hcounter]
    · obtain ⟨rfl, rfl⟩ := Prod.mk.inj howner
      exact ⟨h, ⟨rfl, rfl, rfl, rfl, rfl, rfl, rfl, fun _ _ ho => ho⟩, fun o' ho' =>
        ⟨ho.trans ho', by rw [← Option.some.inj ho', hcounter]⟩⟩
  next hnone =>
    split at howner
    next pool arrays hget =>
      obtain ⟨rfl, rfl⟩ := Prod.mk.inj howner
      obtain ⟨hv, hb⟩ := h.pool (h.getOwner hget)
      exact ⟨hv, hb, nofun⟩
    next o pool arrays hget =>
      obtain ⟨ho, hspare⟩ := h.getOwner hget
      by_cases halloc : env.ownerNameAlloc = true
      swap
      · rw [if_pos halloc] at howner
        obtain ⟨rfl, rfl⟩ := Prod.mk.inj howner
        obtain ⟨hv, hb⟩ := h.pool (hspare.mono (Set.subset_insert o _))
        exact ⟨hv, hb, nofun⟩
      · rw [if_neg (not_not_intro halloc)] at howner
        set s₁ : Server := Server.setOwner { s with poolOpenOwner := pool, ownerArrays := arrays } o
          fun owner => { owner with
            name := args.ownerName, confirmed := false, seqid := 0, relatedOwner := none } with hs₁
        have hp : Prepares s s₁ o args.ownerName := by
          refine ⟨rfl, rfl, rfl, rfl, rfl, rfl, rfl, rfl, fun o' hne => setOwner_owners_of_ne hne, ?_, hspare⟩
          rw [hs₁, setOwner_owners_self]
        rcases hset : nfsOpenOwnerSet s₁ args.ownerName o env.ownerSetOk with ⟨b, s₂⟩
        simp only [hset] at howner
        obtain ⟨rfl, rfl⟩ := Prod.mk.inj howner
        obtain ⟨hv, hb, hres⟩ := h.ownerSet hp ho rfl hset
        refine ⟨hv, hb, fun o' ho' => ?_⟩
        split_ifs at ho' with hb'
        obtain ⟨htable, hcounter, -⟩ := hres hb'
        rw [← Option.some.inj ho', ownerCounter, hnone]
        exact ⟨htable, hcounter⟩

end Ganesha.Nfs4
