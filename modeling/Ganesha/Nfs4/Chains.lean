import Ganesha.Library.LinkedList
import Ganesha.Pools
import Ganesha.Nfs4.State

/-!
# The lists of states

`Shape s chain`: the states of the entry `e` are the list `chain e`, linked both ways, the table of
stateids only leads to states of such lists, and the states in the pools are in none of them.
`cache_inode_add_state` puts a state at the end of a list, or fails and leaves the lists alone
(`cacheInodeAddState_spec`); a deleted state leaves its list (`cacheInodeDelStateByKey_spec`,
`cacheInodeDelState_spec`).
-/

namespace Ganesha.Nfs4
open Library.LinkedList Ganesha.Pools
open Ganesha.Hash (getPrealloc releasePrealloc)

variable {s s' s'' : Server} {chain chain' : ℕ → List ℕ} {e p q o : ℕ} {entry : Entry}

/-- A state without its links. -/
def State.core (st : State) : State := { st with next := none, prev := none }

lemma State.core_eq {st st' : State} : st.core = st'.core ↔
    st.type = st'.type ∧ st.data = st'.data ∧ st.seqid = st'.seqid ∧
      st.stateidOther = st'.stateidOther ∧ st.powner = st'.powner ∧ st.pentry = st'.pentry := by
  simp [State.core]

/-- The states in use. -/
def used (chain : ℕ → List ℕ) : Set ℕ := {p | ∃ e, p ∈ chain e}

/-- The states of the entry `e` are `chain e`. -/
structure Shape (s : Server) (chain : ℕ → List ℕ) : Prop where
  linked : ∀ e entry, s.entries e = some entry →
    Linked (fun p => (s.states p).next) (fun p => (s.states p).prev) none entry.pstateHead (chain e)
  absent : ∀ e, s.entries e = none → chain e = []
  nodup : ∀ e, (chain e).Nodup
  pentry : ∀ e, ∀ p ∈ chain e, (s.states p).pentry = some e
  digest : ∀ e entry, s.entries e = some entry → chain e ≠ [] → entry.digest ≠ none
  table : ∀ x p, s.htStateId x = some p → (s.states p).stateidOther = x ∧ p ∈ used chain
  spare : Spare s.poolStateV4 s.stateArrays (used chain)
  allocs : ∀ e, (chain e).length ≤ s.allocs

/-! ## Reading the lists -/

/-- The walk gives the chain. -/
lemma walk_eq {l : List ℕ} {h prev : Option ℕ} {fuel : ℕ}
    (hl : Linked (fun p => (s.states p).next) (fun p => (s.states p).prev) prev h l)
    (hfuel : l.length ≤ fuel) : walk s fuel h = l := by
  induction l generalizing h prev fuel with
  | nil =>
    obtain rfl : h = none := hl
    cases fuel <;> rfl
  | cons p l ih =>
    obtain ⟨rfl, -, hl⟩ := hl
    cases fuel with
    | zero => exact absurd hfuel (by simp)
    | succ fuel => exact congrArg (p :: ·) (ih hl (by simpa using hfuel))

/-- The states of a file. -/
lemma Shape.statesOf_eq (h : Shape s chain) (e : ℕ) : statesOf s e = chain e := by
  unfold statesOf
  cases hentry : s.entries e with
  | none =>
    rw [h.absent e hentry]
    cases s.allocs <;> rfl
  | some entry => exact walk_eq (h.linked e entry hentry) (h.allocs e)

variable {e' : ℕ}

lemma Shape.eq_of_mem (h : Shape s chain) (hp : p ∈ chain e) (hp' : p ∈ chain e') : e = e' := by
  have hentry := h.pentry e p hp
  rw [h.pentry e' p hp'] at hentry
  exact (Option.some.inj hentry).symm

lemma Shape.entry_of_mem (h : Shape s chain) (hp : p ∈ chain e) :
    ∃ entry, s.entries e = some entry := by
  cases hentry : s.entries e with
  | none =>
    rw [h.absent e hentry] at hp
    cases hp
  | some entry => exact ⟨entry, rfl⟩

/-- No state points to one of another entry. -/
lemma Shape.apart_of_mem (h : Shape s chain) (hp : p ∈ chain e) (hq : q ∈ chain e') (hne : e' ≠ e) :
    (s.states p).prev ≠ some q ∧ (s.states p).next ≠ some q := by
  obtain ⟨entry, hentry⟩ := h.entry_of_mem hp
  have hlinked := h.linked e entry hentry
  obtain ⟨l₁, l₂, hchain⟩ := List.append_of_mem hp
  have hmem : ∀ r ∈ l₁ ++ l₂, some r ≠ some q := fun r hr heq => by
    have hr' : r ∈ chain e := by
      rw [hchain, List.mem_append, List.mem_cons]
      rw [List.mem_append] at hr
      tauto
    exact hne (h.eq_of_mem hq (Option.some.inj heq ▸ hr'))
  rw [hchain] at hlinked
  have hprev := hlinked.prev_eq
  have hnext := hlinked.next_eq
  constructor
  · intro heq
    rw [heq] at hprev
    split_ifs at hprev with hnil
    exact hmem q (List.mem_append_left l₂ (List.mem_of_getLast? hprev.symm)) rfl
  · intro heq
    rw [heq] at hnext
    exact hmem q (List.mem_append_right l₁ (List.mem_of_head? hnext.symm)) rfl

/-- The iteration goes from a state to the next one. -/
lemma Shape.iterate_eq {l₁ l₂ : List ℕ} (h : Shape s chain) (hentry : s.entries e = some entry)
    (hchain : chain e = l₁ ++ l₂) (hne : entry.digest ≠ none) :
    cacheInodeStateIterate s e entry l₁.getLast? = .ok l₂.head? := by
  have hlinked := h.linked e entry hentry
  unfold cacheInodeStateIterate
  rw [if_neg hne]
  rcases List.eq_nil_or_concat l₁ with rfl | ⟨l, p, rfl⟩
  · rw [List.getLast?_nil]
    have hhead := hlinked.head_eq
    rw [hchain, List.nil_append] at hhead
    exact congrArg Except.ok hhead
  · have hp : p ∈ chain e := by
      rw [hchain]
      simp
    rw [hchain, List.concat_eq_append, List.append_assoc, List.singleton_append] at hlinked
    rw [List.concat_eq_append, List.getLast?_concat]
    have hnext := hlinked.next_eq
    simp only [h.pentry e p hp, ne_eq, not_true_eq_false, if_false]
    exact congrArg Except.ok hnext

lemma cacheInodeStateConflict_eq (st : State) (type : StateType) (data : StateData) :
    cacheInodeStateConflict st type data = decide (type = .deleg) := by
  cases type <;> rfl

/-- The loop that looks for a conflict ends at the last state. -/
lemma addStateLoop_eq {type : StateType} {data : StateData} {l : List ℕ} {h prev saved : Option ℕ}
    {fuel : ℕ} (htype : type ≠ .deleg)
    (hl : Linked (fun p => (s.states p).next) (fun p => (s.states p).prev) prev h l)
    (hfuel : l.length ≤ fuel) :
    addStateLoop s type data fuel h saved =
      some (false, if l = [] then saved else l.getLast?) := by
  induction l generalizing h prev saved fuel with
  | nil =>
    obtain rfl : h = none := hl
    cases fuel <;> rfl
  | cons p l ih =>
    obtain ⟨rfl, -, hl⟩ := hl
    cases fuel with
    | zero => exact absurd hfuel (by simp)
    | succ fuel =>
      rw [addStateLoop, cacheInodeStateConflict_eq, decide_eq_false htype,
        if_neg Bool.false_ne_true]
      rw [ih hl (by simpa using hfuel), if_neg (List.cons_ne_nil p l)]
      cases l with
      | nil => rfl
      | cons q l => rfl

/-! ## Changes that leave the lists alone -/

/-- The lists are the same if the links are. -/
lemma Shape.congr (h : Shape s chain) (hentries : s'.entries = s.entries)
    (hstates : ∀ p ∈ used chain, (s'.states p).next = (s.states p).next ∧
      (s'.states p).prev = (s.states p).prev ∧ (s'.states p).pentry = (s.states p).pentry ∧
      (s'.states p).stateidOther = (s.states p).stateidOther)
    (htable : s'.htStateId = s.htStateId)
    (hspare : Spare s'.poolStateV4 s'.stateArrays (used chain)) (hallocs : s.allocs ≤ s'.allocs) :
    Shape s' chain where
  linked e entry hentry := by
    rw [hentries] at hentry
    refine (h.linked e entry hentry).congr fun p hp => ?_
    obtain ⟨hnext, hprev, -⟩ := hstates p ⟨e, hp⟩
    exact ⟨hnext, hprev⟩
  absent e he := h.absent e (hentries ▸ he)
  nodup := h.nodup
  pentry e p hp := (hstates p ⟨e, hp⟩).2.2.1.trans (h.pentry e p hp)
  digest e entry hentry := h.digest e entry (hentries ▸ hentry)
  table x p hx := by
    rw [htable] at hx
    obtain ⟨hother, hp⟩ := h.table x p hx
    exact ⟨(hstates p hp).2.2.2.trans hother, hp⟩
  spare := hspare
  allocs e := (h.allocs e).trans hallocs

@[simp] lemma setState_states_self (f : State → State) :
    (s.setState p f).states p = f (s.states p) := Function.update_self ..

lemma setState_states_of_ne (f : State → State) (hne : q ≠ p) :
    (s.setState p f).states q = s.states q := Function.update_of_ne hne _ _

lemma setState_states (f : State → State) (q : ℕ) :
    (s.setState p f).states q = if q = p then f (s.states p) else s.states q := by
  split_ifs with h
  · rw [h, setState_states_self]
  · rw [setState_states_of_ne f h]

lemma setEntry_entries_self {f : Entry → Entry} (hentry : s.entries e = some entry) :
    (s.setEntry e f).entries e = some (f entry) :=
  (Function.update_self ..).trans (congrArg (Option.map f) hentry)

lemma setEntry_entries_of_ne {f : Entry → Entry} (hne : e' ≠ e) :
    (s.setEntry e f).entries e' = s.entries e' := Function.update_of_ne hne _ _

/-- A state may change apart from its links. -/
lemma Shape.touch (h : Shape s chain) {f : State → State}
    (hf : p ∈ used chain → (f (s.states p)).next = (s.states p).next ∧
      (f (s.states p)).prev = (s.states p).prev ∧ (f (s.states p)).pentry = (s.states p).pentry ∧
      (f (s.states p)).stateidOther = (s.states p).stateidOther) :
    Shape (s.setState p f) chain := by
  refine h.congr rfl (fun q hq => ?_) rfl h.spare le_rfl
  rcases eq_or_ne q p with rfl | hne
  · rw [setState_states_self]
    exact hf hq
  · rw [setState_states_of_ne f hne]
    exact ⟨rfl, rfl, rfl, rfl⟩

lemma Shape.setOwner (h : Shape s chain) (f : Owner → Owner) : Shape (s.setOwner o f) chain :=
  h.congr rfl (fun _ _ => ⟨rfl, rfl, rfl, rfl⟩) rfl h.spare le_rfl

/-- An entry without states is loaded. -/
lemma Shape.load (h : Shape s chain) (he : s.entries e = none) (type : FileType)
    (digest : Option UInt64) :
    Shape { s with entries := Function.update s.entries e (some ⟨type, digest, none, none⟩) }
      chain := by
  have hnil := h.absent e he
  refine ⟨fun e' entry he' => ?_, fun e' he' => ?_, h.nodup, h.pentry,
    fun e' entry he' hne' => ?_, h.table, h.spare, h.allocs⟩
  · have he'' : Function.update s.entries e (some ⟨type, digest, none, none⟩) e' = some entry := he'
    rcases eq_or_ne e' e with rfl | hne
    · rw [Function.update_self] at he''
      rw [hnil, ← Option.some.inj he'']
      rfl
    · rw [Function.update_of_ne hne] at he''
      exact h.linked e' entry he''
  · have he'' : Function.update s.entries e (some ⟨type, digest, none, none⟩) e' = none := he'
    rcases eq_or_ne e' e with rfl | hne
    · exact hnil
    · rw [Function.update_of_ne hne] at he''
      exact h.absent e' he''
  · have he'' : Function.update s.entries e (some ⟨type, digest, none, none⟩) e' = some entry := he'
    rcases eq_or_ne e' e with rfl | hne
    · exact absurd hnil hne'
    · rw [Function.update_of_ne hne] at he''
      exact h.digest e' entry he'' hne'

/-! ## A new state -/

/-- Everything but the states, their lists and their table. -/
structure Apart (s s' : Server) : Prop where
  owners : s'.owners = s.owners
  htOpenOwner : s'.htOpenOwner = s.htOpenOwner
  poolOpenOwner : s'.poolOpenOwner = s.poolOpenOwner
  ownerArrays : s'.ownerArrays = s.ownerArrays

lemma Apart.refl (s : Server) : Apart s s := ⟨rfl, rfl, rfl, rfl⟩

/-- The list of `e` with a new state at its end. -/
def extend (chain : ℕ → List ℕ) (e p : ℕ) : ℕ → List ℕ :=
  Function.update chain e (chain e ++ [p])

lemma extend_self : extend chain e p e = chain e ++ [p] := Function.update_self ..

lemma extend_of_ne (hne : e' ≠ e) : extend chain e p e' = chain e' :=
  Function.update_of_ne hne _ _

lemma mem_extend : q ∈ extend chain e p e' ↔ q ∈ chain e' ∨ q = p ∧ e' = e := by
  rcases eq_or_ne e' e with rfl | hne
  · simp [extend_self]
  · simp [extend_of_ne hne, hne]

/-- The states in use after one more. -/
lemma used_extend : used (extend chain e p) = insert p (used chain) := by
  ext q
  simp only [used, Set.mem_ofPred_eq, Set.mem_insert_iff, mem_extend]
  constructor
  · rintro ⟨e', hq | ⟨rfl, -⟩⟩
    · exact .inr ⟨e', hq⟩
    · exact .inl rfl
  · rintro (rfl | ⟨e', hq⟩)
    · exact ⟨e, .inr ⟨rfl, rfl⟩⟩
    · exact ⟨e', .inl hq⟩

/-- A state is put at the end of a list. -/
lemma Shape.extend {entry' : Entry} (h : Shape s chain) (hp : p ∉ used chain)
    (hentry : s'.entries e = some entry') (hdigest : entry'.digest ≠ none)
    (hentries : ∀ e' ≠ e, s'.entries e' = s.entries e')
    (hlinked : Linked (fun p => (s'.states p).next) (fun p => (s'.states p).prev) none
      entry'.pstateHead (chain e ++ [p]))
    (hcore : ∀ q ∈ used chain, (s'.states q).core = (s.states q).core)
    (hothers : ∀ e' ≠ e, ∀ q ∈ chain e', s'.states q = s.states q)
    (hpentry : (s'.states p).pentry = some e)
    (htable : ∀ x q, s'.htStateId x = some q →
      s.htStateId x = some q ∨ q = p ∧ (s'.states p).stateidOther = x)
    (hspare : Spare s'.poolStateV4 s'.stateArrays (insert p (used chain)))
    (hallocs : s.allocs + 1 ≤ s'.allocs) : Shape s' (extend chain e p) where
  linked e' entry₁ he' := by
    -- the file that gets the state, and the others
    rcases eq_or_ne e' e with rfl | hne
    · rw [hentry] at he'
      rw [extend_self, ← Option.some.inj he']
      exact hlinked
    · rw [extend_of_ne hne]
      rw [hentries e' hne] at he'
      refine (h.linked e' entry₁ he').congr fun q hq => ?_
      rw [hothers e' hne q hq]
      exact ⟨rfl, rfl⟩
  absent e' he' := by
    -- the two chains have no state in common
    have hne : e' ≠ e := by
      rintro rfl
      rw [hentry] at he'
      cases he'
    rw [extend_of_ne hne]
    exact h.absent e' (hentries e' hne ▸ he')
  nodup e' := by
    rcases eq_or_ne e' e with rfl | hne
    · rw [extend_self]
      refine (h.nodup e').append (List.nodup_singleton p) ?_
      rw [List.disjoint_singleton]
      exact fun hmem => hp ⟨e', hmem⟩
    · rw [extend_of_ne hne]
      exact h.nodup e'
  pentry e' q hq := by
    rcases mem_extend.mp hq with hq | ⟨rfl, rfl⟩
    · exact (State.core_eq.mp (hcore q ⟨e', hq⟩)).2.2.2.2.2.trans (h.pentry e' q hq)
    · exact hpentry
  digest e' entry₁ he' hne' := by
    rcases eq_or_ne e' e with rfl | hne
    · rw [hentry] at he'
      exact Option.some.inj he' ▸ hdigest
    · rw [extend_of_ne hne] at hne'
      exact h.digest e' entry₁ (hentries e' hne ▸ he') hne'
  table x q hx := by
    rw [used_extend]
    rcases htable x q hx with hx | ⟨rfl, hother⟩
    · obtain ⟨hother, hq⟩ := h.table x q hx
      exact ⟨(State.core_eq.mp (hcore q hq)).2.2.2.1.trans hother, .inr hq⟩
    · exact ⟨hother, .inl rfl⟩
  spare := used_extend ▸ hspare
  allocs e' := by
    have hle := h.allocs e'
    rcases eq_or_ne e' e with rfl | hne
    · rw [extend_self, List.length_append, List.length_singleton]
      omega
    · rw [extend_of_ne hne]
      omega

/-- The table after `nfs4_State_Set` of the state `p` under the key `other`, and the answer. -/
def Registers (s s' : Server) (p : ℕ) (other : Other) (setOk : Bool) (status : CacheStatus)
    (res : Option ℕ) : Prop :=
  setOk = true ∧ status = .success ∧ res = some p ∧
      s'.htStateId = Function.update s.htStateId other (some p) ∨
    setOk = false ∧ status = .stateError ∧ res = none ∧ s'.htStateId = s.htStateId

/-- The table has at most the new state more. -/
lemma Registers.table {other : Other} {setOk : Bool} {status : CacheStatus} {res : Option ℕ}
    (h : Registers s s' p other setOk status res) :
    ∀ x q, s'.htStateId x = some q → s.htStateId x = some q ∨ q = p ∧ other = x := by
  intro x q hx
  rcases h with ⟨-, -, -, htable⟩ | ⟨-, -, -, htable⟩
  · rw [htable] at hx
    rcases eq_or_ne x other with rfl | hne
    · rw [Function.update_self] at hx
      exact .inr ⟨(Option.some.inj hx).symm, rfl⟩
    · rw [Function.update_of_ne hne] at hx
      exact .inl hx
  · rw [htable] at hx
    exact .inl hx

/-- What a call that may add a state to `e` leaves. -/
inductive Adds (s s' : Server) (chain : ℕ → List ℕ) (e : ℕ) (entry : Entry) (type : StateType)
    (data : StateData) (o : ℕ) (setOk : Bool) : CacheStatus × Option ℕ → Prop
  | fails {status : CacheStatus} : status ≠ .success → Shape s' chain →
      (∀ q ∈ used chain, (s'.states q).core = (s.states q).core) → s'.htStateId = s.htStateId →
      Adds s s' chain e entry type data o setOk (status, none)
  | adds {status : CacheStatus} {res : Option ℕ} (p : ℕ) : p ∉ used chain →
      Shape s' (extend chain e p) → (∀ q ∈ used chain, (s'.states q).core = (s.states q).core) →
      (s'.states p).type = type → (s'.states p).data = data → (s'.states p).powner = o →
      nfs4BuildStateIdOther s entry o = some (s'.states p).stateidOther →
      Registers s s' p (s'.states p).stateidOther setOk status res →
      Adds s s' chain e entry type data o setOk (status, res)

/-- The end of the function fills the state and registers it. -/
lemma addStateEnd_spec (s : Server) (e p : ℕ) (other : Other) (type : StateType) (data : StateData)
    (o : ℕ) (setOk : Bool) :
    ∃ status res s', addStateEnd s e p other type data o setOk = (status, res, s') ∧ Apart s s' ∧
      s'.entries = s.entries ∧ s'.poolStateV4 = s.poolStateV4 ∧ s'.stateArrays = s.stateArrays ∧
      s'.allocs = s.allocs ∧ (∀ q ≠ p, s'.states q = s.states q) ∧
      s'.states p = { s.states p with
        stateidOther := other, type := type, data := data, seqid := 0, pentry := some e,
        powner := o } ∧
      Registers s s' p other setOk status res := by
  unfold addStateEnd nfs4StateSet
  cases setOk with
  | false =>
    exact ⟨_, _, _, rfl, ⟨rfl, rfl, rfl, rfl⟩, rfl, rfl, rfl, rfl,
      fun q hq => setState_states_of_ne _ hq, setState_states_self _, .inr ⟨rfl, rfl, rfl, rfl⟩⟩
  | true =>
    refine ⟨_, _, _, rfl, ⟨rfl, rfl, rfl, rfl⟩, rfl, rfl, rfl, rfl,
      fun q hq => ?_, ?_, .inl ⟨rfl, rfl, rfl, rfl⟩⟩
    · show Function.update s.states p _ q = _
      rw [Function.update_of_ne hq]
    · show Function.update s.states p _ p = _
      rw [Function.update_self]

lemma Shape.getPrealloc {nb : UInt32} {pool : List ℕ} {arrays : ℕ → List ℕ} {res : Option ℕ}
    (h : Shape s chain)
    (hget : Hash.getPrealloc nb s.poolStateV4 s.stateArrays = (res, pool, arrays)) :
    match res with
    | none => Spare pool arrays (used chain)
    | some p => p ∉ used chain ∧ Spare pool arrays (insert p (used chain)) := by
  have hspare := h.spare.get nb
  rw [hget] at hspare
  cases res with
  | none => exact hspare
  | some p => exact hspare

/-- `cache_inode_add_state`. -/
theorem cacheInodeAddState_spec (h : Shape s chain) (hentry : s.entries e = some entry)
    (type : StateType) (data : StateData) (o : ℕ) (setOk : Bool) :
    ∃ status res s', cacheInodeAddState s (some e) type data o setOk = some (status, res, s') ∧
      Apart s s' ∧ Adds s s' chain e entry type data o setOk (status, res) := by
  have hlinked := h.linked e entry hentry
  simp only [cacheInodeAddState, hentry, Option.bind_some]
  -- states are for regular files
  by_cases hreg : entry.type = .regular
  swap
  · rw [if_pos hreg]
    exact ⟨_, _, _, rfl, .refl s, .fails (by decide) h (fun _ _ => rfl) rfl⟩
  rw [if_neg (not_not_intro hreg)]
  rcases hget : Hash.getPrealloc s.nbPreStateV4 s.poolStateV4 s.stateArrays with ⟨_ | p, pool, arrays⟩
  · refine ⟨_, _, _, rfl, ⟨rfl, rfl, rfl, rfl⟩, .fails (by decide) ?_ (fun _ _ => rfl) rfl⟩
    exact h.congr rfl (fun _ _ => ⟨rfl, rfl, rfl, rfl⟩) rfl (h.getPrealloc hget) le_rfl
  obtain ⟨hp, hspare⟩ := h.getPrealloc hget
  have hspare' : Spare pool arrays (used chain) := hspare.mono (Set.subset_insert p _)
  -- the new state is in no chain
  have hne : ∀ q ∈ used chain, q ≠ p := fun q hq heq => hp (heq ▸ hq)
  simp only
  set s₁ : Server := { s with poolStateV4 := pool, stateArrays := arrays, allocs := s.allocs + 1 }
    with hs₁
  cases hhead : entry.pstateHead with
  | none =>
    rw [hhead] at hlinked
    have hnil : chain e = [] := List.head?_eq_none_iff.mp hlinked.head_eq.symm
    simp only
    set s₂ := s₁.setState p fun st => { st with next := none, prev := none } with hs₂
    have hstates₂ : ∀ q ≠ p, s₂.states q = s.states q := fun q hq => setState_states_of_ne _ hq
    cases hother : nfs4BuildStateIdOther s₂ entry o with
    | none =>
      refine ⟨_, _, _, rfl, ⟨rfl, rfl, rfl, rfl⟩, .fails (by decide) ?_ (fun q hq => ?_) rfl⟩
      · refine h.congr rfl (fun q hq => ?_) rfl hspare' (Nat.le_succ _)
        rw [hstates₂ q (hne q hq)]
        exact ⟨rfl, rfl, rfl, rfl⟩
      · rw [hstates₂ q (hne q hq)]
    | some other =>
      obtain ⟨status, res, s', hend, hapart, hentries, hpool, harrays, hallocs, hothers, hnew,
        hres⟩ := addStateEnd_spec
          (s₂.setEntry e fun entry => { entry with pstateHead := some p }) e p other type data o setOk
      have hentry' : s'.entries e = some { entry with pstateHead := some p } := by
        rw [hentries]
        exact setEntry_entries_self hentry
      have hstates' : ∀ q ≠ p, s'.states q = s.states q := fun q hq =>
        (hothers q hq).trans (hstates₂ q hq)
      have hp₂ : s₂.states p = { s.states p with next := none, prev := none } :=
        setState_states_self _
      have hdigest : entry.digest ≠ none := by
        unfold nfs4BuildStateIdOther at hother
        rw [if_neg (not_not_intro hreg)] at hother
        intro hnone
        rw [hnone] at hother
        cases hother
      refine ⟨status, res, s', congrArg some hend, ⟨hapart.owners, hapart.htOpenOwner,
        hapart.poolOpenOwner, hapart.ownerArrays⟩, .adds p hp ?_ ?_ ?_ ?_ ?_ ?_ ?_⟩
      · refine h.extend hp hentry' hdigest (fun e' he' => ?_) ?_ ?_ ?_ ?_ ?_ ?_ ?_
        · rw [hentries]
          exact setEntry_entries_of_ne he'
        · rw [hnil, List.nil_append]
          refine ⟨rfl, ?_, ?_⟩
          · show (s'.states p).prev = none
            rw [hnew]
            exact congrArg State.prev hp₂
          · show (s'.states p).next = none
            rw [hnew]
            exact congrArg State.next hp₂
        · intro q hq
          rw [hstates' q (hne q hq)]
        · intro e' _ q hq
          exact hstates' q (hne q ⟨e', hq⟩)
        · rw [hnew]
        · intro x q hx
          rw [hnew]
          exact hres.table x q hx
        · rw [hpool, harrays]
          exact hspare
        · exact hallocs.ge
      · intro q hq
        rw [hstates' q (hne q hq)]
      · rw [hnew]
      · rw [hnew]
      · rw [hnew]
      · rw [hnew]
        exact hother
      · rw [hnew]
        exact hres
  | some head =>
    rw [hhead] at hlinked
    have hne' : chain e ≠ [] := fun hnil => by
      rw [hnil] at hlinked
      cases hlinked
    obtain ⟨last, hlast⟩ : ∃ last, (chain e).getLast? = some last :=
      ⟨_, List.getLast?_eq_getLast_of_ne_nil hne'⟩
    have hlastmem : last ∈ chain e := List.mem_of_getLast? hlast
    have hlastne : last ≠ p := hne last ⟨e, hlastmem⟩
    by_cases htype : type = .deleg
    · -- the first state of the list is in the way
      have hloop : addStateLoop s₁ type data (s.allocs + 1) (some head) none = some (true, none) := by
        rw [addStateLoop, cacheInodeStateConflict_eq, decide_eq_true htype, if_pos rfl]
      simp only [hloop, Option.bind_some, if_true]
      refine ⟨_, _, _, rfl, ⟨rfl, rfl, rfl, rfl⟩, .fails (by decide) ?_ (fun _ _ => rfl) rfl⟩
      exact h.congr rfl (fun _ _ => ⟨rfl, rfl, rfl, rfl⟩) rfl hspare' (Nat.le_succ _)
    have hloop : addStateLoop s₁ type data (s.allocs + 1) (some head) none = some (false, some last) := by
      rw [addStateLoop_eq (s := s₁) htype hlinked ((h.allocs e).trans (Nat.le_succ _)), if_neg hne',
        hlast]
    simp only [hloop, Option.bind_some, Bool.false_eq_true, if_false]
    set s₂ := (s₁.setState p fun st => { st with next := none, prev := some last }).setState last
      fun st => { st with next := some p } with hs₂
    have hp₂ : s₂.states p = { s.states p with next := none, prev := some last } := by
      rw [hs₂, setState_states_of_ne _ hlastne.symm]
      exact setState_states_self _
    have hlast₂ : s₂.states last = { s.states last with next := some p } := by
      rw [hs₂, setState_states_self, setState_states_of_ne _ hlastne]
    have hstates₂ : ∀ q, q ≠ p → q ≠ last → s₂.states q = s.states q := fun q hq hq' => by
      rw [hs₂, setState_states_of_ne _ hq', setState_states_of_ne _ hq]
    have hcore₂ : ∀ q ∈ used chain, (s₂.states q).core = (s.states q).core := fun q hq => by
      rcases eq_or_ne q last with rfl | hq'
      · rw [hlast₂]
        rfl
      · rw [hstates₂ q (hne q hq) hq']
    have hdigest : entry.digest ≠ none := h.digest e entry hentry hne'
    obtain ⟨fileid, hfileid⟩ := Option.ne_none_iff_exists'.mp hdigest
    have hother : nfs4BuildStateIdOther s₂ entry o = some
        { srvboot := s₂.serverBootTime, fileid := fileid,
          openOwner := (s₂.owners o).counter.toUInt16 } := by
      unfold nfs4BuildStateIdOther
      rw [if_neg (not_not_intro hreg), hfileid]
      rfl
    simp only [hother]
    obtain ⟨status, res, s', hend, hapart, hentries, hpool, harrays, hallocs, hothers, hnew,
      hres⟩ := addStateEnd_spec
        (s₂.setEntry e fun entry => { entry with pstateTail := some p }) e p
        { srvboot := s₂.serverBootTime, fileid := fileid,
          openOwner := (s₂.owners o).counter.toUInt16 } type data o setOk
    have hentry' : s'.entries e = some { entry with pstateTail := some p } := by
      rw [hentries]
      exact setEntry_entries_self hentry
    have hstates' : ∀ q ≠ p, s'.states q = s₂.states q := hothers
    refine ⟨status, res, s', congrArg some hend, ⟨hapart.owners, hapart.htOpenOwner,
      hapart.poolOpenOwner, hapart.ownerArrays⟩, .adds p hp ?_ ?_ ?_ ?_ ?_ ?_ ?_⟩
    · refine h.extend hp hentry' hdigest (fun e' he' => ?_) ?_ ?_ ?_ ?_ ?_ ?_ ?_
      · rw [hentries]
        exact setEntry_entries_of_ne he'
      · refine Linked.append (h.linked e entry hentry) (h.nodup e) hne' ?_ ?_ (fun q hq => ?_)
          fun q hq => ?_
        · show (s'.states p).next = none
          rw [hnew]
          exact congrArg State.next hp₂
        · show (s'.states p).prev = _
          rw [hnew, hlast]
          exact congrArg State.prev hp₂
        · show (s'.states q).next = _
          rw [hstates' q (hne q ⟨e, hq⟩), hlast]
          split_ifs with heq
          · rw [← Option.some.inj heq, hlast₂]
          · rw [hstates₂ q (hne q ⟨e, hq⟩) fun heq' => heq (congrArg some heq'.symm)]
        · show (s'.states q).prev = _
          rw [hstates' q (hne q ⟨e, hq⟩)]
          rcases eq_or_ne q last with rfl | hq'
          · rw [hlast₂]
          · rw [hstates₂ q (hne q ⟨e, hq⟩) hq']
      · intro q hq
        rw [hstates' q (hne q hq)]
        exact hcore₂ q hq
      · intro e' he' q hq
        have hq' : q ≠ last := by
          rintro rfl
          exact he' (h.eq_of_mem hq hlastmem)
        rw [hstates' q (hne q ⟨e', hq⟩)]
        exact hstates₂ q (hne q ⟨e', hq⟩) hq'
      · rw [hnew]
      · intro x q hx
        rw [hnew]
        exact hres.table x q hx
      · rw [hpool, harrays]
        exact hspare
      · exact hallocs.ge
    · intro q hq
      rw [hstates' q (hne q hq)]
      exact hcore₂ q hq
    · rw [hnew]
    · rw [hnew]
    · rw [hnew]
    · rw [hnew]
      exact hother
    · rw [hnew]
      exact hres

/-- `cache_inode_add_state` succeeds when it finds the memory and there is a stateid. -/
theorem cacheInodeAddState_success {type : StateType} (h : Shape s chain)
    (hentry : s.entries e = some entry) (hreg : entry.type = .regular) (hdigest : entry.digest ≠ none)
    (hpool : (Hash.getPrealloc s.nbPreStateV4 s.poolStateV4 s.stateArrays).1 ≠ none)
    (htype : type ≠ .deleg) (data : StateData) (o : ℕ) :
    ∃ p s', cacheInodeAddState s (some e) type data o true = some (.success, some p, s') ∧
      ∀ q ∈ used chain, (s'.states q).core = (s.states q).core := by
  obtain ⟨status, res, s', hadd, -, hadds⟩ := cacheInodeAddState_spec h hentry type data o true
  -- nothing can fail with these answers
  have hstatus : status = .success := by
    have hlinked := h.linked e entry hentry
    have hbuild : ∀ s' : Server, nfs4BuildStateIdOther s' entry o ≠ none := by
      intro s'
      rw [nfs4BuildStateIdOther, if_neg (not_not_intro hreg)]
      simpa using hdigest
    simp only [cacheInodeAddState, hentry, Option.bind_some, if_neg (not_not_intro hreg)] at hadd
    rcases hget : Hash.getPrealloc s.nbPreStateV4 s.poolStateV4 s.stateArrays with
      ⟨_ | p, pool, arrays⟩
    · exact absurd (congrArg Prod.fst hget) hpool
    simp only [hget] at hadd
    cases hhead : entry.pstateHead with
    | none =>
      simp only [hhead] at hadd
      split at hadd
      next hnone => exact absurd hnone (hbuild _)
      next other _ => exact (Prod.mk.inj (Option.some.inj hadd)).1.symm
    | some head =>
      rw [hhead] at hlinked
      have hne : chain e ≠ [] := by
        intro hnil
        rw [hnil] at hlinked
        cases hlinked
      have hloop : addStateLoop { s with
          poolStateV4 := pool, stateArrays := arrays, allocs := s.allocs + 1 } type data
            (s.allocs + 1) (some head) none =
          some (false, if chain e = [] then none else (chain e).getLast?) :=
        addStateLoop_eq htype hlinked ((h.allocs e).trans (Nat.le_succ _))
      rw [if_neg hne, List.getLast?_eq_getLast_of_ne_nil hne] at hloop
      simp only [hhead, hloop, Option.bind_some, Bool.false_eq_true, if_false] at hadd
      split at hadd
      next hnone => exact absurd hnone (hbuild _)
      next other _ => exact (Prod.mk.inj (Option.some.inj hadd)).1.symm
  cases hadds with
  | fails hne => exact absurd hstatus hne
  | adds p _ _ hcore _ _ _ _ hset =>
    rcases hset with ⟨-, -, hres, -⟩ | ⟨hfalse, -⟩
    · rw [hstatus, hres] at hadd
      exact ⟨p, s', hadd, hcore⟩
    · cases hfalse

/-! ## A deleted state -/

/-- The list of `e` without one of its states. -/
def shrink (chain : ℕ → List ℕ) (e p : ℕ) : ℕ → List ℕ :=
  Function.update chain e ((chain e).erase p)

lemma shrink_self : shrink chain e p e = (chain e).erase p := Function.update_self ..

lemma shrink_of_ne (hne : e' ≠ e) : shrink chain e p e' = chain e' :=
  Function.update_of_ne hne _ _

lemma Shape.mem_shrink (h : Shape s chain) (hp : p ∈ chain e) :
    q ∈ shrink chain e p e' ↔ q ∈ chain e' ∧ q ≠ p := by
  rcases eq_or_ne e' e with rfl | hne
  · rw [shrink_self, (h.nodup e').mem_erase_iff, and_comm]
  · rw [shrink_of_ne hne]
    -- the state that leaves is in the list of `e` only
    exact ⟨fun hq => ⟨hq, fun heq => hne (h.eq_of_mem (heq ▸ hq) hp)⟩, And.left⟩

lemma Shape.used_shrink (h : Shape s chain) (hp : p ∈ chain e) :
    used (shrink chain e p) = used chain \ {p} := by
  ext q
  simp only [used, Set.mem_ofPred_eq, Set.mem_sdiff, Set.mem_singleton_iff, h.mem_shrink hp,
    exists_and_right]

/-- The states after one was changed. -/
lemma setStateAt_states (p : Option ℕ) (f : State → State) (q : ℕ) :
    (s.setStateAt p f).states q = if p = some q then f (s.states q) else s.states q := by
  cases p with
  | none => rfl
  | some p =>
    show (s.setState p f).states q = _
    simp only [Option.some.injEq]
    rcases eq_or_ne p q with rfl | hne
    · rw [if_pos rfl, setState_states_self]
    · rw [if_neg hne, setState_states_of_ne f hne.symm]

/-- The states after one was unlinked. -/
lemma unlinkState_states (q : ℕ) : (unlinkState s e p entry).states q =
    { s.states q with
      next := if (s.states p).prev = some q then (s.states p).next else (s.states q).next
      prev := if (s.states p).next = some q then (s.states p).prev else (s.states q).prev } := by
  have hhead : (if entry.pstateHead = some p then
      s.setEntry e fun entry => { entry with pstateHead := (s.states p).next } else s).states =
        s.states := by
    split_ifs <;> rfl
  simp only [unlinkState, setStateAt_states, hhead]
  split_ifs <;> rfl

lemma unlinkState_entries : (unlinkState s e p entry).entries =
    if entry.pstateHead = some p then
      (s.setEntry e fun entry => { entry with pstateHead := (s.states p).next }).entries
    else s.entries := by
  unfold unlinkState
  cases (s.states p).next <;> cases (s.states p).prev <;> (dsimp only; split_ifs <;> rfl)

lemma unlinkState_eq (s : Server) (e p : ℕ) (entry : Entry) : unlinkState s e p entry =
    { s with
      entries := (unlinkState s e p entry).entries
      states := (unlinkState s e p entry).states } := by
  unfold unlinkState
  cases (s.states p).next <;> cases (s.states p).prev <;> (dsimp only; split_ifs <;> rfl)

/-- A state is taken out of a list. -/
lemma Shape.shrink {entry' : Entry} (h : Shape s chain) (hp : p ∈ chain e)
    (hentry : s.entries e = some entry) (hentry' : s'.entries e = some entry')
    (hdigest : entry'.digest = entry.digest) (hentries : ∀ e' ≠ e, s'.entries e' = s.entries e')
    (hlinked : Linked (fun p => (s'.states p).next) (fun p => (s'.states p).prev) none
      entry'.pstateHead ((chain e).erase p))
    (hcore : ∀ q ≠ p, (s'.states q).core = (s.states q).core)
    (hothers : ∀ e' ≠ e, ∀ q ∈ chain e', s'.states q = s.states q)
    (htable : ∀ x q, s'.htStateId x = some q → s.htStateId x = some q ∧ q ≠ p)
    (hspare : Spare s'.poolStateV4 s'.stateArrays (used chain \ {p}))
    (hallocs : s.allocs ≤ s'.allocs) : Shape s' (shrink chain e p) where
  linked e' entry₁ he' := by
    -- the file that loses the state, and the others
    rcases eq_or_ne e' e with rfl | hne
    · rw [hentry'] at he'
      rw [shrink_self, ← Option.some.inj he']
      exact hlinked
    · rw [shrink_of_ne hne]
      rw [hentries e' hne] at he'
      refine (h.linked e' entry₁ he').congr fun q hq => ?_
      rw [hothers e' hne q hq]
      exact ⟨rfl, rfl⟩
  absent e' he' := by
    have hne : e' ≠ e := by
      rintro rfl
      rw [hentry'] at he'
      cases he'
    rw [shrink_of_ne hne]
    exact h.absent e' (hentries e' hne ▸ he')
  nodup e' := by
    rcases eq_or_ne e' e with rfl | hne
    · rw [shrink_self]
      exact (h.nodup e').erase p
    · rw [shrink_of_ne hne]
      exact h.nodup e'
  pentry e' q hq := by
    rw [h.mem_shrink hp] at hq
    exact (State.core_eq.mp (hcore q hq.2)).2.2.2.2.2.trans (h.pentry e' q hq.1)
  digest e' entry₁ he' hne' := by
    rcases eq_or_ne e' e with rfl | hne
    · rw [hentry'] at he'
      rw [← Option.some.inj he', hdigest]
      exact h.digest e' entry hentry (List.ne_nil_of_mem hp)
    · rw [shrink_of_ne hne] at hne'
      exact h.digest e' entry₁ (hentries e' hne ▸ he') hne'
  table x q hx := by
    obtain ⟨hx, hne⟩ := htable x q hx
    obtain ⟨hother, hq⟩ := h.table x q hx
    rw [h.used_shrink hp]
    exact ⟨(State.core_eq.mp (hcore q hne)).2.2.2.1.trans hother, hq, hne⟩
  spare := h.used_shrink hp ▸ hspare
  allocs e' := by
    refine le_trans ?_ ((h.allocs e').trans hallocs)
    rcases eq_or_ne e' e with rfl | hne
    · rw [shrink_self]
      exact List.length_erase_le
    · rw [shrink_of_ne hne]

/-- What a call that deletes the state `p` leaves. -/
structure Deletes (s s' : Server) (chain : ℕ → List ℕ) (e p : ℕ) : Prop where
  apart : Apart s s'
  mem : p ∈ chain e
  shape : Shape s' (Nfs4.shrink chain e p)
  core : ∀ q ≠ p, (s'.states q).core = (s.states q).core
  htStateId : s'.htStateId = Function.update s.htStateId (s.states p).stateidOther none

/-- The unlinked state is out of the list and of the table. -/
lemma Shape.unlink (h : Shape s chain) (hmem : p ∈ chain e) (hentry : s.entries e = some entry) :
    Deletes s (releaseState { unlinkState s e p entry with
      htStateId := Function.update s.htStateId (s.states p).stateidOther none } p) chain e p := by
  have hlinked := h.linked e entry hentry
  set other := (s.states p).stateidOther with hother
  set s₁ := unlinkState s e p entry with hs₁
  set s' := releaseState { s₁ with htStateId := Function.update s.htStateId other none } p with hs'
  have hstates : ∀ q ≠ p, s'.states q = s₁.states q := fun q hq => by
    show Function.update s₁.states p _ q = _
    rw [Function.update_of_ne hq]
  -- only the links of the neighbours change
  have hcore : ∀ q ≠ p, (s'.states q).core = (s.states q).core := fun q hq => by
    rw [hstates q hq, hs₁, unlinkState_states]
    rfl
  have heq := unlinkState_eq s e p entry
  have hhead : entry.pstateHead = some p ↔ (s.states p).prev = none :=
    hlinked.head_eq_some_iff (h.nodup e) hmem
  have hentry' : s'.entries e = some { entry with
      pstateHead := if (s.states p).prev = none then (s.states p).next else entry.pstateHead } := by
    show s₁.entries e = _
    rw [hs₁, unlinkState_entries]
    by_cases hfirst : entry.pstateHead = some p
    · rw [if_pos hfirst, if_pos (hhead.mp hfirst), setEntry_entries_self hentry]
    · rw [if_neg hfirst, if_neg (mt hhead.mpr hfirst), hentry]
  refine ⟨⟨?_, ?_, ?_, ?_⟩, hmem, ?_, hcore, rfl⟩
  · exact (congrArg Server.owners heq :)
  · exact (congrArg Server.htOpenOwner heq :)
  · exact (congrArg Server.poolOpenOwner heq :)
  · exact (congrArg Server.ownerArrays heq :)
  · refine h.shrink hmem hentry hentry' rfl (fun e' he' => ?_) ?_ hcore (fun e' he' q hq => ?_)
      (fun x q hx => ?_) ?_ ?_
    · show s₁.entries e' = _
      rw [hs₁, unlinkState_entries]
      split_ifs
      · exact setEntry_entries_of_ne he'
      · rfl
    · refine hlinked.remove (h.nodup e) hmem (fun q _ hne => ?_) fun q _ hne => ?_
      · show (s'.states q).next = _
        rw [hstates q hne, hs₁, unlinkState_states]
      · show (s'.states q).prev = _
        rw [hstates q hne, hs₁, unlinkState_states]
    · have hne : q ≠ p := fun heq => he' (h.eq_of_mem (heq ▸ hq) hmem)
      obtain ⟨hnext, hprev⟩ := h.apart_of_mem hmem hq he'
      rw [hstates q hne, hs₁, unlinkState_states, if_neg hnext, if_neg hprev]
    · have hx' : Function.update s.htStateId other none x = some q := hx
      have hne : x ≠ other := by
        rintro rfl
        rw [Function.update_self] at hx'
        cases hx'
      rw [Function.update_of_ne hne] at hx'
      refine ⟨hx', fun heq => hne ?_⟩
      rw [← (h.table x q hx').1, heq]
    · show Spare (releasePrealloc p s₁.poolStateV4) s₁.stateArrays _
      rw [hs₁, heq]
      exact h.spare.release ⟨e, hmem⟩
    · exact (congrArg Server.allocs heq).ge

lemma unlinkState_stateDel (e : ℕ) (entry : Entry)
    (hq : s.htStateId (s.states p).stateidOther = some q) :
    ((unlinkState s e p entry).states p).stateidOther = (s.states p).stateidOther ∧
      nfs4StateDel (unlinkState s e p entry) (s.states p).stateidOther =
        some { unlinkState s e p entry with
          htStateId := Function.update s.htStateId (s.states p).stateidOther none } := by
  have htable : (unlinkState s e p entry).htStateId = s.htStateId :=
    (congrArg Server.htStateId (unlinkState_eq s e p entry) :)
  constructor
  · rw [unlinkState_states]
  · unfold nfs4StateDel
    rw [htable, hq]
    rfl

/-- `cache_inode_del_state_by_key`. -/
theorem cacheInodeDelStateByKey_spec {other : Other} (h : Shape s chain)
    (hp : s.htStateId other = some p) :
    ∃ e s', cacheInodeDelStateByKey s other = some (.success, s') ∧ Deletes s s' chain e p := by
  obtain ⟨rfl, e, hmem⟩ := h.table other p hp
  obtain ⟨entry, hentry⟩ := h.entry_of_mem hmem
  obtain ⟨hother, hstateDel⟩ := unlinkState_stateDel e entry hp
  refine ⟨e, _, ?_, h.unlink hmem hentry⟩
  simp only [cacheInodeDelStateByKey, hp, h.pentry e p hmem, hentry, Option.bind_some, hother,
    if_true, hstateDel]

/-- `cache_inode_del_state` of a state of a list: the state that its key leads to may be another. -/
theorem cacheInodeDelState_spec (h : Shape s chain) (hmem : p ∈ chain e)
    (hq : s.htStateId (s.states p).stateidOther = some q) :
    ∃ s', cacheInodeDelState s p = some (.success, s') ∧ Deletes s s' chain e p := by
  obtain ⟨entry, hentry⟩ := h.entry_of_mem hmem
  obtain ⟨hother, hstateDel⟩ := unlinkState_stateDel e entry hq
  refine ⟨_, ?_, h.unlink hmem hentry⟩
  simp only [cacheInodeDelState, hq, h.pentry e p hmem, hentry, Option.bind_some, hother, hstateDel]

end Ganesha.Nfs4
