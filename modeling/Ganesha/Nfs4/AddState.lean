import Ganesha.Nfs4.Runs

/-!
# Calls of `cache_inode_add_state` that fail

The call takes a state from the pool before it knows whether there is a conflict, puts it into the
list of a file that has states before it builds its stateid, and into the list of any file before it
is in the hash table. None of its error paths takes anything back.
-/

namespace Ganesha.Nfs4
open Ganesha.Hash (getPrealloc)
open Ganesha.Pools Library.LinkedList Library.Transition

variable {s s' s₀ : Server} {chain : ℕ → List ℕ} {e p q : ℕ} {entry : Entry}

/-- `FSAL_DigestHandle` answers `digest e` for the handle of `e` from now on. -/
def Server.digestHandle (s : Server) (digest : ℕ → Option UInt64) : Server :=
  { s with entries := fun e => (s.entries e).map fun entry => { entry with digest := digest e } }

/-- The lists of the files, the table of states and the set of free states are the same. -/
structure Untouched (s s' : Server) : Prop where
  lists : ∀ e, statesOf s' e = statesOf s e
  table : s'.htStateId = s.htStateId
  pool : ∀ p, p ∈ s'.poolStateV4 ↔ p ∈ s.poolStateV4

/-- A call that has taken a state fails before the state is in the list: there is no stateid for the
first state of a file, or a conflict for a further one. -/
def AddState.Unlinked (entry : Entry) (type : StateType) : Prop :=
  entry.pstateHead = none ∧ entry.digest = none ∨ entry.pstateHead ≠ none ∧ type = .deleg

/-- The call fails before it takes a state from the pool; or the pool is filled with one state only,
which is taken at once and lost before it is in a list. -/
def AddState.Refused (s : Server) (entry : Entry) (type : StateType) : Prop :=
  entry.type ≠ .regular ∨
    s.poolStateV4 = [] ∧ (s.nbPreStateV4 = 0 ∨ s.stateArrays 0 = []) ∨
    s.poolStateV4 = [] ∧ (s.stateArrays 0).length = 1 ∧ AddState.Unlinked entry type

/-! ## The lists before the call -/

/-- The lists of states and the pool, whatever the digests are. -/
structure Lists (s : Server) (chain : ℕ → List ℕ) : Prop where
  linked : ∀ e entry, s.entries e = some entry →
    Linked (fun p => (s.states p).next) (fun p => (s.states p).prev) none entry.pstateHead (chain e)
  absent : ∀ e, s.entries e = none → chain e = []
  nodup : ∀ e, (chain e).Nodup
  spare : Spare s.poolStateV4 s.stateArrays (used chain)
  allocs : ∀ e, (chain e).length ≤ s.allocs

/-- The handle is read alone. -/
lemma Shape.digestHandle (h : Shape s chain) (digest : ℕ → Option UInt64) :
    Lists (s.digestHandle digest) chain where
  linked e entry hentry := by
    obtain ⟨entry₀, hentry₀, rfl⟩ := Option.map_eq_some_iff.mp hentry
    exact h.linked e entry₀ hentry₀
  absent e hentry := h.absent e (Option.map_eq_none_iff.mp hentry)
  nodup := h.nodup
  spare := h.spare
  allocs := h.allocs

/-- The states of a file. -/
lemma Lists.statesOf_eq (h : Lists s chain) (e : ℕ) : statesOf s e = chain e := by
  unfold statesOf
  cases hentry : s.entries e with
  | none =>
    rw [h.absent e hentry]
    cases s.allocs <;> rfl
  | some entry => exact walk_eq (h.linked e entry hentry) (h.allocs e)

/-- The list of an entry is the same if its states are. -/
lemma Lists.statesOf_eq_of_same (h : Lists s chain) (hentry : s'.entries e = s.entries e)
    (hstates : ∀ q ∈ chain e, s'.states q = s.states q) (hallocs : s.allocs ≤ s'.allocs) :
    statesOf s' e = chain e := by
  unfold statesOf
  rw [hentry]
  cases hsome : s.entries e with
  | none =>
    rw [h.absent e hsome]
    cases s'.allocs <;> rfl
  | some entry =>
    have hlinked := (h.linked e entry hsome).congr fun q hq =>
      (⟨congrArg State.next (hstates q hq), congrArg State.prev (hstates q hq)⟩ :
        (s'.states q).next = (s.states q).next ∧ (s'.states q).prev = (s.states q).prev)
    exact walk_eq hlinked ((h.allocs e).trans hallocs)

/-! ## The pool -/

variable {nb : UInt32} {pool : List ℕ} {arrays : ℕ → List ℕ}

lemma getPrealloc_eq_none_iff :
    (getPrealloc nb pool arrays).1 = none ↔ pool = [] ∧ (nb = 0 ∨ arrays 0 = []) := by
  unfold getPrealloc
  cases pool with
  | nil => by_cases hnb : nb = 0 <;> simp [hnb]
  | cons p pool => simp

lemma getPrealloc_pool_of_none {pool' : List ℕ} {arrays' : ℕ → List ℕ}
    (hget : getPrealloc nb pool arrays = (none, pool', arrays')) : pool' = [] := by
  unfold getPrealloc at hget
  simp only [Prod.mk.injEq, List.head?_eq_none_iff] at hget
  obtain ⟨hnil, htail, -⟩ := hget
  rw [hnil] at htail
  exact htail.symm

/-- The pool is as before only if it was empty and one state is allocated at a time. -/
lemma getPrealloc_pool_iff {pool' : List ℕ} {arrays' : ℕ → List ℕ} {U : Set ℕ} (h : Spare pool arrays U)
    (hget : getPrealloc nb pool arrays = (some p, pool', arrays')) :
    (∀ q, q ∈ pool' ↔ q ∈ pool) ↔ pool = [] ∧ (arrays 0).length = 1 := by
  unfold getPrealloc at hget
  cases pool with
  | nil =>
    by_cases hnb : nb = 0
    · simp [hnb] at hget
    · simp only [List.isEmpty_nil, true_and, ne_eq, hnb, not_false_eq_true, if_true,
        Prod.mk.injEq] at hget
      obtain ⟨hhead, rfl, -⟩ := hget
      obtain ⟨l, hl⟩ := List.head?_eq_some_iff.mp hhead
      rw [hl, List.tail_cons, List.length_cons, Nat.add_eq_right, List.length_eq_zero_iff]
      constructor
      · intro hiff
        exact ⟨rfl, List.eq_nil_iff_forall_not_mem.mpr fun q hq => nomatch (hiff q).mp hq⟩
      · rintro ⟨-, rfl⟩ q
        rfl
  | cons q pool =>
    simp only [List.isEmpty_cons, Bool.false_eq_true, false_and, if_false, Prod.mk.injEq,
      List.head?_cons, List.tail_cons] at hget
    obtain ⟨-, rfl, -⟩ := hget
    have hnot : q ∉ pool := (List.nodup_cons.mp h.pool_nodup).1
    constructor
    · intro hiff
      exact absurd ((hiff q).mpr List.mem_cons_self) hnot
    · rintro ⟨hnil, -⟩
      cases hnil

/-! ## The call -/

lemma Registers.failed {other : Other} {setOk : Bool} {status : CacheStatus} {res : Option ℕ}
    (h : Registers s s' p other setOk status res) (hfail : status ≠ .success) :
    s'.htStateId = s.htStateId := by
  rcases h with ⟨-, hok, -⟩ | ⟨-, -, -, htable⟩
  · exact absurd hok hfail
  · exact htable

/-- The new state is the last of the list. -/
lemma Lists.statesOf_append {entry' : Entry} (h : Lists s chain) (hentry : s.entries e = some entry)
    (hentry' : s'.entries e = some entry') (hallocs : s'.allocs = s.allocs + 1)
    (hhead : entry'.pstateHead = if chain e = [] then some p else entry.pstateHead)
    (hp : (s'.states p).next = none ∧ (s'.states p).prev = (chain e).getLast?)
    (hstates : ∀ q ∈ chain e, (s'.states q).prev = (s.states q).prev ∧
      (s'.states q).next = if (chain e).getLast? = some q then some p else (s.states q).next) :
    statesOf s' e = chain e ++ [p] := by
  have hle := h.allocs e
  have hlinked : Linked (fun p => (s'.states p).next) (fun p => (s'.states p).prev) none
      entry'.pstateHead (chain e ++ [p]) := by
    by_cases hnil : chain e = []
    · rw [hhead, if_pos hnil, hnil, List.nil_append]
      rw [hnil] at hp
      exact ⟨rfl, hp.2, hp.1⟩
    · rw [hhead, if_neg hnil]
      exact (h.linked e entry hentry).append (h.nodup e) hnil hp.1 hp.2
        (fun q hq => (hstates q hq).2) fun q hq => (hstates q hq).1
  unfold statesOf
  rw [hentry', Option.bind_some]
  refine walk_eq hlinked ?_
  rw [List.length_append, List.length_singleton, hallocs]
  omega

/-- A call that takes the state `p` from the pool: what is left of the pool, and if it fails whether
`p` is in the list. -/
lemma Lists.addState (h : Lists s chain) (hentry : s.entries e = some entry) (hreg : entry.type = .regular)
    (hget : getPrealloc s.nbPreStateV4 s.poolStateV4 s.stateArrays = (some p, pool, arrays))
    (type : StateType) (data : StateData) (o : ℕ) (setOk : Bool) :
    ∃ status res s', cacheInodeAddState s (some e) type data o setOk = some (status, res, s') ∧
      s'.poolStateV4 = pool ∧ (status ≠ .success → s'.htStateId = s.htStateId ∧
        (AddState.Unlinked entry type → ∀ e', statesOf s' e' = chain e') ∧
        (¬ AddState.Unlinked entry type → statesOf s' e = chain e ++ [p])) := by
  have hspare := h.spare.get s.nbPreStateV4
  rw [hget] at hspare
  have hne : ∀ e', ∀ q ∈ chain e', q ≠ p := fun e' q hq heq => hspare.1 (heq ▸ ⟨e', hq⟩)
  have hlinked := h.linked e entry hentry
  simp only [cacheInodeAddState, hentry, Option.bind_some, hreg, ne_eq, not_true_eq_false, if_false,
    hget]
  set s₁ : Server := { s with poolStateV4 := pool, stateArrays := arrays, allocs := s.allocs + 1 }
    with hs₁
  cases hhead : entry.pstateHead with
  | none =>
    rw [hhead] at hlinked
    have hnil : chain e = [] := List.head?_eq_none_iff.mp hlinked.head_eq.symm
    simp only
    set s₂ := s₁.setState p fun st => { st with next := none, prev := none } with hs₂
    cases hdigest : entry.digest with
    | none =>
      have hother : nfs4BuildStateIdOther s₂ entry o = none := by
        rw [nfs4BuildStateIdOther, if_neg (not_not_intro hreg), hdigest]
        rfl
      simp only [hother]
      refine ⟨_, _, _, rfl, rfl, fun _ => ⟨rfl, fun _ e' => ?_, fun hnot => ?_⟩⟩
      swap
      · exact absurd (.inl ⟨hhead, hdigest⟩) hnot
      exact h.statesOf_eq_of_same rfl (fun q hq => setState_states_of_ne _ (hne e' q hq))
        (Nat.le_succ _)
    | some fileid =>
      obtain ⟨other, hother⟩ : ∃ other, nfs4BuildStateIdOther s₂ entry o = some other := by
        rw [nfs4BuildStateIdOther, if_neg (not_not_intro hreg), hdigest]
        exact ⟨_, rfl⟩
      simp only [hother]
      obtain ⟨status, res, s', hend, -, hentries, hpool, -, hallocs, -, hnew, hres⟩ :=
        addStateEnd_spec (s₂.setEntry e fun entry => { entry with pstateHead := some p }) e p other
          type data o setOk
      refine ⟨status, res, s', congrArg some hend, hpool, fun hfail => ⟨hres.failed hfail, ?_, ?_⟩⟩
      · rintro (⟨-, hnone⟩ | ⟨hsome, -⟩)
        · rw [hdigest] at hnone
          cases hnone
        · exact absurd hhead hsome
      · intro _
        have hentry' : s'.entries e = some { entry with pstateHead := some p } := by
          rw [hentries]
          exact setEntry_entries_self hentry
        refine h.statesOf_append hentry hentry' hallocs (if_pos hnil).symm ?_ ?_
        · have hp₂ : s₂.states p = { s.states p with next := none, prev := none } :=
            setState_states_self _
          rw [hnew, hnil]
          exact ⟨congrArg State.next hp₂, congrArg State.prev hp₂⟩
        · rw [hnil]
          intro _ hlast
          cases hlast
  | some head =>
    rw [hhead] at hlinked
    have hnil : chain e ≠ [] := by
      intro hnil
      rw [hnil] at hlinked
      cases hlinked
    obtain ⟨last, hlast⟩ : ∃ last, (chain e).getLast? = some last :=
      ⟨_, List.getLast?_eq_getLast_of_ne_nil hnil⟩
    have hlastne : last ≠ p := hne e last (List.mem_of_getLast? hlast)
    by_cases htype : type = .deleg
    · have hloop : addStateLoop s₁ type data (s.allocs + 1) (some head) none = some (true, none) := by
        rw [addStateLoop, cacheInodeStateConflict_eq, decide_eq_true htype, if_pos rfl]
      simp only [hloop, Option.bind_some, if_true]
      refine ⟨_, _, _, rfl, rfl, fun _ => ⟨rfl, fun _ e' => ?_, fun hnot => ?_⟩⟩
      · exact h.statesOf_eq_of_same rfl (fun _ _ => rfl) (Nat.le_succ _)
      · exact absurd (.inr ⟨by rw [hhead]; exact Option.some_ne_none head, htype⟩) hnot
    · have hloop : addStateLoop s₁ type data (s.allocs + 1) (some head) none =
          some (false, some last) := by
        rw [addStateLoop_eq (s := s₁) htype hlinked ((h.allocs e).trans (Nat.le_succ _)), if_neg hnil,
          hlast]
      simp only [hloop, Option.bind_some, Bool.false_eq_true, if_false]
      set s₂ := (s₁.setState p fun st => { st with next := none, prev := some last }).setState last
        fun st => { st with next := some p } with hs₂
      have hp₂ : s₂.states p = { s.states p with next := none, prev := some last } := by
        rw [hs₂, setState_states_of_ne _ hlastne.symm]
        exact setState_states_self _
      have hstates₂ : ∀ q ∈ chain e, (s₂.states q).prev = (s.states q).prev ∧
          (s₂.states q).next = if (chain e).getLast? = some q then some p else (s.states q).next := by
        intro q hq
        rw [hlast]
        rcases eq_or_ne q last with rfl | hq'
        · rw [if_pos rfl, hs₂, setState_states_self, setState_states_of_ne _ hlastne]
          exact ⟨rfl, rfl⟩
        · rw [if_neg fun heq => hq' (Option.some.inj heq).symm, hs₂, setState_states_of_ne _ hq',
            setState_states_of_ne _ (hne e q hq)]
          exact ⟨rfl, rfl⟩
      have hnot : ¬ AddState.Unlinked entry type := by
        rintro (⟨hnone, -⟩ | ⟨-, hdeleg⟩)
        · rw [hhead] at hnone
          cases hnone
        · exact htype hdeleg
      -- the state is in the list now, with or without a stateid
      cases hother : nfs4BuildStateIdOther s₂ entry o with
      | none =>
        refine ⟨_, _, _, rfl, rfl, fun _ => ⟨rfl, fun h => absurd h hnot, fun _ => ?_⟩⟩
        refine h.statesOf_append hentry hentry rfl (if_neg hnil).symm ?_ hstates₂
        rw [hp₂, hlast]
        exact ⟨rfl, rfl⟩
      | some other =>
        obtain ⟨status, res, s', hend, -, hentries, hpool, -, hallocs, hothers, hnew, hres⟩ :=
          addStateEnd_spec (s₂.setEntry e fun entry => { entry with pstateTail := some p }) e p other
            type data o setOk
        refine ⟨status, res, s', congrArg some hend, hpool, fun hfail =>
          ⟨hres.failed hfail, fun h => absurd h hnot, fun _ => ?_⟩⟩
        have hentry' : s'.entries e = some { entry with pstateTail := some p } := by
          rw [hentries]
          exact setEntry_entries_self hentry
        refine h.statesOf_append hentry hentry' hallocs (if_neg hnil).symm ?_ fun q hq => ?_
        · rw [hnew, hlast]
          exact ⟨congrArg State.next hp₂, congrArg State.prev hp₂⟩
        · rw [hothers q (hne e q hq)]
          exact hstates₂ q hq

/-- In a server that a run has reached, a call of `cache_inode_add_state` returns; if it fails, the
lists of states, the table and the set of free states are as before when it is refused early, and
only then. -/
theorem untouched_iff_refused (h₀ : Initial s₀) (h : ReachableBy step Possible s₀ s)
    (digest : ℕ → Option UInt64) (hentry : (s.digestHandle digest).entries e = some entry)
    (type : StateType) (data : StateData) (o : ℕ) (setOk : Bool) :
    ∃ status res s',
      cacheInodeAddState (s.digestHandle digest) (some e) type data o setOk =
        some (status, res, s') ∧
      (status ≠ .success →
        (Untouched (s.digestHandle digest) s' ↔
          AddState.Refused (s.digestHandle digest) entry type)) := by
  obtain ⟨chain, hv⟩ := valid_of_reachableBy h₀ (fun _ _ h => h) h
  have hlists := hv.toShape.digestHandle digest
  set s := s.digestHandle digest
  by_cases hreg : entry.type = .regular
  swap
  · refine ⟨.invalidArgument, none, s, ?_, fun _ => ?_⟩
    · simp only [cacheInodeAddState, hentry, Option.bind_some, ne_eq, hreg, not_false_eq_true, if_true]
    · exact ⟨fun _ => .inl hreg, fun _ => ⟨fun _ => rfl, rfl, fun _ => Iff.rfl⟩⟩
  rcases hget : getPrealloc s.nbPreStateV4 s.poolStateV4 s.stateArrays with ⟨_ | p, pool, arrays⟩
  · -- the pool is empty and stays so
    have hnone := getPrealloc_eq_none_iff.mp (congrArg Prod.fst hget)
    refine ⟨.mallocError, none, { s with poolStateV4 := pool, stateArrays := arrays }, ?_, fun _ => ?_⟩
    · simp only [cacheInodeAddState, hentry, Option.bind_some, ne_eq, hreg, not_true_eq_false,
        if_false, hget]
    · refine ⟨fun _ => .inr (.inl hnone), fun _ => ⟨fun e' => ?_, rfl, fun q => ?_⟩⟩
      · rw [hlists.statesOf_eq]
        exact hlists.statesOf_eq_of_same rfl (fun _ _ => rfl) le_rfl
      · show q ∈ pool ↔ _
        rw [getPrealloc_pool_of_none hget, hnone.1]
  · obtain ⟨status, res, s', hadd, hpool, hfails⟩ :=
      hlists.addState hentry hreg hget type data o setOk
    refine ⟨status, res, s', hadd, fun hfail => ?_⟩
    obtain ⟨htable, hunlinked, hlinked⟩ := hfails hfail
    have hset := getPrealloc_pool_iff hlists.spare hget
    constructor
    · intro huntouched
      have hone := hset.mp fun q => by rw [← hpool]; exact huntouched.pool q
      refine .inr (.inr ⟨hone.1, hone.2, ?_⟩)
      -- a state that is in the list makes it longer
      by_contra hnot
      have hlen := huntouched.lists e
      rw [hlinked hnot, hlists.statesOf_eq] at hlen
      simp at hlen
    · rintro (hreg' | ⟨hnil, hempty⟩ | ⟨hnil, hone, hunl⟩)
      · exact absurd hreg hreg'
      · have hnone := getPrealloc_eq_none_iff.mpr ⟨hnil, hempty⟩
        rw [hget] at hnone
        cases hnone
      · refine ⟨fun e' => ?_, htable, fun q => ?_⟩
        · rw [hunlinked hunl, hlists.statesOf_eq]
        · rw [hpool]
          exact hset.mpr ⟨hnil, hone⟩ q

/-- An OPEN that makes the file 7, and a further one of its owner. -/
def openTwice : List Event :=
  [.opOpen (sampleOpen 1 .create 1 0) (sampleEnv (.error .notFound)),
   .opOpen (sampleOpen 1 .create 1 0) { sampleEnv (.ok 7) with create := .error .entryExists }]

/-- After four OPENs the pool is empty. -/
theorem untouched_of_exhausted_pool :
    ∃ s s', execute step freshServer (openTwice ++ openTwice.tail ++ openTwice.tail) = some s ∧
      cacheInodeAddState (s.digestHandle fun _ => some 42) (some 7) .share (.share [] 1 0 0) 0 true =
        some (.mallocError, none, s') ∧
      Untouched (s.digestHandle fun _ => some 42) s' := by
  have hrun : (execute step freshServer (openTwice ++ openTwice.tail ++ openTwice.tail)).any (fun s =>
      ((s.digestHandle fun _ => some 42).entries 7).any (fun entry =>
        decide (s.poolStateV4 = []) && decide (s.nbPreStateV4 = 0) &&
          (cacheInodeAddState (s.digestHandle fun _ => some 42) (some 7) .share (.share [] 1 0 0) 0
            true).any fun r => decide (r.1 = .mallocError) && decide (r.2.1 = none))) = true := by
    decide +kernel
  rw [Option.any_eq_true] at hrun
  obtain ⟨s, hs, hvalues⟩ := hrun
  rw [Option.any_eq_true] at hvalues
  obtain ⟨entry, hentry, hvalues⟩ := hvalues
  rw [Bool.and_eq_true, Bool.and_eq_true, decide_eq_true_eq, decide_eq_true_eq] at hvalues
  obtain ⟨⟨hpool, hnb⟩, hfailed⟩ := hvalues
  obtain ⟨status, res, s', hadd, hiff⟩ := untouched_iff_refused freshServer_initial
    (reachableBy_of_execute hs (by decide +kernel)) (fun _ => some 42) hentry .share
    (.share [] 1 0 0) 0 true
  rw [hadd] at hfailed
  simp only [Option.any_some, Bool.and_eq_true, decide_eq_true_eq] at hfailed
  refine ⟨s, s', hs, ?_, (hiff ?_).mpr (.inr (.inl ⟨hpool, .inl hnb⟩))⟩
  · rw [hadd, hfailed.1, hfailed.2]
  · rw [hfailed.1]
    decide

/-- The hash table finds no memory for a second state. -/
theorem not_untouched_after_failed_insertion :
    ¬ ∀ s₀ s e type data o setOk status res s', Initial s₀ → ReachableBy step Possible s₀ s →
      cacheInodeAddState s (some e) type data o setOk = some (status, res, s') →
      status ≠ .success → Untouched s s' := by
  intro h
  have hrun : (execute step freshServer (openTwice.take 1)).any (fun s =>
      (cacheInodeAddState s (some 7) .share (.share [] 1 0 0) 0 false).any (fun r =>
        decide (r.1 = .stateError) && decide (statesOf s 7 = [0]) &&
          decide (statesOf r.2.2 7 = [0, 1]))) = true := by
    decide +kernel
  rw [Option.any_eq_true] at hrun
  obtain ⟨s, hs, hvalues⟩ := hrun
  rw [Option.any_eq_true] at hvalues
  obtain ⟨⟨status, res, s'⟩, hadd, hvalues⟩ := hvalues
  simp only [Bool.and_eq_true, decide_eq_true_eq] at hvalues
  obtain ⟨⟨hstatus, hbefore⟩, hafter⟩ := hvalues
  have huntouched := h freshServer s 7 _ _ _ _ status res s' freshServer_initial
    (reachableBy_of_execute hs (by decide +kernel)) hadd (by rw [hstatus]; decide)
  have hlists := huntouched.lists 7
  rw [hbefore, hafter] at hlists
  cases hlists

end Ganesha.Nfs4
