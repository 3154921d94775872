import Ganesha.Nfs4.Runs

/-!
# What a stateid is made of

`nfs4_BuildStateId_Other` puts the boot time, the fileid of the file and the counter of the owner
into a stateid. None of the three changes once it is there (`Ids`): the only request that gives an
owner a counter is the one that makes the owner, and it takes the next one (`Allots`).
-/

namespace Ganesha.Nfs4
open Library.Transition
open Ganesha.Hash (getPrealloc)

variable {s s₁ s' : Server} {chain : ℕ → List ℕ} {e p q o : ℕ} {entry : Entry} {name : OwnerName}

/-! ## Calls that make no owner -/

/-- The parts of the stateids and the table of owners stay as they are. -/
structure Ids (s s' : Server) : Prop where
  serverBootTime : s'.serverBootTime = s.serverBootTime
  digest : ∀ e, (s'.entries e).map Entry.digest = (s.entries e).map Entry.digest
  counter : ∀ o, (s'.owners o).counter = (s.owners o).counter
  openOwnerCounter : s'.openOwnerCounter = s.openOwnerCounter
  htOpenOwner : s'.htOpenOwner = s.htOpenOwner

lemma Ids.refl (s : Server) : Ids s s := ⟨rfl, fun _ => rfl, fun _ => rfl, rfl, rfl⟩

lemma Ids.trans (h : Ids s s₁) (h' : Ids s₁ s') : Ids s s' where
  serverBootTime := h'.serverBootTime.trans h.serverBootTime
  digest e := (h'.digest e).trans (h.digest e)
  counter o := (h'.counter o).trans (h.counter o)
  openOwnerCounter := h'.openOwnerCounter.trans h.openOwnerCounter
  htOpenOwner := h'.htOpenOwner.trans h.htOpenOwner

lemma ids_setState (s : Server) (p : ℕ) (f : State → State) : Ids s (s.setState p f) :=
  ⟨rfl, fun _ => rfl, fun _ => rfl, rfl, rfl⟩

lemma ids_setStateAt (s : Server) (p : Option ℕ) (f : State → State) : Ids s (s.setStateAt p f) := by
  cases p with
  | none => exact .refl s
  | some p => exact ids_setState s p f

lemma ids_setEntry (s : Server) (e : ℕ) {f : Entry → Entry}
    (hf : ∀ entry, (f entry).digest = entry.digest) : Ids s (s.setEntry e f) := by
  refine ⟨rfl, fun e' => ?_, fun _ => rfl, rfl, rfl⟩
  show (Function.update s.entries e ((s.entries e).map f) e').map Entry.digest = _
  rcases eq_or_ne e' e with rfl | hne
  · rw [Function.update_self]
    cases s.entries e' with
    | none => rfl
    | some entry => exact congrArg some (hf entry)
  · rw [Function.update_of_ne hne]

lemma ids_setOwner (s : Server) (o : ℕ) {f : Owner → Owner}
    (hf : ∀ owner, (f owner).counter = owner.counter) : Ids s (s.setOwner o f) := by
  refine ⟨rfl, fun _ => rfl, fun o' => ?_, rfl, rfl⟩
  rcases eq_or_ne o' o with rfl | hne
  · rw [setOwner_owners_self, hf]
  · rw [setOwner_owners_of_ne hne]

lemma ids_incrSeqid (s : Server) (o : ℕ) : Ids s (s.incrSeqid o) := ids_setOwner s o fun _ => rfl

lemma ids_incrExists (s : Server) (exists? : Option ℕ) : Ids s (incrExists s exists?) := by
  cases exists? with
  | none => exact .refl s
  | some q => exact ids_incrSeqid s _

lemma ids_addStateEnd (s : Server) (e p : ℕ) (other : Other) (type : StateType) (data : StateData)
    (o : ℕ) (setOk : Bool) : Ids s (addStateEnd s e p other type data o setOk).2.2 := by
  unfold addStateEnd nfs4StateSet
  cases setOk <;> exact ⟨rfl, fun _ => rfl, fun _ => rfl, rfl, rfl⟩

/-- Adding a state leaves the ids of the others. -/
lemma Ids.addState {pentry : Option ℕ} {type : StateType} {data : StateData} {setOk : Bool}
    {r : CacheStatus × Option ℕ × Server}
    (hadd : cacheInodeAddState s pentry type data o setOk = some r) : Ids s r.2.2 := by
  unfold cacheInodeAddState at hadd
  cases pentry with
  | none =>
    cases hadd
    exact .refl s
  | some e =>
    obtain ⟨entry, hentry, hadd⟩ := Option.bind_eq_some_iff.mp hadd
    split_ifs at hadd
    · cases hadd
      exact .refl s
    split at hadd
    next pool arrays _ =>
      cases hadd
      exact ⟨rfl, fun _ => rfl, fun _ => rfl, rfl, rfl⟩
    next p pool arrays _ =>
      set s₁ : Server :=
        { s with poolStateV4 := pool, stateArrays := arrays, allocs := s.allocs + 1 } with hs₁
      have h₁ : Ids s s₁ := ⟨rfl, fun _ => rfl, fun _ => rfl, rfl, rfl⟩
      refine h₁.trans ?_
      dsimp only at hadd
      split at hadd
      next =>
        split at hadd
        next =>
          cases hadd
          exact ids_setState s₁ p fun st => { st with next := none, prev := none }
        next other _ =>
          cases hadd
          refine (ids_setState s₁ p fun st => { st with next := none, prev := none }).trans ?_
          exact (ids_setEntry (f := fun entry => { entry with pstateHead := some p }) _ e
            fun _ => rfl).trans (ids_addStateEnd ..)
      next head _ =>
        obtain ⟨⟨conflict, saved⟩, -, hadd⟩ := Option.bind_eq_some_iff.mp hadd
        dsimp only at hadd
        split_ifs at hadd
        · cases hadd
          exact .refl s₁
        obtain ⟨last, -, hadd⟩ := Option.bind_eq_some_iff.mp hadd
        have h₂ := (ids_setState s₁ p fun st => { st with next := none, prev := some last }).trans
          (ids_setState _ last fun st => { st with next := some p })
        refine h₂.trans ?_
        split at hadd
        next =>
          cases hadd
          exact .refl _
        next other _ =>
          cases hadd
          exact (ids_setEntry (f := fun entry => { entry with pstateTail := some p }) _ e
            fun _ => rfl).trans (ids_addStateEnd ..)

lemma ids_unlinkState (s : Server) (e p : ℕ) (entry : Entry) : Ids s (unlinkState s e p entry) := by
  have hhead : Ids s (if entry.pstateHead = some p then
      s.setEntry e fun entry => { entry with pstateHead := (s.states p).next } else s) := by
    split_ifs
    · exact ids_setEntry s e fun _ => rfl
    · exact .refl s
  exact (hhead.trans (ids_setStateAt ..)).trans (ids_setStateAt ..)

lemma ids_releaseState (s : Server) (p : ℕ) : Ids s (releaseState s p) :=
  ⟨rfl, fun _ => rfl, fun _ => rfl, rfl, rfl⟩

lemma Ids.stateDel {other : Other} (hdel : nfs4StateDel s other = some s') : Ids s s' := by
  obtain ⟨-, -, rfl⟩ := Option.map_eq_some_iff.mp hdel
  exact ⟨rfl, fun _ => rfl, fun _ => rfl, rfl, rfl⟩

/-- So does deleting one by its key. -/
lemma Ids.delStateByKey {other : Other} {r : CacheStatus × Server}
    (hdel : cacheInodeDelStateByKey s other = some r) : Ids s r.2 := by
  unfold cacheInodeDelStateByKey at hdel
  split at hdel
  next =>
    cases hdel
    exact .refl s
  next p _ =>
    obtain ⟨e, -, hdel⟩ := Option.bind_eq_some_iff.mp hdel
    obtain ⟨entry, -, hdel⟩ := Option.bind_eq_some_iff.mp hdel
    refine (ids_unlinkState s e p entry).trans ?_
    dsimp only at hdel
    split_ifs at hdel
    · split at hdel
      next =>
        cases hdel
        exact .refl _
      next s₂ hs₂ =>
        cases hdel
        exact (Ids.stateDel hs₂).trans (ids_releaseState s₂ p)
    · cases hdel
      exact .refl _

/-- So does deleting one. -/
lemma Ids.delState {r : CacheStatus × Server} (hdel : cacheInodeDelState s p = some r) :
    Ids s r.2 := by
  unfold cacheInodeDelState at hdel
  split at hdel
  next =>
    cases hdel
    exact .refl s
  next =>
    obtain ⟨e, -, hdel⟩ := Option.bind_eq_some_iff.mp hdel
    obtain ⟨entry, -, hdel⟩ := Option.bind_eq_some_iff.mp hdel
    refine (ids_unlinkState s e p entry).trans ?_
    dsimp only at hdel
    split at hdel
    next =>
      cases hdel
      exact .refl _
    next s₂ hs₂ =>
      cases hdel
      exact (Ids.stateDel hs₂).trans (ids_releaseState s₂ p)

lemma ids_openEnd (s : Server) (o p : ℕ) (seqid : UInt32) (env : OpenEnv) :
    Ids s (openEnd s o p seqid env).2 := by
  unfold openEnd
  split_ifs
  · exact ids_incrSeqid s o
  · split <;> exact .refl s

section Open

variable {args : OpenArgs} {env : OpenEnv} {res : OpenRes}

/-- So does an unchecked creation. -/
lemma Ids.openUnchecked (hopen : openUnchecked s o e args env = some (res, s')) : Ids s s' := by
  unfold Nfs4.openUnchecked at hopen
  split at hopen
  next =>
    cases hopen
    exact .refl s
  next =>
    obtain ⟨r, hadd, hr⟩ := Option.map_eq_some_iff.mp hopen
    refine (Ids.addState hadd).trans ?_
    split at hr
    next p s₁ =>
      have hend := ids_openEnd s₁ o p (s₁.states p).seqid env
      rw [hr] at hend
      exact hend
    next s₁ _ =>
      cases hr
      exact ids_incrSeqid s₁ o

/-- So does a new state of an open. -/
lemma Ids.openNewState {newfile : Option ℕ}
    (hopen : openNewState s o newfile args env = some (res, s')) : Ids s s' := by
  obtain ⟨r, hadd, hr⟩ := Option.map_eq_some_iff.mp hopen
  refine (Ids.addState hadd).trans ?_
  split at hr
  next p s₁ =>
    split_ifs at hr
    · cases hr
      exact .refl _
    · have hend := ids_openEnd s₁ o p (s₁.owners o).seqid env
      rw [hr] at hend
      exact hend
  next s₁ _ =>
    cases hr
    exact ids_incrSeqid s₁ o

/-- So does an open without creation. -/
lemma Ids.openNocreate (hopen : openNocreate s o args env = some (res, s')) : Ids s s' := by
  unfold Nfs4.openNocreate at hopen
  split at hopen
  next =>
    cases hopen
    exact .refl s
  next e _ =>
    obtain ⟨entry, -, hopen⟩ := Option.bind_eq_some_iff.mp hopen
    split at hopen
    next =>
      cases hopen
      exact .refl s
    next =>
      cases hopen
      exact .refl s
    next =>
      cases hopen
      exact .refl s
    next =>
      split at hopen
      next =>
        cases hopen
        exact .refl s
      next =>
        obtain ⟨scan, -, hopen⟩ := Option.bind_eq_some_iff.mp hopen
        split at hopen
        next incr =>
          cases hopen
          exact ids_setOwner s o fun _ => rfl
        next p =>
          set s₁ := s.setState p fun st => { st with seqid := st.seqid + 1 }
          have hend := ids_openEnd s₁ o p (s₁.owners o).seqid env
          rw [Option.some.inj hopen] at hend
          exact (ids_setState s p _).trans hend
        next =>
          obtain ⟨r, hadd, hr⟩ := Option.map_eq_some_iff.mp hopen
          refine (Ids.addState hadd).trans ?_
          split at hr
          next p s₁ =>
            have hend := ids_openEnd s₁ o p (s₁.owners o).seqid env
            rw [hr] at hend
            exact hend
          next s₁ _ =>
            cases hr
            exact ids_incrSeqid s₁ o

/-- A creation may load one entry more. -/
lemma Ids.openCreate (hopen : openCreate s o args env = some (res, s')) :
    Ids s s' ∨ ∃ e digest, env.create = .ok (e, digest) ∧
      Ids { s with entries := Function.update s.entries e (some ⟨.regular, digest, none, none⟩) } s' := by
  unfold Nfs4.openCreate at hopen
  split at hopen
  next e _ =>
    split at hopen
    next => exact .inl (Ids.openUnchecked hopen)
    next =>
      rw [openExclusive_eq hopen]
      exact .inl (.refl s)
    next =>
      cases hopen
      exact .inl (.refl s)
  next =>
    unfold openNew at hopen
    split at hopen
    next e digest hcreate => exact .inr ⟨e, digest, hcreate, Ids.openNewState hopen⟩
    next =>
      split_ifs at hopen
      · cases hopen
        exact .inl (.refl s)
      · exact .inl (Ids.openNewState hopen)
  next =>
    cases hopen
    exact .inl (.refl s)

end Open

/-- CLOSE leaves the ids. -/
lemma Ids.opClose {other : Other} {env : CloseEnv} {res : NfsStat}
    (hclose : nfs4OpClose s e other env = some (res, s')) : Ids s s' := by
  unfold nfs4OpClose at hclose
  split at hclose
  next =>
    cases hclose
    exact .refl s
  next =>
    obtain ⟨entry, -, hclose⟩ := Option.bind_eq_some_iff.mp hclose
    split at hclose
    next =>
      cases hclose
      exact .refl s
    next =>
      cases hclose
      exact .refl s
    next =>
      cases hclose
      exact .refl s
    next =>
      split at hclose
      next =>
        split at hclose
        next =>
          cases hclose
          exact .refl s
        next p _ =>
          by_cases hheld : (s.states p).data.lockheld > 0
          · rw [if_pos hheld] at hclose
            cases hclose
            exact .refl s
          rw [if_neg hheld] at hclose
          obtain ⟨⟨status, s₂⟩, hdel, hr⟩ := Option.map_eq_some_iff.mp hclose
          have hs' : s₂ = s' := by
            split at hr
            next heq =>
              obtain ⟨-, rfl⟩ := Prod.mk.inj heq
              split_ifs at hr
              · exact (Prod.mk.inj hr).2
              · exact (Prod.mk.inj hr).2
            next heq =>
              obtain ⟨-, rfl⟩ := Prod.mk.inj heq
              exact (Prod.mk.inj hr).2
          rw [← hs']
          exact (ids_incrSeqid s _).trans (Ids.delStateByKey hdel)
      next =>
        cases hclose
        exact .refl s

/-- LOCKU leaves the ids. -/
lemma Ids.opLocku {args : LockuArgs} {filehandle : Option NfsStat} {clientKnown : Bool}
    {res : NfsStat} (hlocku : nfs4OpLocku s e args filehandle clientKnown = some (res, s')) :
    Ids s s' := by
  unfold nfs4OpLocku at hlocku
  split at hlocku
  next =>
    cases hlocku
    exact .refl s
  next =>
    split at hlocku
    next =>
      cases hlocku
      exact .refl s
    next =>
      obtain ⟨entry, -, hlocku⟩ := Option.bind_eq_some_iff.mp hlocku
      split at hlocku
      next =>
        split at hlocku
        next =>
          cases hlocku
          exact .refl s
        next p _ =>
          split at hlocku
          next =>
            cases hlocku
            exact .refl s
          next =>
            split at hlocku
            next => cases hlocku
            next popen _ =>
              obtain ⟨data, -, hlocku⟩ := Option.bind_eq_some_iff.mp hlocku
              obtain ⟨o, -, hlocku⟩ := Option.bind_eq_some_iff.mp hlocku
              obtain ⟨⟨status, s₂⟩, hdel, hr⟩ := Option.map_eq_some_iff.mp hlocku
              have hs' : s₂ = s' := by
                split at hr
                next heq =>
                  obtain ⟨-, rfl⟩ := Prod.mk.inj heq
                  exact (Prod.mk.inj hr).2
                next heq =>
                  obtain ⟨-, rfl⟩ := Prod.mk.inj heq
                  exact (Prod.mk.inj hr).2
              rw [← hs']
              refine Ids.trans ?_ (Ids.delState hdel)
              refine Ids.trans ?_ (ids_incrSeqid _ o)
              exact ((ids_setState s popen _).trans (ids_setState _ p _)).trans (ids_incrSeqid ..)
      next =>
        cases hlocku
        exact .refl s

/-- A LOCK of an owner that has the lock leaves them. -/
lemma Ids.lockLockOwner {stateidSeqid lockSeqid : UInt32} {other : Other} {res : LockRes}
    (hlock : lockLockOwner s e stateidSeqid other lockSeqid = some (res, s')) : Ids s s' := by
  unfold Nfs4.lockLockOwner at hlock
  split at hlock
  next =>
    cases hlock
    exact .refl s
  next p _ =>
    split at hlock
    next =>
      cases hlock
      exact .refl s
    next =>
      dsimp only at hlock
      split at hlock
      next o _ =>
        cases hlock
        exact (ids_setState s p fun st => { st with seqid := st.seqid + 1 }).trans (ids_incrSeqid _ o)
      next =>
        cases hlock
        exact ids_setState s p fun st => { st with seqid := st.seqid + 1 }

/-! ## Requests -/

/-- What a request does to the parts of the stateids. `F` are the files that come into the cache.
At most one owner is made, and it gets the next counter. -/
structure Allots (s s' : Server) (F : ℕ → Option UInt64 → Prop) : Prop where
  serverBootTime : s'.serverBootTime = s.serverBootTime
  digest : ∀ e, (s'.entries e).map Entry.digest = (s.entries e).map Entry.digest ∨
    s.entries e = none ∧ ∃ d, F e d ∧ (s'.entries e).map Entry.digest = some d
  counter : ∀ o ∈ known s, (s'.owners o).counter = (s.owners o).counter
  owners : (s'.htOpenOwner = s.htOpenOwner ∧ (s'.openOwnerCounter = s.openOwnerCounter ∨
      s'.openOwnerCounter = s.openOwnerCounter + 1)) ∨
    ∃ name o, s.htOpenOwner name = none ∧
      s'.htOpenOwner = Function.update s.htOpenOwner name (some o) ∧
      (s'.owners o).counter = s.openOwnerCounter + 1 ∧
      s'.openOwnerCounter = s.openOwnerCounter + 1

variable {F : ℕ → Option UInt64 → Prop}

lemma Ids.allots (h : Ids s s') : Allots s s' F :=
  ⟨h.serverBootTime, fun e => .inl (h.digest e), fun o _ => h.counter o,
    .inl ⟨h.htOpenOwner, .inl h.openOwnerCounter⟩⟩

/-- A call that allots nothing. -/
lemma Allots.ids (h : Allots s s₁ F) (h' : Ids s₁ s') : Allots s s' F where
  serverBootTime := h'.serverBootTime.trans h.serverBootTime
  digest e := by
    rw [h'.digest]
    exact h.digest e
  counter o ho := (h'.counter o).trans (h.counter o ho)
  owners := by
    rw [h'.htOpenOwner, h'.openOwnerCounter]
    rcases h.owners with hsame | ⟨name, o, hnone, htable, hcounter, hnext⟩
    · exact .inl hsame
    · exact .inr ⟨name, o, hnone, htable, (h'.counter o).trans hcounter, hnext⟩

/-- A file that is created brings its fileid. -/
lemma Allots.load {type : FileType} {digest : Option UInt64} (h : Allots s s₁ F)
    (he : s.entries e = none) (hF : F e digest) :
    Allots s { s₁ with entries := Function.update s₁.entries e (some ⟨type, digest, none, none⟩) }
      F where
  serverBootTime := h.serverBootTime
  digest e' := by
    rcases eq_or_ne e' e with rfl | hne
    · have hentry : ({ s₁ with
          entries := Function.update s₁.entries e' (some ⟨type, digest, none, none⟩) } :
            Server).entries e' = some ⟨type, digest, none, none⟩ := Function.update_self ..
      rw [hentry]
      exact .inr ⟨he, digest, hF, rfl⟩
    · have hentry : ({ s₁ with
          entries := Function.update s₁.entries e (some ⟨type, digest, none, none⟩) } :
            Server).entries e' = s₁.entries e' := Function.update_of_ne hne ..
      rw [hentry]
      exact h.digest e'
  counter := h.counter
  owners := h.owners

/-- `nfs_open_owner_Set` on an owner from the pool. -/
lemma Prepares.allots {ok b : Bool} (hp : Prepares s s₁ o name) (ho : o ∉ known s)
    (htable : s₁.htOpenOwner = s.htOpenOwner) (hset : nfsOpenOwnerSet s₁ name o ok = (b, s')) :
    Allots s s' F := by
  have hcounter : ∀ o' ∈ known s, (Function.update s₁.owners o
      { s₁.owners o with counter := s₁.openOwnerCounter + 1 } o').counter =
        (s.owners o').counter := by
    intro o' ho'
    have hne : o' ≠ o := fun heq => ho (heq ▸ ho')
    rw [Function.update_of_ne hne, hp.owners o' hne]
  have hdigest : ∀ e, (s₁.entries e).map Entry.digest = (s.entries e).map Entry.digest := by
    rw [hp.entries]
    exact fun _ => rfl
  have hown : (Function.update s₁.owners o
      { s₁.owners o with counter := s₁.openOwnerCounter + 1 } o).counter =
        s.openOwnerCounter + 1 := by
    rw [Function.update_self, hp.openOwnerCounter]
  have hnext : s₁.openOwnerCounter + 1 = s.openOwnerCounter + 1 := by
    rw [hp.openOwnerCounter]
  unfold nfsOpenOwnerSet at hset
  dsimp only at hset
  split_ifs at hset with hok
  · obtain ⟨-, rfl⟩ := Prod.mk.inj hset
    refine ⟨hp.serverBootTime, fun e => .inl (hdigest e), hcounter, .inr ⟨name, o, ?_, ?_, hown, hnext⟩⟩
    · rw [← htable]
      exact hok.2
    · rw [← htable]
      rfl
  · obtain ⟨-, rfl⟩ := Prod.mk.inj hset
    exact ⟨hp.serverBootTime, fun e => .inl (hdigest e), hcounter, .inl ⟨htable, .inr hnext⟩⟩

/-- An owner that is made gets the next counter. -/
lemma openOwner_allots {args : OpenArgs} {env : OpenEnv} {res : Option ℕ} (h : Valid s chain)
    (howner : openOwner s args env = (res, s')) : Allots s s' F := by
  unfold openOwner at howner
  split at howner
  next o ho =>
    split_ifs at howner
    · obtain ⟨-, rfl⟩ := Prod.mk.inj howner
      exact (ids_setOwner (f := fun owner => { owner with seqid := 0, confirmed := false }) s o
        fun _ => rfl).allots
    · obtain ⟨-, rfl⟩ := Prod.mk.inj howner
      exact (Ids.refl s).allots
  next hnone =>
    split at howner
    next pool arrays hget =>
      obtain ⟨-, rfl⟩ := Prod.mk.inj howner
      exact Ids.allots ⟨rfl, fun _ => rfl, fun _ => rfl, rfl, rfl⟩
    next o pool arrays hget =>
      obtain ⟨ho, hspare⟩ := h.getOwner hget
      by_cases halloc : env.ownerNameAlloc = true
      swap
      · rw [if_pos halloc] at howner
        obtain ⟨-, rfl⟩ := Prod.mk.inj howner
        exact Ids.allots ⟨rfl, fun _ => rfl, fun _ => rfl, rfl, rfl⟩
      rw [if_neg (not_not_intro halloc)] at howner
      set s₁ : Server := Server.setOwner { s with poolOpenOwner := pool, ownerArrays := arrays } o
        fun owner => { owner with
          name := args.ownerName, confirmed := false, seqid := 0, relatedOwner := none } with hs₁
      have hp : Prepares s s₁ o args.ownerName := by
        refine ⟨rfl, rfl, rfl, rfl, rfl, rfl, rfl, rfl, fun o' hne => setOwner_owners_of_ne hne, ?_,
          hspare⟩
        rw [hs₁, setOwner_owners_self]
      rcases hset : nfsOpenOwnerSet s₁ args.ownerName o env.ownerSetOk with ⟨b, s₂⟩
      simp only [hset] at howner
      obtain ⟨-, rfl⟩ := Prod.mk.inj howner
      exact hp.allots ho rfl hset

/-- An OPEN allots a key to at most one state. -/
theorem nfs4OpOpen_allots {args : OpenArgs} {env : OpenEnv} {res : OpenRes} (h : Valid s chain)
    (hcreate : ∀ e digest, env.create = .ok (e, digest) → s.entries e = none)
    (hopen : nfs4OpOpen s args env = some (res, s')) :
    Allots s s' fun e digest => env.create = .ok (e, digest) := by
  unfold nfs4OpOpen at hopen
  split at hopen
  next =>
    cases hopen
    exact (Ids.refl s).allots
  next =>
    split at hopen
    all_goals try
      cases hopen
      exact (Ids.refl s).allots
    next =>
      split at hopen
      next =>
        cases hopen
        exact (Ids.refl s).allots
      next =>
        split_ifs at hopen
        rcases howner : openOwner s args env with ⟨_ | o, s₁⟩
        · rw [howner] at hopen
          cases hopen
          exact openOwner_allots h howner
        · simp only [howner] at hopen
          have h₁ : Allots s s₁ fun e digest => env.create = .ok (e, digest) :=
            openOwner_allots h howner
          split at hopen
          next =>
            cases hopen
            exact h₁
          next =>
            split at hopen
            next =>
              rcases Ids.openCreate hopen with hids | ⟨e, digest, hc, hids⟩
              · exact h₁.ids hids
              · exact (h₁.load (hcreate e digest hc) hc).ids hids
            next => exact h₁.ids (Ids.openNocreate hopen)
            next =>
              cases hopen
              exact h₁.ids (ids_incrSeqid s₁ o)

/-- A new lock owner gets the next counter. -/
lemma lockNewOwner_allots {popenstate : ℕ} {args : LockArgs} {env : LockEnv} {res : LockRes}
    (h : Valid s chain) (hlock : lockNewOwner s e popenstate args name env = some (res, s')) :
    Allots s s' F := by
  unfold lockNewOwner at hlock
  rcases hget : getPrealloc s.nbPreStateV4 s.poolOpenOwner s.ownerArrays with ⟨_ | o, pool, arrays⟩
  · -- there is no owner left in the pool
    rw [hget] at hlock
    cases hlock
  obtain ⟨ho, hspare⟩ := h.getOwner hget
  simp only [hget] at hlock
  split_ifs at hlock
  set s₁ : Server := Server.setOwner { s with poolOpenOwner := pool, ownerArrays := arrays } o
    fun owner => { owner with
      name := name
      confirmed := false
      seqid := 0
      relatedOwner := some (s.states popenstate).powner } with hs₁
  have hp : Prepares s s₁ o name := by
    refine ⟨rfl, rfl, rfl, rfl, rfl, rfl, rfl, rfl, fun o' hne => setOwner_owners_of_ne hne, ?_,
      hspare⟩
    rw [hs₁, setOwner_owners_self]
  rcases hset : nfsOpenOwnerSet s₁ name o env.ownerSetOk with ⟨b, s₂⟩
  have h₂ : Allots s s₂ F := hp.allots ho rfl hset
  cases b with
  | false =>
    simp only [hset] at hlock
    cases hlock
    exact h₂
  | true =>
    simp only [hset] at hlock
    obtain ⟨r, hadd, hlock⟩ := Option.bind_eq_some_iff.mp hlock
    refine (h₂.ids (Ids.addState hadd)).ids ?_
    split at hlock
    next p s₃ =>
      obtain ⟨data, -, hlock⟩ := Option.map_eq_some_iff.mp hlock
      cases hlock
      exact (ids_incrSeqid s₃ _).trans (ids_setState _ popenstate _)
    next =>
      cases hlock
      exact .refl _

/-- A LOCK allots a key to at most one state. -/
theorem nfs4OpLock_allots {args : LockArgs} {env : LockEnv} {res : LockRes} (h : Valid s chain)
    (hlock : nfs4OpLock s e args env = some (res, s')) : Allots s s' F := by
  have hscan {exists? : Option ℕ} {scan : LockScan} {next : Option (LockRes × Server)}
      (hnext : next = some (res, s') → Allots s s' F)
      (hanswer : lockAnswer s exists? scan next = some (res, s')) : Allots s s' F := by
    cases scan with
    | error =>
      cases hanswer
      exact (Ids.refl s).allots
    | denied p =>
      simp only [lockAnswer] at hanswer
      -- a lock that is denied allots nothing
      split at hanswer
      · cases hanswer
      · cases hanswer
        exact (ids_incrExists s exists?).allots
    | openmode =>
      cases hanswer
      exact (ids_incrExists s exists?).allots
    | clear => exact hnext hanswer
  unfold nfs4OpLock at hlock
  split at hlock
  next =>
    cases hlock
    exact (Ids.refl s).allots
  next =>
    split at hlock
    next =>
      cases hlock
      exact (Ids.refl s).allots
    next =>
      split at hlock
      next =>
        cases hlock
        exact (Ids.refl s).allots
      next =>
        split at hlock
        next =>
          cases hlock
          exact (Ids.refl s).allots
        next =>
          obtain ⟨entry, -, hlock⟩ := Option.bind_eq_some_iff.mp hlock
          split_ifs at hlock
          obtain ⟨scan, -, hlock⟩ := Option.bind_eq_some_iff.mp hlock
          refine hscan (fun hnext => ?_) hlock
          split at hnext
          next =>
            unfold lockOpenOwner at hnext
            split at hnext
            next =>
              cases hnext
              exact (Ids.refl s).allots
            next => exact lockNewOwner_allots h hnext
          next => cases hnext
          next => exact (Ids.lockLockOwner hnext).allots

/-- The files that an event brings into the cache. -/
def Event.Brings : Event → ℕ → Option UInt64 → Prop
  | .load e _ digest => fun e' digest' => e' = e ∧ digest' = digest
  | .opOpen _ env => fun e digest => env.create = .ok (e, digest)
  | .opClose .. | .opLock .. | .opLocku .. => fun _ _ => False

/-- One step changes no part of a stateid that is there, and an owner that it makes gets the next
counter. -/
theorem step_allots {ev : Event} (h : Valid s chain) (hpos : Possible s ev)
    (hstep : step s ev = some s') : Allots s s' ev.Brings := by
  cases ev with
  | load e type digest =>
    simp only [step] at hstep
    split_ifs at hstep with he
    cases hstep
    exact (Ids.refl s).allots.load he ⟨rfl, rfl⟩
  | opOpen args env =>
    obtain ⟨⟨res, s''⟩, hopen, rfl⟩ := Option.map_eq_some_iff.mp hstep
    refine nfs4OpOpen_allots h (fun e digest hc => ?_) hopen
    have hcreate := hpos.2.2
    rw [hc] at hcreate
    exact Option.isNone_iff_eq_none.mp hcreate
  | opClose e other env =>
    obtain ⟨⟨res, s''⟩, hclose, rfl⟩ := Option.map_eq_some_iff.mp hstep
    exact (Ids.opClose hclose).allots
  | opLock e args env =>
    obtain ⟨⟨res, s''⟩, hlock, rfl⟩ := Option.map_eq_some_iff.mp hstep
    exact nfs4OpLock_allots h hlock
  | opLocku e args filehandle clientKnown =>
    obtain ⟨⟨res, s''⟩, hlocku, rfl⟩ := Option.map_eq_some_iff.mp hstep
    exact (Ids.opLocku hlocku).allots

/-! ## Runs -/

/-- The counters of the owners are those that have been given, and no two are the same. -/
structure Counted (s : Server) : Prop where
  le : ∀ name o, s.htOpenOwner name = some o →
    (s.owners o).counter.toNat ≤ s.openOwnerCounter.toNat
  inj : ∀ name o name' o', s.htOpenOwner name = some o → s.htOpenOwner name' = some o' →
    (s.owners o).counter = (s.owners o').counter → name = name'

/-- The stateid of a state in use is made of the boot time, the fileid of its file and the counter
of its owner. -/
def Keyed (s : Server) (chain : ℕ → List ℕ) : Prop :=
  ∀ e, ∀ p ∈ chain e, ∃ entry fileid, s.entries e = some entry ∧ entry.digest = some fileid ∧
    (s.states p).stateidOther = ⟨s.serverBootTime, fileid,
      (s.owners (s.states p).powner).counter.toUInt16⟩

lemma toNat_next {c : UInt32} (h : c.toNat + 1 < 2 ^ 32) : (c + 1).toNat = c.toNat + 1 := by
  rw [UInt32.toNat_add, UInt32.toNat_one]
  omega

/-- The counters stay apart as long as they do not wrap. -/
theorem Counted.allots (h : Counted s) (ha : Allots s s' F)
    (hnext : s'.openOwnerCounter ≠ s.openOwnerCounter → s.openOwnerCounter.toNat + 1 < 2 ^ 32) :
    Counted s' := by
  have hgrows : s.openOwnerCounter.toNat ≤ s'.openOwnerCounter.toNat := by
    by_cases heq : s'.openOwnerCounter = s.openOwnerCounter
    · rw [heq]
    · have hadd : s'.openOwnerCounter = s.openOwnerCounter + 1 := by
        rcases ha.owners with ⟨-, hsame | hadd⟩ | ⟨_, _, -, -, -, hadd⟩
        · exact absurd hsame heq
        · exact hadd
        · exact hadd
      rw [hadd, toNat_next (hnext heq)]
      exact Nat.le_succ _
  have hold : ∀ name o, s.htOpenOwner name = some o →
      (s'.owners o).counter = (s.owners o).counter := fun name o ho => ha.counter o ⟨name, ho⟩
  rcases ha.owners with ⟨htable, -⟩ | ⟨name, o, hnone, htable, hcounter, hadd⟩
  · constructor
    · intro name o ho
      rw [htable] at ho
      rw [hold name o ho]
      exact (h.le name o ho).trans hgrows
    · intro name o name' o' ho ho' heq
      rw [htable] at ho ho'
      rw [hold name o ho, hold name' o' ho'] at heq
      exact h.inj name o name' o' ho ho' heq
  · have hne : s'.openOwnerCounter ≠ s.openOwnerCounter := by
      rw [hadd]
      intro heq
      have hnat := congrArg UInt32.toNat heq
      rw [UInt32.toNat_add, UInt32.toNat_one] at hnat
      have hlt := s.openOwnerCounter.toNat_lt
      omega
    have htoNat := toNat_next (hnext hne)
    -- the new counter is larger than all the others
    have hlt : ∀ name' o', s.htOpenOwner name' = some o' →
        (s'.owners o').counter.toNat < (s'.owners o).counter.toNat := by
      intro name' o' ho'
      rw [hold name' o' ho', hcounter, htoNat]
      exact Nat.lt_succ_of_le (h.le name' o' ho')
    have hcases : ∀ name' o', s'.htOpenOwner name' = some o' →
        name' = name ∧ o' = o ∨ s.htOpenOwner name' = some o' := by
      intro name' o' ho'
      rw [htable] at ho'
      rcases eq_or_ne name' name with rfl | hne'
      · rw [Function.update_self] at ho'
        exact .inl ⟨rfl, (Option.some.inj ho').symm⟩
      · rw [Function.update_of_ne hne'] at ho'
        exact .inr ho'
    constructor
    · intro name' o' ho'
      rcases hcases name' o' ho' with ⟨-, rfl⟩ | ho'
      · rw [hcounter, hadd]
      · rw [hold name' o' ho']
        exact (h.le name' o' ho').trans hgrows
    · intro name₁ o₁ name₂ o₂ ho₁ ho₂ heq
      rcases hcases name₁ o₁ ho₁ with ⟨rfl, rfl⟩ | ho₁
      · rcases hcases name₂ o₂ ho₂ with ⟨rfl, -⟩ | ho₂
        · rfl
        · have hlt' := hlt name₂ o₂ ho₂
          rw [heq] at hlt'
          exact absurd hlt' (lt_irrefl _)
      · rcases hcases name₂ o₂ ho₂ with ⟨rfl, rfl⟩ | ho₂
        · have hlt' := hlt name₁ o₁ ho₁
          rw [heq] at hlt'
          exact absurd hlt' (lt_irrefl _)
        · rw [hold name₁ o₁ ho₁, hold name₂ o₂ ho₂] at heq
          exact h.inj name₁ o₁ name₂ o₂ ho₁ ho₂ heq

end Ganesha.Nfs4
