import Mathlib.Data.Set.Card
import Ganesha.Nfs4.LockTheorems

/-!
# The locks that an open holds

`lockheld` of an open counts the locks taken through it: LOCK adds one, LOCKU takes one away and CLOSE
refuses an open with a count. `Counts` is what one request does to the counts, `Accounts` that they
are right, and `lockheld_eq` that they are so in every run in which a lock state that is added gets
into the table of states and no open comes to hold 2^32 locks. A lock state that does not get into
the table stays in the list of the file, and its open can be closed.
-/

namespace Ganesha.Nfs4
open Library.Transition
open Ganesha.Hash (getPrealloc)

variable {s s₁ s' s₀ : Server} {chain : ℕ → List ℕ} {e p q o popen : ℕ} {entry : Entry} {U V : Set ℕ}
  {L : ℕ → Prop}

/-! ## Data that stay -/

/-- The states of `U` keep their data. -/
def DataKept (s s' : Server) (U : Set ℕ) : Prop := ∀ q ∈ U, (s'.states q).data = (s.states q).data

lemma DataKept.refl (s : Server) (U : Set ℕ) : DataKept s s U := fun _ _ => rfl

lemma DataKept.trans (h : DataKept s s₁ U) (h' : DataKept s₁ s' U) : DataKept s s' U :=
  fun q hq => (h' q hq).trans (h q hq)

lemma Beside.dataKept (h : Beside s s') : DataKept s s' U := fun q _ => by rw [h.states]

lemma Bumps.dataKept (h : Bumps s s') : DataKept s s' U := by
  rcases h with rfl | ⟨o, f, -, rfl⟩
  · exact .refl s' U
  · exact fun _ _ => rfl

lemma dataKept_of_core (h : ∀ q ∈ U, (s'.states q).core = (s.states q).core) : DataKept s s' U :=
  fun q hq => (State.core_eq.mp (h q hq)).2.1

/-- Adding a state leaves the data of the others. -/
lemma Valid.addState_dataKept {type : StateType} {data : StateData} {setOk : Bool}
    {status : CacheStatus} {res : Option ℕ} (h : Valid s chain)
    (hadd : cacheInodeAddState s (some e) type data o setOk = some (status, res, s')) :
    DataKept s s' (used chain) := by
  cases hentry : s.entries e with
  | none => simp [cacheInodeAddState, hentry] at hadd
  | some entry =>
    obtain ⟨status', res', s'', hadd', -, hadds⟩ :=
      cacheInodeAddState_spec h.toShape hentry type data o setOk
    rw [hadd] at hadd'
    obtain ⟨rfl, rfl, rfl⟩ : status = status' ∧ res = res' ∧ s' = s'' := by simpa using hadd'
    cases hadds with
    | fails _ _ hcore _ => exact dataKept_of_core hcore
    | adds p _ _ hcore _ _ _ _ _ => exact dataKept_of_core hcore

lemma Valid.addShare_dataKept {args : OpenArgs} {verifier : List UInt8} {setOk : Bool}
    {res : OpenRes} {f : CacheStatus × Option ℕ × Server → OpenRes × Server} (h : Valid s chain)
    (hf : ∀ r, Bumps r.2.2 (f r).2)
    (hadd : (cacheInodeAddState s (some e) .share (candidateData args verifier) o setOk).map f =
      some (res, s')) : DataKept s s' (used chain) := by
  obtain ⟨r, hr, hfr⟩ := Option.map_eq_some_iff.mp hadd
  have hb := hf r
  rw [hfr] at hb
  exact (h.addState_dataKept hr).trans hb.dataKept

section Open

variable {args : OpenArgs} {env : OpenEnv} {res : OpenRes}

/-- So does a creation. -/
lemma openNew_dataKept (h : Valid s chain)
    (hcreate : ∀ e digest, env.create = .ok (e, digest) → s.entries e = none)
    (hopen : openNew s o args env = some (res, s')) : DataKept s s' (used chain) := by
  unfold openNew at hopen
  cases hc : env.create with
  | ok r =>
    obtain ⟨e, digest⟩ := r
    simp only [hc] at hopen
    have hload := h.load (hcreate e digest hc) .regular digest
    refine hload.addShare_dataKept (fun r => ?_) hopen
    split
    · split_ifs
      · exact .inl rfl
      · exact openEnd_bumps ..
    · exact bumps_incrSeqid ..
  | error status =>
    simp only [hc] at hopen
    split_ifs at hopen
    · cases hopen
      exact .refl s _
    · cases hopen
      exact (bumps_incrSeqid s o).dataKept

/-- So does an open with creation. -/
lemma openCreate_dataKept (h : Valid s chain)
    (hcreate : ∀ e digest, env.create = .ok (e, digest) → s.entries e = none)
    (hopen : openCreate s o args env = some (res, s')) : DataKept s s' (used chain) := by
  unfold openCreate at hopen
  split at hopen
  next =>
    split at hopen
    next =>
      unfold openUnchecked at hopen
      split at hopen
      next =>
        cases hopen
        exact .refl s _
      next =>
        refine h.addShare_dataKept (fun r => ?_) hopen
        split
        · exact openEnd_bumps ..
        · exact bumps_incrSeqid ..
    next =>
      rw [openExclusive_eq hopen]
      exact .refl s _
    next =>
      cases hopen
      exact .refl s _
  next => exact openNew_dataKept h hcreate hopen
  next =>
    cases hopen
    exact .refl s _

/-- So does an open without creation. -/
lemma openNocreate_dataKept (h : Valid s chain) (hopen : openNocreate s o args env = some (res, s')) :
    DataKept s s' (used chain) := by
  unfold openNocreate at hopen
  split at hopen
  next =>
    cases hopen
    exact .refl s _
  next e _ =>
    obtain ⟨entry, -, hopen⟩ := Option.bind_eq_some_iff.mp hopen
    split at hopen
    next =>
      cases hopen
      exact .refl s _
    next =>
      cases hopen
      exact .refl s _
    next =>
      cases hopen
      exact .refl s _
    next =>
      split at hopen
      next =>
        cases hopen
        exact .refl s _
      next =>
        obtain ⟨scan, -, hopen⟩ := Option.bind_eq_some_iff.mp hopen
        cases scan with
        | denied incr =>
          cases hopen
          exact fun _ _ => rfl
        | done sameOwner =>
          cases sameOwner with
          | some p =>
            set s₁ := s.setState p fun st => { st with seqid := st.seqid + 1 } with hs₁
            have hb := openEnd_bumps s₁ o p (s₁.owners o).seqid env
            rw [Option.some.inj hopen] at hb
            refine DataKept.trans (fun q _ => ?_) hb.dataKept
            rw [hs₁, setState_states]
            split_ifs with heq
            · rw [heq]
            · rfl
          | none =>
            refine h.addShare_dataKept (fun r => ?_) hopen
            split
            · exact openEnd_bumps ..
            · exact bumps_incrSeqid ..

/-- So does every OPEN. -/
lemma nfs4OpOpen_dataKept (h : Valid s chain)
    (hcreate : ∀ e digest, env.create = .ok (e, digest) → s.entries e = none)
    (hopen : nfs4OpOpen s args env = some (res, s')) : DataKept s s' (used chain) := by
  unfold nfs4OpOpen at hopen
  split at hopen
  next =>
    cases hopen
    exact .refl s _
  next =>
    split at hopen
    all_goals try
      cases hopen
      exact .refl s _
    next =>
      split at hopen
      next =>
        cases hopen
        exact .refl s _
      next =>
        split_ifs at hopen
        rcases howner : openOwner s args env with ⟨_ | o, s₁⟩
        · rw [howner] at hopen
          cases hopen
          exact (openOwner_spec h howner).2.1.dataKept
        · simp only [howner] at hopen
          obtain ⟨hv, hb, -⟩ := openOwner_spec h howner
          refine hb.dataKept.trans ?_
          split at hopen
          next =>
            cases hopen
            exact .refl _ _
          next =>
            split at hopen
            next =>
              refine openCreate_dataKept hv (fun e digest hc => ?_) hopen
              rw [hb.entries]
              exact hcreate e digest hc
            next => exact openNocreate_dataKept hv hopen
            next =>
              cases hopen
              exact (bumps_incrSeqid s₁ o).dataKept

end Open

/-! ## What a request does to the counts -/

/-- The open through which a lock was taken. -/
def StateData.popenstate : StateData → Option ℕ
  | .lock _ _ _ popenstate => some popenstate
  | .share .. => none

/-- What a request does to the lists of states and to the counts of their locks. `L` is what is known of
a file that gets a lock. -/
inductive Counts (s s' : Server) (chain : ℕ → List ℕ) (L : ℕ → Prop) : Prop
  | keeps : Valid s' chain → Still s s' (used chain) → DataKept s s' (used chain) → Counts s s' chain L
  | opens (e p : ℕ) : p ∉ used chain → Valid s' (extend chain e p) → Still s s' (used chain) →
      DataKept s s' (used chain) → (s'.states p).data.popenstate = none →
      (s'.states p).data.lockheld = 0 → Counts s s' chain L
  | locks (e p popen : ℕ) : L e → p ∉ used chain → Valid s' (extend chain e p) →
      Still s s' (used chain) → popen ∈ chain e → (s.states popen).type = .share →
      (s'.states p).type = .lock → (s'.states p).data.popenstate = some popen →
      (s.states popen).data.setLockheld (· + 1) = some (s'.states popen).data →
      DataKept s s' (used chain \ {popen}) → Counts s s' chain L
  | closes (e p : ℕ) : p ∈ chain e → Valid s' (shrink chain e p) → Still s s' (used chain \ {p}) →
      DataKept s s' (used chain \ {p}) → (s.states p).type = .share →
      (s.states p).data.lockheld = 0 → Counts s s' chain L
  | unlocks (e p popen : ℕ) : p ∈ chain e → Valid s' (shrink chain e p) →
      Still s s' (used chain \ {p}) → (s.states p).data.popenstate = some popen →
      (s.states popen).data.setLockheld decrHeld = some (s'.states popen).data →
      DataKept s s' (used chain \ {p, popen}) → Counts s s' chain L

lemma Outcome.counts {K : Prop} (h : Outcome s s' chain K (fun _ _ => False) fun _ _ => False)
    (hdata : DataKept s s' (used chain)) : Counts s s' chain L := by
  cases h with
  | keeps _ hv hs => exact .keeps hv hs hdata
  | adds _ _ _ _ _ hG => exact hG.elim
  | deletes _ _ _ _ _ hD => exact hD.elim

lemma candidateData_counts (args : OpenArgs) (verifier : List UInt8) :
    (candidateData args verifier).popenstate = none ∧ (candidateData args verifier).lockheld = 0 :=
  ⟨rfl, rfl⟩

/-- OPEN. -/
theorem nfs4OpOpen_counts {args : OpenArgs} {env : OpenEnv} {res : OpenRes} (h : Valid s chain)
    (hcreate : ∀ e digest, env.create = .ok (e, digest) → s.entries e = none)
    (hopen : nfs4OpOpen s args env = some (res, s')) : Counts s s' chain L := by
  have hdata := nfs4OpOpen_dataKept h hcreate hopen
  cases nfs4OpOpen_outcome h hcreate hopen with
  | keeps _ hv hs => exact .keeps hv hs hdata
  | adds e p hp hv hs hG =>
    obtain ⟨-, ⟨verifier, hcand⟩, -⟩ := hG
    obtain ⟨hpopen, hheld⟩ := candidateData_counts args verifier
    rw [← hcand] at hpopen hheld
    exact .opens e p hp hv hs hdata hpopen hheld
  | deletes _ _ _ _ _ hD => exact hD.elim

/-- CLOSE. -/
theorem nfs4OpClose_counts {other : Other} {env : CloseEnv} {res : NfsStat} (h : Valid s chain)
    (hclose : nfs4OpClose s e other env = some (res, s')) : Counts s s' chain L := by
  unfold nfs4OpClose at hclose
  split at hclose
  next =>
    cases hclose
    exact .keeps h (.refl s _) (.refl s _)
  next =>
    obtain ⟨entry, hentry, hclose⟩ := Option.bind_eq_some_iff.mp hclose
    split at hclose
    all_goals try
      cases hclose
      exact .keeps h (.refl s _) (.refl s _)
    next =>
      split at hclose
      next =>
        split at hclose
        next =>
          cases hclose
          exact .keeps h (.refl s _) (.refl s _)
        next p hp =>
          have hmem := (h.table other p hp).2
          by_cases hheld : (s.states p).data.lockheld > 0
          · rw [if_pos hheld] at hclose
            cases hclose
            exact .keeps h (.refl s _) (.refl s _)
          · rw [if_neg hheld] at hclose
            have htype : (s.states p).type = .share := by
              obtain ⟨e', hmem⟩ := hmem
              exact (h.sound e' p hmem).share_of_lockheld hheld
            obtain ⟨hv, hb⟩ := h.setOwner (o := (s.states p).powner)
              (f := fun owner => { owner with seqid := owner.seqid + 1 }) fun _ => rfl
            obtain ⟨e', s₂, hdel, hdeletes⟩ := cacheInodeDelStateByKey_spec hv.toShape
              (show (s.incrSeqid (s.states p).powner).htStateId other = some p from hp)
            have hs' : s₂ = s' := by
              have hdel' : cacheInodeDelStateByKey (s.incrSeqid (s.states p).powner) other =
                  some (.success, s₂) := hdel
              simp only [hdel', Option.map_some] at hclose
              split_ifs at hclose
              · exact (Prod.mk.inj (Option.some.inj hclose)).2
              · exact (Prod.mk.inj (Option.some.inj hclose)).2
            rw [← hs']
            have hkept : DataKept s s₂ (used chain \ {p}) := fun q hq =>
              (State.core_eq.mp (hdeletes.core q hq.2)).2.1
            have hout : Outcome s s₂ chain False (fun _ _ => False) fun e' p' => p' = p :=
              .after (hb.still _) (hdeletes.outcome hv rfl)
            cases hout with
            | keeps hK => exact hK.elim
            | adds _ _ _ _ _ hG => exact hG.elim
            | deletes e' p' hp' hv' hs hD =>
              rw [hD] at hp' hv' hs
              exact .closes e' p hp' hv' hs hkept htype (Nat.eq_zero_of_not_pos hheld)
      next =>
        cases hclose
        exact .keeps h (.refl s _) (.refl s _)

lemma Bumps.counts (h : Valid s chain) (hb : Bumps s s') : Counts s s' chain L := by
  have hout : Outcome s s' chain True (fun _ _ => False) fun _ _ => False :=
    (Outcome.refl h trivial).bumps hb
  exact hout.counts hb.dataKept

lemma Counts.mono {L' : ℕ → Prop} (h : Counts s s' chain L) (hL : ∀ e, L e → L' e) :
    Counts s s' chain L' := by
  cases h with
  | keeps hv hs hd => exact .keeps hv hs hd
  | opens e p hp hv hs hd hpopen hheld => exact .opens e p hp hv hs hd hpopen hheld
  | locks e p popen hLe hp hv hs hmem hshare htype hpopen hheld hd =>
    exact .locks e p popen (hL e hLe) hp hv hs hmem hshare htype hpopen hheld hd
  | closes e p hp hv hs hd hshare hheld => exact .closes e p hp hv hs hd hshare hheld
  | unlocks e p popen hp hv hs hpopen hheld hd => exact .unlocks e p popen hp hv hs hpopen hheld hd

/-- What counts after the owner was made counts before. -/
lemma Counts.after (hb : Beside s s₁) (h : Counts s₁ s' chain L) : Counts s s' chain L := by
  have hstates : s₁.states = s.states := hb.states
  cases h with
  | keeps hv hs hd => exact .keeps hv ((hb.still _).trans hs le_rfl) (hb.dataKept.trans hd)
  | opens e p hp hv hs hd hpopen hheld =>
    exact .opens e p hp hv ((hb.still _).trans hs le_rfl) (hb.dataKept.trans hd) hpopen hheld
  | locks e p popen hL hp hv hs hmem hshare htype hpopen hheld hd =>
    rw [hstates] at hshare hheld
    exact .locks e p popen hL hp hv ((hb.still _).trans hs le_rfl) hmem hshare htype hpopen hheld
      (hb.dataKept.trans hd)
  | closes e p hp hv hs hd hshare hheld =>
    rw [hstates] at hshare hheld
    exact .closes e p hp hv ((hb.still _).trans hs le_rfl) (hb.dataKept.trans hd) hshare hheld
  | unlocks e p popen hp hv hs hpopen hheld hd =>
    rw [hstates] at hpopen hheld
    exact .unlocks e p popen hp hv ((hb.still _).trans hs le_rfl) hpopen hheld
      (hb.dataKept.trans hd)

/-- A lock state is added behind the others, or refused. -/
lemma Valid.addLock {data : StateData} {status : CacheStatus} {res : Option ℕ} (h : Valid s chain)
    (ho : o ∈ known s) (htakes : StateType.lock.Takes data)
    (hadd : cacheInodeAddState s (some e) .lock data o true = some (status, res, s')) :
    status ≠ .success ∧ Valid s' chain ∧ Still s s' (used chain) ∨
      ∃ p, status = .success ∧ res = some p ∧ p ∉ used chain ∧ Valid s' (extend chain e p) ∧
        Still s s' (used chain) ∧ (s'.states p).type = .lock ∧ (s'.states p).data = data := by
  have hout := h.addState htakes ho hadd
  obtain ⟨entry, hentry⟩ : ∃ entry, s.entries e = some entry := by
    cases hentry : s.entries e with
    | none => simp [cacheInodeAddState, hentry] at hadd
    | some entry => exact ⟨entry, rfl⟩
  obtain ⟨status', res', s'', hadd', -, hadds⟩ :=
    cacheInodeAddState_spec h.toShape hentry .lock data o true
  rw [hadd] at hadd'
  obtain ⟨rfl, rfl, rfl⟩ : status = status' ∧ res = res' ∧ s' = s'' := by simpa using hadd'
  -- the list of `e` tells whether the state is there
  cases hadds with
  | fails hstatus hshape _ _ =>
    cases hout with
    | keeps _ hv hs => exact .inl ⟨hstatus, hv, hs⟩
    | adds e' p _ hv _ hG =>
      have hlist := (hv.statesOf_eq e).symm.trans (hshape.statesOf_eq e)
      rw [hG.1, extend_self] at hlist
      exact absurd (congrArg List.length hlist) (by simp)
    | deletes _ _ _ _ _ hD => exact hD.elim
  | adds p hp hshape _ _ _ _ _ hreg =>
    rcases hreg with ⟨-, hstatus, hres, -⟩ | ⟨hfalse, -⟩
    swap
    · cases hfalse
    cases hout with
    | keeps hne _ _ => exact absurd hstatus hne
    | adds e' p' hp' hv hs hG =>
      have hlist := (hshape.statesOf_eq e).symm.trans (hv.statesOf_eq e)
      rw [hG.1, extend_self, extend_self] at hlist
      have heq : p = p' := by simpa using hlist
      rw [hG.1] at hv
      exact .inr ⟨p', hstatus, heq ▸ hres, hp', hv, hs, hG.2.1, hG.2.2.1⟩
    | deletes _ _ _ _ _ hD => exact hD.elim

/-- The first lock of an owner counts one more in its open. -/
lemma lockNewOwner_counts {args : LockArgs} {env : LockEnv} {name : OwnerName} {res : LockRes}
    (h : Valid s chain) (hpopen : popen ∈ chain e) (hshare : (s.states popen).type = .share)
    (hset : env.stateSetOk = true) (hL : L e)
    (hlock : lockNewOwner s e popen args name env = some (res, s')) : Counts s s' chain L := by
  unfold lockNewOwner at hlock
  rcases hget : getPrealloc s.nbPreStateV4 s.poolOpenOwner s.ownerArrays with ⟨_ | o, pool, arrays⟩
  · -- there is no owner left in the pool
    rw [hget] at hlock
    cases hlock
  obtain ⟨ho, hspare⟩ := h.getOwner hget
  simp only [hget] at hlock
  split_ifs at hlock
  set s₁ : Server := Server.setOwner { s with poolOpenOwner := pool, ownerArrays := arrays } o
    fun owner => { owner with
      name := name
      confirmed := false
      seqid := 0
      relatedOwner := some (s.states popen).powner } with hs₁
  have hp : Prepares s s₁ o name := by
    refine ⟨rfl, rfl, rfl, rfl, rfl, rfl, rfl, rfl, fun o' hne => setOwner_owners_of_ne hne, ?_,
      hspare⟩
    rw [hs₁, setOwner_owners_self]
  rcases hownerSet : nfsOpenOwnerSet s₁ name o env.ownerSetOk with ⟨b, s₂⟩
  obtain ⟨hv, hb, hres⟩ := h.ownerSet hp ho rfl hownerSet
  cases b with
  | false =>
    simp only [hownerSet] at hlock
    cases hlock
    exact .keeps hv (hb.still _) hb.dataKept
  | true =>
    obtain ⟨hname, -, -⟩ := hres rfl
    simp only [hownerSet, hset] at hlock
    obtain ⟨⟨status, r, s₃⟩, hadd, hlock⟩ := Option.bind_eq_some_iff.mp hlock
    have htakes : StateType.lock.Takes (.lock args.locktype args.offset args.length popen) := trivial
    have hkept := hv.addState_dataKept hadd
    refine .after hb ?_
    rcases hv.addLock ⟨name, hname⟩ htakes hadd with ⟨hne, hv₃, hs₃⟩ | ⟨p, rfl, rfl, hp', hv₃, hs₃,
      htype, hdata⟩
    · have hs' : s₃ = s' := by
        split at hlock
        next _ _ heq => exact absurd (Prod.mk.inj heq).1 hne
        next heq =>
          obtain rfl := congrArg (fun r => r.2.2) heq
          exact (Prod.mk.inj (Option.some.inj hlock)).2
      rw [← hs']
      exact .keeps hv₃ hs₃ hkept
    · obtain ⟨data, hheld, hlock⟩ := Option.map_eq_some_iff.mp hlock
      have hs' := (Prod.mk.inj hlock).2
      have hused : popen ∈ used chain := ⟨e, hpopen⟩
      have hne : p ≠ popen := fun heq => hp' (heq ▸ hused)
      have hsub : used chain ⊆ used (extend chain e p) := by
        rw [used_extend]
        exact Set.subset_insert p _
      obtain ⟨hv₄, hb₄⟩ := hv₃.setOwner (o := (s₃.states popen).powner)
        (f := fun owner => { owner with seqid := owner.seqid + 1 }) fun _ => rfl
      obtain ⟨hv₅, hs₅⟩ := hv₄.touchLockheld (g := id) hheld
      have hstates : ∀ q ≠ popen, s'.states q = s₃.states q := by
        intro q hq
        rw [← hs']
        exact setState_states_of_ne _ hq
      have hself : (s'.states popen).data = data := by
        rw [← hs']
        exact congrArg State.data (setState_states_self _)
      have hstill : Still s₂ s' (used chain) := by
        rw [← hs']
        have hs₄ := hs₃.trans (hb₄.still (used chain)) le_rfl
        exact hs₄.trans ⟨fun q hq => hs₅.same q (hsub hq), hs₅.owners⟩ le_rfl
      have hshare₂ : (s₂.states popen).type = .share := by
        rw [hb.states]
        exact hshare
      refine .locks e p popen hL hp' ?_ hstill hpopen hshare₂ ?_ ?_ ?_ fun q hq => ?_
      · rw [← hs']
        exact hv₅
      · rw [hstates p hne]
        exact htype
      · rw [hstates p hne, hdata]
        rfl
      · rw [hself, ← hkept popen hused]
        exact hheld
      · rw [hstates q hq.2]
        exact hkept q hq.1

/-- A LOCK that is denied counts nothing. -/
lemma lockScan_counts {args : LockArgs} {exists? : Option ℕ} {scan : LockScan} {res : LockRes}
    {next : Option (LockRes × Server)} (h : Valid s chain) (hentry : s.entries e = some entry)
    (hscan : lockLoop s e entry args exists? (s.allocs + 1) none = some scan)
    (hlock : lockAnswer s exists? scan next = some (res, s')) :
    Counts s s' chain L ∨
      (∀ q ∈ statesOf s e, ¬ args.Denied s exists? q ∧ ¬ args.Openmode s q) ∧
        next = some (res, s') := by
  obtain ⟨scan', hscan', hclear⟩ := lockLoop_spec args exists? h.toShape hentry
    (List.nil_append (chain e)).symm (Nat.lt_succ_of_le (h.allocs e))
  rw [List.getLast?_nil, hscan] at hscan'
  obtain rfl := Option.some.inj hscan'
  cases scan with
  | error =>
    cases hlock
    exact .inl (.keeps h (.refl s _) (.refl s _))
  | denied p =>
    simp only [lockAnswer] at hlock
    split at hlock
    · cases hlock
    · cases hlock
      exact .inl ((bumps_incrExists s exists?).counts h)
  | openmode =>
    cases hlock
    exact .inl ((bumps_incrExists s exists?).counts h)
  | clear =>
    rw [h.statesOf_eq e]
    exact .inr ⟨hclear rfl, hlock⟩

/-- A LOCK of an owner that has the lock counts nothing. -/
lemma lockLockOwner_counts {stateidSeqid lockSeqid : UInt32} {other : Other} {res : LockRes}
    (h : Valid s chain) (hlock : lockLockOwner s e stateidSeqid other lockSeqid = some (res, s')) :
    Counts s s' chain L := by
  have hout := lockLockOwner_outcome h hlock
  refine hout.counts ?_
  unfold lockLockOwner at hlock
  split at hlock
  next =>
    cases hlock
    exact .refl s _
  next p _ =>
    split at hlock
    next =>
      cases hlock
      exact .refl s _
    next =>
      have hseqid : DataKept s (s.setState p fun st => { st with seqid := st.seqid + 1 })
          (used chain) := by
        intro q _
        rw [setState_states]
        split_ifs with heq
        · rw [heq]
        · rfl
      dsimp only at hlock
      split at hlock
      next =>
        cases hlock
        exact hseqid
      next =>
        cases hlock
        exact hseqid

/-- LOCK, when the lock state gets into the table. -/
theorem nfs4OpLock_counts {args : LockArgs} {env : LockEnv} {res : LockRes} (h : Valid s chain)
    (hset : ∀ name, args.Grants s e name env → env.stateSetOk = true)
    (hlock : nfs4OpLock s e args env = some (res, s')) :
    Counts s s' chain fun e' => e' = e ∧ ∃ name, args.Grants s e name env := by
  unfold nfs4OpLock at hlock
  split at hlock
  next =>
    cases hlock
    exact .keeps h (.refl s _) (.refl s _)
  next hnone =>
    split at hlock
    next =>
      cases hlock
      exact .keeps h (.refl s _) (.refl s _)
    next hrange =>
      cases hlocker : args.locker with
      | openOwner openSeqid stateidSeqid other lockSeqid name =>
        simp only [hlocker, lockExists, lockOpen] at hlock
        cases hopen : cacheInodeGetState s other with
        | none =>
          simp only [hopen] at hlock
          cases hlock
          exact .keeps h (.refl s _) (.refl s _)
        | some popen =>
          simp only [hopen] at hlock
          obtain ⟨entry, hentry, hlock⟩ := Option.bind_eq_some_iff.mp hlock
          split_ifs at hlock
          obtain ⟨scan, hscan, hlock⟩ := Option.bind_eq_some_iff.mp hlock
          rcases lockScan_counts h hentry hscan hlock with hcounts | ⟨hclear, hlock⟩
          · exact hcounts
          unfold lockOpenOwner at hlock
          split at hlock
          next =>
            cases hlock
            exact .keeps h (.refl s _) (.refl s _)
          next hchecks =>
            have hopen' : s.htStateId other = some popen := hopen
            obtain ⟨hshare, hpentry⟩ := lockOpenOwnerChecks_open hchecks
            obtain ⟨e', hmem⟩ := (h.table other popen hopen').2
            have he : e' = e := Option.some.inj ((h.pentry e' popen hmem).symm.trans hpentry)
            rw [he] at hmem
            have hgrants : args.Grants s e name env := by
              refine ⟨⟨hnone, hrange, ?_⟩, ⟨_, _, _, _, hlocker⟩, hclear⟩
              simp only [hlocker, hopen', hentry, Option.any_some, hchecks, decide_true]
            exact lockNewOwner_counts h hmem hshare (hset name hgrants) ⟨rfl, name, hgrants⟩ hlock
      | lockOwner stateidSeqid other lockSeqid =>
        simp only [hlocker, lockExists, lockOpen] at hlock
        split at hlock
        next =>
          cases hlock
          exact .keeps h (.refl s _) (.refl s _)
        next exists? _ =>
          obtain ⟨entry, hentry, hlock⟩ := Option.bind_eq_some_iff.mp hlock
          split_ifs at hlock
          obtain ⟨scan, hscan, hlock⟩ := Option.bind_eq_some_iff.mp hlock
          rcases lockScan_counts h hentry hscan hlock with hcounts | ⟨-, hlock⟩
          · exact hcounts
          · exact lockLockOwner_counts h hlock

/-- LOCKU. -/
theorem nfs4OpLocku_counts {args : LockuArgs} {filehandle : Option NfsStat} {clientKnown : Bool}
    {res : NfsStat} (h : Valid s chain) (hfh : filehandle ≠ some .ok)
    (hlocku : nfs4OpLocku s e args filehandle clientKnown = some (res, s')) :
    Counts s s' chain L := by
  have hout := nfs4OpLocku_outcome h hfh hlocku
  unfold nfs4OpLocku at hlocku
  split at hlocku
  next =>
    cases hlocku
    exact .keeps h (.refl s _) (.refl s _)
  next =>
    split at hlocku
    next =>
      cases hlocku
      exact .keeps h (.refl s _) (.refl s _)
    next =>
      obtain ⟨entry, hentry, hlocku⟩ := Option.bind_eq_some_iff.mp hlocku
      split at hlocku
      next =>
        split at hlocku
        next =>
          cases hlocku
          exact .keeps h (.refl s _) (.refl s _)
        next p hp =>
          split at hlocku
          next =>
            cases hlocku
            exact .keeps h (.refl s _) (.refl s _)
          next =>
            split at hlocku
            next => cases hlocku
            next type offset length popen hd =>
              obtain ⟨data, hdata, hlocku⟩ := Option.bind_eq_some_iff.mp hlocku
              obtain ⟨o, -, hlocku⟩ := Option.bind_eq_some_iff.mp hlocku
              obtain ⟨e', hmem⟩ := (h.table _ p hp).2
              have hne : popen ≠ p := by
                rintro rfl
                rw [hd] at hdata
                cases hdata
              obtain ⟨hv₁, hs₁⟩ := h.touchLockheld (g := fun seqid => seqid + 1) hdata
              set s₁ := s.setState popen fun st => { st with seqid := st.seqid + 1, data := data }
                with hs₁eq
              obtain ⟨hv₂, hs₂⟩ := hv₁.touchSeqid (p := p) (f := fun seqid => seqid + 1)
              set s₂ := s₁.setState p fun st => { st with seqid := st.seqid + 1 } with hs₂eq
              obtain ⟨hv₃, -⟩ := hv₂.setOwner (o := (s₂.states p).powner)
                (f := fun owner => { owner with seqid := owner.seqid + 1 }) fun _ => rfl
              obtain ⟨hv₄, -⟩ := hv₃.setOwner (o := o)
                (f := fun owner => { owner with seqid := owner.seqid + 1 }) fun _ => rfl
              have hother : (s₂.states p).stateidOther = args.stateidOther := by
                rw [((hs₁.trans hs₂ le_rfl).same p ⟨e', hmem⟩).other, (h.table _ p hp).1]
              obtain ⟨s₅, hdel, hdeletes⟩ := cacheInodeDelState_spec (q := p) hv₄.toShape hmem
                (show s.htStateId (s₂.states p).stateidOther = some p by rw [hother]; exact hp)
              have hlocku' := (congrArg (Option.map _) hdel).symm.trans hlocku
              obtain ⟨rfl, rfl⟩ := Prod.mk.inj (Option.some.inj hlocku')
              -- the other states have the data that they have in `s₁`
              have hdata' : ∀ q ≠ p, (s₅.states q).data = (s₁.states q).data := by
                intro q hq
                have hcore := (State.core_eq.mp (hdeletes.core q hq)).2.1
                refine hcore.trans ?_
                show (s₂.states q).data = _
                rw [hs₂eq, setState_states_of_ne _ hq]
              cases hout with
              | keeps hres _ _ => exact absurd rfl hres
              | adds _ _ _ _ _ hG => exact hG.elim
              | deletes e'' p' hp' hv hs hD =>
                have hpp : p = p' := Option.some.inj (hp.symm.trans hD.2.2.2.1)
                rw [← hpp] at hp' hv hs
                refine .unlocks e'' p popen hp' hv hs ?_ ?_ fun q hq => ?_
                · rw [hd]
                  rfl
                · rw [hdata' popen hne, hs₁eq, setState_states_self]
                  exact hdata
                · rw [hdata' q fun heq => hq.2 (.inl heq), hs₁eq,
                    setState_states_of_ne _ fun heq => hq.2 (.inr heq)]
      next =>
        cases hlocku
        exact .keeps h (.refl s _) (.refl s _)

/-! ## The counts are right -/

/-- The locks of a list that were taken through the open `p`. -/
def locksThrough (s : Server) (p : ℕ) (l : List ℕ) : ℕ :=
  l.countP fun q => (s.states q).data.popenstate = some p

/-- In a list of states the count of each open is that of its locks, and the open of each lock is an
open of the list. -/
structure Accounts (s : Server) (l : List ℕ) : Prop where
  held : ∀ p ∈ l, (s.states p).type = .share → (s.states p).data.lockheld = locksThrough s p l
  refers : ∀ q ∈ l, ∀ popen, (s.states q).data.popenstate = some popen →
    popen ∈ l ∧ (s.states popen).type = .share

lemma locksThrough_congr {l : List ℕ}
    (h : ∀ q ∈ l, (s'.states q).data.popenstate = (s.states q).data.popenstate) :
    locksThrough s' p l = locksThrough s p l := by
  apply List.countP_congr
  intro q hq
  rw [h q hq]

lemma locksThrough_eq_zero {l : List ℕ}
    (h : ∀ q ∈ l, (s.states q).data.popenstate ≠ some p) : locksThrough s p l = 0 := by
  rw [locksThrough, List.countP_eq_zero]
  intro q hq
  simpa using h q hq

lemma locksThrough_append {l : List ℕ} :
    locksThrough s p (l ++ [q]) =
      locksThrough s p l + if (s.states q).data.popenstate = some p then 1 else 0 := by
  rw [locksThrough, locksThrough, List.countP_append, List.countP_singleton]
  simp only [decide_eq_true_eq]

lemma locksThrough_erase {l : List ℕ} (hq : q ∈ l) :
    locksThrough s p l =
      locksThrough s p (l.erase q) + if (s.states q).data.popenstate = some p then 1 else 0 := by
  rw [locksThrough, locksThrough, (List.perm_cons_erase hq).countP_eq, List.countP_cons]
  simp only [decide_eq_true_eq]

lemma popenstate_setLockheld {data data' : StateData} {f : UInt32 → UInt32}
    (h : data.setLockheld f = some data') :
    data'.popenstate = none ∧ data.popenstate = none ∧
      ∃ held : UInt32, data.lockheld = held.toNat ∧ data'.lockheld = (f held).toNat := by
  cases data with
  | share verifier access deny held =>
    cases h
    exact ⟨rfl, rfl, held, rfl, rfl⟩
  | lock => cases h

section Lists

variable {l : List ℕ}

lemma Accounts.congr (h : Accounts s l) (htype : ∀ q ∈ l, (s'.states q).type = (s.states q).type)
    (hdata : ∀ q ∈ l, (s'.states q).data = (s.states q).data) : Accounts s' l where
  held p hp hshare := by
    rw [htype p hp] at hshare
    rw [hdata p hp, h.held p hp hshare]
    exact (locksThrough_congr fun q hq => by rw [hdata q hq]).symm
  refers q hq popen hpopen := by
    rw [hdata q hq] at hpopen
    obtain ⟨hmem, hshare⟩ := h.refers q hq popen hpopen
    rw [htype popen hmem]
    exact ⟨hmem, hshare⟩

/-- A new open holds no lock. -/
lemma Accounts.opens (h : Accounts s l) (hp : p ∉ l) (hpopen : (s.states p).data.popenstate = none)
    (hheld : (s.states p).data.lockheld = 0) : Accounts s (l ++ [p]) where
  held q hq hshare := by
    rw [locksThrough_append, hpopen, if_neg nofun, Nat.add_zero]
    rcases List.mem_append.mp hq with hq | hq
    · exact h.held q hq hshare
    · -- the open of a lock is in the list, and the new state was not
      rw [List.mem_singleton.mp hq, hheld]
      refine (locksThrough_eq_zero fun r hr heq => ?_).symm
      exact hp (h.refers r hr p heq).1
  refers q hq popen hq' := by
    rcases List.mem_append.mp hq with hq | hq
    · obtain ⟨hmem, hshare⟩ := h.refers q hq popen hq'
      exact ⟨List.mem_append_left _ hmem, hshare⟩
    · rw [List.mem_singleton.mp hq, hpopen] at hq'
      cases hq'

/-- A new lock is counted by its open. -/
lemma Accounts.locks (h : Accounts s l) (hmem : popen ∈ l)
    (htype : ∀ q ∈ l, (s'.states q).type = (s.states q).type)
    (hlock : (s'.states p).type = .lock) (hshare : (s.states popen).type = .share)
    (hpopen : (s'.states p).data.popenstate = some popen)
    (hheld : (s.states popen).data.setLockheld (· + 1) = some (s'.states popen).data)
    (hdata : ∀ q ∈ l, q ≠ popen → (s'.states q).data = (s.states q).data)
    (hfew : locksThrough s popen l + 1 < 2 ^ 32) : Accounts s' (l ++ [p]) := by
  obtain ⟨hnone', hnone, held, hold, hnew⟩ := popenstate_setLockheld hheld
  have hsame : ∀ q ∈ l, (s'.states q).data.popenstate = (s.states q).data.popenstate := by
    intro q hq
    rcases eq_or_ne q popen with rfl | hne
    · rw [hnone, hnone']
    · rw [hdata q hq hne]
  constructor
  · intro q hq hq'
    rw [locksThrough_append, hpopen, locksThrough_congr hsame]
    rcases List.mem_append.mp hq with hq | hq
    · rw [htype q hq] at hq'
      have hcount := h.held q hq hq'
      rcases eq_or_ne q popen with rfl | hne
      · rw [if_pos rfl, hnew, ← hcount, hold]
        rw [← hcount, hold] at hfew
        rw [UInt32.toNat_add]
        exact Nat.mod_eq_of_lt hfew
      · rw [hdata q hq hne, if_neg fun heq => hne (Option.some.inj heq).symm, Nat.add_zero]
        exact hcount
    · rw [List.mem_singleton.mp hq, hlock] at hq'
      cases hq'
  · intro q hq r hr
    rcases List.mem_append.mp hq with hq | hq
    · rw [hsame q hq] at hr
      obtain ⟨hr', hshare'⟩ := h.refers q hq r hr
      rw [htype r hr']
      exact ⟨List.mem_append_left _ hr', hshare'⟩
    · rw [List.mem_singleton.mp hq, hpopen] at hr
      obtain rfl := Option.some.inj hr
      rw [htype popen hmem]
      exact ⟨List.mem_append_left _ hmem, hshare⟩

/-- An open without locks may go. -/
lemma Accounts.closes (h : Accounts s l) (hp : p ∈ l)
    (hshare : (s.states p).type = .share) (hpopen : (s.states p).data.popenstate = none)
    (hheld : (s.states p).data.lockheld = 0) : Accounts s (l.erase p) := by
  have hnot : ∀ q ∈ l, (s.states q).data.popenstate ≠ some p := by
    have hzero := (h.held p hp hshare).symm.trans hheld
    rw [locksThrough, List.countP_eq_zero] at hzero
    intro q hq
    simpa using hzero q hq
  constructor
  · intro q hq hq'
    have hcount := locksThrough_erase (s := s) (p := q) hp
    rw [hpopen, if_neg nofun, Nat.add_zero] at hcount
    rw [← hcount]
    exact h.held q (List.mem_of_mem_erase hq) hq'
  · intro q hq r hr
    have hq := List.mem_of_mem_erase hq
    obtain ⟨hr', hshare'⟩ := h.refers q hq r hr
    have hne : r ≠ p := fun heq => hnot q hq (heq ▸ hr)
    exact ⟨(List.mem_erase_of_ne hne).mpr hr', hshare'⟩

/-- A lock that goes is taken off its open. -/
lemma Accounts.unlocks (h : Accounts s l) (hnd : l.Nodup) (hp : p ∈ l)
    (hlock : (s.states p).type ≠ .share)
    (hpopen : (s.states p).data.popenstate = some popen)
    (htype : ∀ q ∈ l, q ≠ p → (s'.states q).type = (s.states q).type)
    (hheld : (s.states popen).data.setLockheld decrHeld = some (s'.states popen).data)
    (hdata : ∀ q ∈ l, q ≠ p → q ≠ popen → (s'.states q).data = (s.states q).data) :
    Accounts s' (l.erase p) := by
  obtain ⟨hnone', hnone, held, hold, hnew⟩ := popenstate_setLockheld hheld
  -- the states of the other opens keep their data
  have hsame : ∀ q ∈ l.erase p,
      (s'.states q).data.popenstate = (s.states q).data.popenstate := by
    intro q hq
    obtain ⟨hne, hq⟩ := hnd.mem_erase_iff.mp hq
    rcases eq_or_ne q popen with rfl | hne'
    · rw [hnone, hnone']
    · rw [hdata q hq hne hne']
  constructor
  · intro q hq hq'
    rw [locksThrough_congr hsame]
    obtain ⟨hne, hq⟩ := hnd.mem_erase_iff.mp hq
    rw [htype q hq hne] at hq'
    have hcount := locksThrough_erase (s := s) (p := q) hp
    rw [hpopen, ← h.held q hq hq'] at hcount
    rcases eq_or_ne q popen with rfl | hne'
    · rw [if_pos rfl, hold] at hcount
      have hpos : held > 0 := by
        rw [gt_iff_lt, UInt32.lt_iff_toNat_lt, hcount]
        exact Nat.succ_pos _
      have hone : (1 : UInt32) ≤ held := by
        rw [UInt32.le_iff_toNat_le, hcount]
        exact Nat.le_add_left 1 _
      rw [hnew, decrHeld, if_pos hpos, UInt32.toNat_sub_of_le _ _ hone, hcount]
      rfl
    · rw [if_neg fun heq => hne' (Option.some.inj heq).symm, Nat.add_zero] at hcount
      rw [hdata q hq hne hne']
      exact hcount
  · intro q hq r hr
    rw [hsame q hq] at hr
    obtain ⟨hne, hq⟩ := hnd.mem_erase_iff.mp hq
    obtain ⟨hr', hshare⟩ := h.refers q hq r hr
    have hrp : r ≠ p := fun heq => hlock (heq ▸ hshare)
    rw [htype r hr' hrp]
    exact ⟨(List.mem_erase_of_ne hrp).mpr hr', hshare⟩

end Lists

/-- A share state has no open state. -/
lemma State.Sound.popenstate {st : State} (h : st.Sound) (htype : st.type = .share) :
    st.data.popenstate = none := by
  unfold State.Sound at h
  rw [htype] at h
  cases hd : st.data with
  | share => rfl
  | lock =>
    rw [hd] at h
    cases h

/-- What a request keeps. A lock is counted if the count does not overflow. -/
theorem Counts.accounts (h : Counts s s' chain L) (hv : Valid s chain)
    (ha : ∀ e, Accounts s (chain e))
    (hfew : ∀ e, L e → ∀ p ∈ chain e, locksThrough s p (chain e) + 1 < 2 ^ 32) :
    ∃ chain', Valid s' chain' ∧ ∀ e, Accounts s' (chain' e) := by
  cases h with
  | keeps hv' hs hd =>
    refine ⟨chain, hv', fun e => (ha e).congr (fun q hq => ?_) fun q hq => hd q ⟨e, hq⟩⟩
    exact (hs.same q ⟨e, hq⟩).type
  | opens e p hp hv' hs hd hpopen hheld =>
    have hsame : ∀ e', Accounts s' (chain e') := fun e' =>
      (ha e').congr (fun q hq => (hs.same q ⟨e', hq⟩).type) fun q hq => hd q ⟨e', hq⟩
    refine ⟨_, hv', fun e' => ?_⟩
    rcases eq_or_ne e' e with rfl | hne
    · rw [extend_self]
      exact (hsame e').opens (fun hmem => hp ⟨e', hmem⟩) hpopen hheld
    · rw [extend_of_ne hne]
      exact hsame e'
  | locks e p popen hL hp hv' hs hmem hshare htype hpopen hheld hd =>
    refine ⟨_, hv', fun e' => ?_⟩
    rcases eq_or_ne e' e with rfl | hne
    · rw [extend_self]
      refine (ha e').locks hmem (fun q hq => (hs.same q ⟨e', hq⟩).type) htype hshare hpopen hheld
        (fun q hq hne => hd q ⟨⟨e', hq⟩, hne⟩) (hfew e' hL popen hmem)
    · rw [extend_of_ne hne]
      refine (ha e').congr (fun q hq => (hs.same q ⟨e', hq⟩).type) fun q hq => ?_
      -- the open of the lock is in the list of its file only
      have hqne : q ≠ popen := fun heq => hne (hv.eq_of_mem (heq ▸ hq) hmem)
      exact hd q ⟨⟨e', hq⟩, hqne⟩
  | closes e p hp hv' hs hd hshare hheld =>
    refine ⟨_, hv', fun e' => ?_⟩
    rcases eq_or_ne e' e with rfl | hne
    · rw [shrink_self]
      have hless := (ha e').closes hp hshare ((hv.sound e' p hp).popenstate hshare) hheld
      refine hless.congr (fun q hq => ?_) fun q hq => ?_
      · obtain ⟨hne, hq⟩ := (hv.nodup e').mem_erase_iff.mp hq
        exact (hs.same q ⟨⟨e', hq⟩, hne⟩).type
      · obtain ⟨hne, hq⟩ := (hv.nodup e').mem_erase_iff.mp hq
        exact hd q ⟨⟨e', hq⟩, hne⟩
    · rw [shrink_of_ne hne]
      have hqne : ∀ q ∈ chain e', q ≠ p := fun q hq heq => hne (hv.eq_of_mem (heq ▸ hq) hp)
      exact (ha e').congr (fun q hq => (hs.same q ⟨⟨e', hq⟩, hqne q hq⟩).type) fun q hq =>
        hd q ⟨⟨e', hq⟩, hqne q hq⟩
  | unlocks e p popen hp hv' hs hpopen hheld hd =>
    obtain ⟨hmem, hshare⟩ := (ha e).refers p hp popen hpopen
    have hlock : (s.states p).type ≠ .share := by
      intro htype
      rw [(hv.sound e p hp).popenstate htype] at hpopen
      cases hpopen
    refine ⟨_, hv', fun e' => ?_⟩
    rcases eq_or_ne e' e with rfl | hne
    · rw [shrink_self]
      refine (ha e').unlocks (hv.nodup e') hp hlock hpopen (fun q hq hne => ?_) hheld
        fun q hq hne hne' => ?_
      · exact (hs.same q ⟨⟨e', hq⟩, hne⟩).type
      · exact hd q ⟨⟨e', hq⟩, fun heq => heq.elim hne hne'⟩
    · rw [shrink_of_ne hne]
      have hqne : ∀ q ∈ chain e', q ≠ p ∧ q ≠ popen := fun q hq =>
        ⟨fun heq => hne (hv.eq_of_mem (heq ▸ hq) hp), fun heq => hne (hv.eq_of_mem (heq ▸ hq) hmem)⟩
      refine (ha e').congr (fun q hq => (hs.same q ⟨⟨e', hq⟩, (hqne q hq).1⟩).type) fun q hq => ?_
      exact hd q ⟨⟨e', hq⟩, fun heq => heq.elim (hqne q hq).1 (hqne q hq).2⟩

/-! ## Runs -/

/-- A lock state that is added gets into the table, and no open comes to hold 2^32 locks. -/
def LockCounted (s : Server) : Event → Prop
  | .opLock e args env => ∀ name, args.Grants s e name env → env.stateSetOk = true ∧
      ∀ p ∈ statesOf s e, locksThrough s p (statesOf s e) + 1 < 2 ^ 32
  | _ => True

/-- What one step does to the counts. -/
theorem step_counts {ev : Event} (h : Valid s chain) (hpos : Possible s ev) (hcounted : LockCounted s ev)
    (hstep : step s ev = some s') :
    Counts s s' chain fun e => ∀ p ∈ statesOf s e, locksThrough s p (statesOf s e) + 1 < 2 ^ 32 := by
  cases ev with
  | load e type digest =>
    simp only [step] at hstep
    split_ifs at hstep with he
    cases hstep
    exact .keeps (h.load he type digest) ⟨fun q _ => .refl _, fun _ _ ho => ho⟩ fun _ _ => rfl
  | opOpen args env =>
    obtain ⟨⟨res, s''⟩, hopen, rfl⟩ := Option.map_eq_some_iff.mp hstep
    refine nfs4OpOpen_counts h (fun e digest hc => ?_) hopen
    have hcreate := hpos.2.2
    rw [hc] at hcreate
    exact Option.isNone_iff_eq_none.mp hcreate
  | opClose e other env =>
    obtain ⟨⟨res, s''⟩, hclose, rfl⟩ := Option.map_eq_some_iff.mp hstep
    exact nfs4OpClose_counts h hclose
  | opLock e args env =>
    obtain ⟨⟨res, s''⟩, hlock, rfl⟩ := Option.map_eq_some_iff.mp hstep
    refine (nfs4OpLock_counts h (fun name hg => (hcounted name hg).1) hlock).mono fun e' hL => ?_
    obtain ⟨rfl, name, hg⟩ := hL
    exact (hcounted name hg).2
  | opLocku e args filehandle clientKnown =>
    obtain ⟨⟨res, s''⟩, hlocku, rfl⟩ := Option.map_eq_some_iff.mp hstep
    exact nfs4OpLocku_counts h hpos hlocku

/-- The live locks that were taken through the open `p`, on any file. -/
def liveLocks (s : Server) (p : ℕ) : Set ℕ :=
  {q | ∃ e, q ∈ statesOf s e ∧ (s.states q).type = .lock ∧ (s.states q).data.popenstate = some p}

/-- The counts are right: each open has the number of the live locks taken through it, the open of a
live lock is live, and an open with live locks is not closed. -/
structure LocksCounted (s : Server) : Prop where
  held : ∀ e, ∀ p ∈ statesOf s e, (s.states p).type = .share →
    (s.states p).data.lockheld = (liveLocks s p).ncard
  live : ∀ e, ∀ q ∈ statesOf s e, (s.states q).type = .lock →
    ∃ p ∈ statesOf s e, (s.states q).data.popenstate = some p ∧ (s.states p).type = .share
  refused : ∀ e other env entry p, env.filehandle = none → s.entries e = some entry →
    entry.type = .regular → nfs4CheckStateid s other .regular env.clientKnown = .ok →
    s.htStateId other = some p → (liveLocks s p).Nonempty →
    nfs4OpClose s e other env = some (.locksHeld, s)

/-- A lock state is one that has an open. -/
lemma State.Sound.lock_iff {st : State} (h : st.Sound) :
    st.type = .lock ↔ ∃ popen, st.data.popenstate = some popen := by
  unfold State.Sound at h
  cases hd : st.data with
  | share =>
    rw [hd] at h
    constructor
    · intro htype
      rw [htype] at h
      cases h
    · rintro ⟨popen, hpopen⟩
      cases hpopen
  | lock type offset length popen =>
    refine ⟨fun _ => ⟨popen, rfl⟩, fun _ => ?_⟩
    rw [hd] at h
    cases ht : st.type <;> rw [ht] at h <;> first | rfl | cases h

/-- The live locks of an open are those of its list. -/
lemma Valid.ncard_liveLocks (h : Valid s chain) (ha : ∀ e, Accounts s (chain e)) (hp : p ∈ chain e) :
    (liveLocks s p).ncard = locksThrough s p (chain e) := by
  have heq : liveLocks s p =
      ((chain e).filter fun q => (s.states q).data.popenstate = some p).toFinset := by
    ext q
    simp only [liveLocks, Set.mem_ofPred_eq, List.coe_toFinset, List.mem_filter, decide_eq_true_eq]
    constructor
    · rintro ⟨e', hq, -, hpopen⟩
      rw [h.statesOf_eq] at hq
      have he : e' = e := h.eq_of_mem ((ha e').refers q hq p hpopen).1 hp
      exact ⟨he ▸ hq, hpopen⟩
    · rintro ⟨hq, hpopen⟩
      refine ⟨e, ?_, (h.sound e q hq).lock_iff.mpr ⟨p, hpopen⟩, hpopen⟩
      rw [h.statesOf_eq]
      exact hq
  rw [heq, Set.ncard_coe_finset, List.toFinset_card_of_nodup ((h.nodup e).filter _), locksThrough,
    List.countP_eq_length_filter]

/-- The counts are right if they are in every list. -/
lemma Valid.locksCounted (h : Valid s chain) (ha : ∀ e, Accounts s (chain e)) : LocksCounted s where
  held e p hp hshare := by
    rw [h.statesOf_eq] at hp
    rw [h.ncard_liveLocks ha hp]
    exact (ha e).held p hp hshare
  live e q hq hlock := by
    rw [h.statesOf_eq] at hq ⊢
    obtain ⟨popen, hpopen⟩ := (h.sound e q hq).lock_iff.mp hlock
    obtain ⟨hmem, hshare⟩ := (ha e).refers q hq popen hpopen
    exact ⟨popen, hmem, hpopen, hshare⟩
  refused e other env entry p hfh hentry hregular hcheck hp hlocks := by
    obtain ⟨q, e', hq, -, hpopen⟩ := hlocks
    rw [h.statesOf_eq] at hq
    obtain ⟨hmem, hshare⟩ := (ha e').refers q hq p hpopen
    have hheld : (s.states p).data.lockheld > 0 := by
      rw [(ha e').held p hmem hshare, locksThrough, gt_iff_lt, List.countP_pos_iff]
      exact ⟨q, hq, decide_eq_true hpopen⟩
    simp only [nfs4OpClose, hfh, hentry, Option.bind_some, hregular, hcheck, cacheInodeGetState, hp,
      if_pos hheld]

/-- In every run in which the added lock states get into the table and no open comes to hold 2^32
locks, the counts are right. -/
theorem lockheld_eq (h₀ : Initial s₀)
    (h : ReachableBy step (fun s ev => Possible s ev ∧ LockCounted s ev) s₀ s) : LocksCounted s := by
  have hinv : ∃ chain, Valid s chain ∧ ∀ e, Accounts s (chain e) := by
    refine h.invariant (I := fun s => ∃ chain, Valid s chain ∧ ∀ e, Accounts s (chain e)) ?_ ?_
    · exact ⟨_, h₀.valid, fun _ => ⟨nofun, nofun⟩⟩
    · rintro s ev s' ⟨chain, hv, ha⟩ ⟨hpos, hcounted⟩ hstep
      refine (step_counts hv hpos hcounted hstep).accounts hv ha fun e hL => ?_
      rw [hv.statesOf_eq] at hL
      exact hL
  obtain ⟨chain, hv, ha⟩ := hinv
  exact hv.locksCounted ha

/-- What is enough for a LOCK to be counted. -/
def lockCounted (s : Server) : Event → Bool
  | .opLock e _ env => env.stateSetOk &&
      decide (∀ p ∈ statesOf s e, locksThrough s p (statesOf s e) + 1 < 2 ^ 32)
  | _ => true

/-- The check implies the condition. -/
lemma lockCounted_sound {ev : Event} (h : lockCounted s ev = true) : LockCounted s ev := by
  cases ev with
  | opLock e args env =>
    rw [lockCounted, Bool.and_eq_true, decide_eq_true_eq] at h
    exact fun _ _ => h
  | load => trivial
  | opOpen => trivial
  | opClose => trivial
  | opLocku => trivial

/-- Two locks are taken through one open, and one of them is given back. -/
theorem lockheld_eq_after_two_locks :
    ∃ s, execute step freshServer [openForLocks, writeLock 0 1 10 10, writeLock 1 2 20 10,
        .opLocku 7 ⟨0, 0, ⟨1, 42, 2⟩, 10, 10⟩ none true] = some s ∧
      (s.states 0).type = .share ∧ (s.states 0).data.lockheld = 1 ∧ LocksCounted s := by
  have hrun : (execute step freshServer [openForLocks, writeLock 0 1 10 10, writeLock 1 2 20 10,
      .opLocku 7 ⟨0, 0, ⟨1, 42, 2⟩, 10, 10⟩ none true]).any (fun s =>
        decide ((s.states 0).type = .share) && decide ((s.states 0).data.lockheld = 1)) = true := by
    decide +kernel
  rw [Option.any_eq_true] at hrun
  obtain ⟨s, hs, hvalues⟩ := hrun
  simp only [Bool.and_eq_true, decide_eq_true_eq] at hvalues
  have hmeets : Meets step (fun s ev => Possible s ev ∧ lockCounted s ev = true) freshServer
      [openForLocks, writeLock 0 1 10 10, writeLock 1 2 20 10,
        .opLocku 7 ⟨0, 0, ⟨1, 42, 2⟩, 10, 10⟩ none true] := by
    decide +kernel
  refine ⟨s, hs, hvalues.1, hvalues.2, lockheld_eq freshServer_initial ?_⟩
  exact reachableBy_of_execute hs (hmeets.mono fun _ _ h => ⟨h.1, lockCounted_sound h.2⟩)

/-- The table of states has no room for a lock, and the open is closed under it. -/
theorem not_locksCounted_after_failed_lock :
    ¬ ∀ s₀ s, Initial s₀ → ReachableBy step Possible s₀ s → LocksCounted s := by
  intro h
  let events : List Event := [openForLocks,
    .opLock 7 ⟨.write, 10, 10, .openOwner 0 0 ⟨1, 42, 1⟩ 0 ⟨1, [1]⟩⟩
      ⟨none, true, true, true, true, false⟩, .opClose 7 ⟨1, 42, 1⟩ ⟨none, true, .success⟩]
  have hrun : (execute step freshServer events).any (fun s =>
      decide (statesOf s 7 = [1]) && decide ((s.states 1).type = .lock) &&
        decide ((s.states 1).data.popenstate = some 0)) = true := by
    decide +kernel
  rw [Option.any_eq_true] at hrun
  obtain ⟨s, hs, hvalues⟩ := hrun
  simp only [Bool.and_eq_true, decide_eq_true_eq] at hvalues
  obtain ⟨⟨hlist, htype⟩, hpopen⟩ := hvalues
  have hcounted := h freshServer s freshServer_initial (reachableBy_of_execute hs (by decide +kernel))
  obtain ⟨p, hp, hpopen', -⟩ := hcounted.live 7 1 (by rw [hlist]; exact List.mem_singleton_self 1) htype
  -- the open of the lock is the state 0, which is not in the list
  rw [hpopen] at hpopen'
  rw [hlist, ← Option.some.inj hpopen', List.mem_singleton] at hp
  cases hp

end Ganesha.Nfs4
