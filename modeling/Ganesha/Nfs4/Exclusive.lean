import Mathlib.Data.List.Find
import Ganesha.Nfs4.Runs

/-!
# Exclusive creation

An OPEN with `EXCLUSIVE4` is told from its retransmission by an 8-byte verifier. The verifier is
stored with `strncpy` and compared with `memcmp`; and the seqid of the stateid is that of the owner
when the file is created and that of the state when the request is replayed.
-/

namespace Ganesha.Nfs4
open Library.Transition

variable {s s₁ s₂ s' s₀ : Server} {chain chain₁ : ℕ → List ℕ} {e p q o : ℕ} {entry : Entry}
  {args : OpenArgs} {env : OpenEnv} {res : OpenRes}

/-! ## Verifiers -/

/-- After the first byte zero all bytes are zero. -/
def Terminated (verifier : List UInt8) : Prop := ∀ b ∈ verifier.dropWhile (· ≠ 0), b = 0

instance Terminated.decidable (verifier : List UInt8) : Decidable (Terminated verifier) :=
  show Decidable (∀ b ∈ verifier.dropWhile (· ≠ 0), b = 0) from List.decidableBAll _ _

/-- The verifier survives `strncpy` if no byte follows a zero that is not zero. -/
lemma strncpyVerifier_eq_iff {verifier : List UInt8} (hlen : verifier.length = 8) :
    strncpyVerifier verifier = verifier ↔ Terminated verifier := by
  have hsplit := List.takeWhile_append_dropWhile
    (p := fun b : UInt8 => decide (b ≠ 0)) (l := verifier)
  have hlen' := congrArg List.length hsplit
  rw [List.length_append, hlen] at hlen'
  have hcopy : strncpyVerifier verifier = verifier.takeWhile (· ≠ 0) ++
      List.replicate (verifier.dropWhile (· ≠ 0)).length 0 := by
    rw [strncpyVerifier, ← hlen, List.take_length]
    congr 2
    omega
  rw [hcopy]
  nth_rewrite 3 [← hsplit]
  rw [List.append_cancel_left_eq, Terminated]
  constructor
  · intro heq b hb
    rw [← heq] at hb
    exact List.eq_of_mem_replicate hb
  · intro hzero
    exact (List.eq_replicate_of_mem hzero).symm

/-! ## The loop -/

/-- The state is that of a former open of the request. -/
def OpenArgs.Former (args : OpenArgs) (s : Server) (q : ℕ) : Bool :=
  (s.states q).type = .share ∧ args.sameBytes (s.owners (s.states q).powner).name.ownerVal ∧
    (s.states q).data.oexclVerifier = args.createverf

/-- The loop answers for the first state that is that of a former call. -/
lemma exclusiveLoop_eq {fuel : ℕ} {l₁ l₂ : List ℕ} (args : OpenArgs) (h : Shape s chain)
    (hentry : s.entries e = some entry) (hdigest : entry.digest ≠ none)
    (hchain : chain e = l₁ ++ l₂) (hfuel : l₂.length < fuel) :
    exclusiveLoop s e entry args fuel l₁.getLast? =
      some (.success, l₂.find? (args.Former s)) := by
  induction l₂ generalizing l₁ fuel with
  | nil =>
    obtain ⟨fuel, rfl⟩ : ∃ n, fuel = n + 1 := ⟨fuel - 1, by omega⟩
    simp only [exclusiveLoop, h.iterate_eq hentry hchain hdigest, List.head?_nil, List.find?_nil]
  | cons p l₂ ih =>
    obtain ⟨fuel, rfl⟩ : ∃ n, fuel = n + 1 := ⟨fuel - 1, by omega⟩
    have hchain' : chain e = (l₁ ++ [p]) ++ l₂ := by rw [hchain, List.append_assoc]; rfl
    have hrec := ih hchain' (by simpa using hfuel)
    rw [List.getLast?_concat] at hrec
    simp only [exclusiveLoop, h.iterate_eq hentry hchain hdigest, List.head?_cons, List.find?_cons,
      OpenArgs.Former]
    split_ifs with hformer
    · rw [decide_eq_true hformer]
    · rw [decide_eq_false hformer, hrec]

/-- The answer when the states of the file are `l`. -/
def OpenArgs.answer (args : OpenArgs) (s : Server) (l : List ℕ) : OpenRes :=
  match l.find? (args.Former s) with
  | some p => { status := .ok, stateid := some ((s.states p).seqid, (s.states p).stateidOther) }
  | none => { status := .exist }

/-- The answer to a file that has states. -/
lemma openExclusive_answer (args : OpenArgs) (h : Shape s chain) (hentry : s.entries e = some entry)
    (hreg : entry.type = .regular) (hne : chain e ≠ []) (hfinish : env.finish = none) :
    openExclusive s e args env = some (args.answer s (chain e), s) := by
  have hdigest := h.digest e entry hentry hne
  have hloop := exclusiveLoop_eq args h hentry hdigest (List.nil_append (chain e)).symm
    (Nat.lt_succ_of_le (h.allocs e))
  rw [List.getLast?_nil] at hloop
  simp only [openExclusive, hentry, Option.bind_some, hreg, ne_eq, not_true_eq_false, if_false, hloop,
    Option.map_some, OpenArgs.answer, hfinish]
  cases (chain e).find? (args.Former s) with
  | none => rfl
  | some p => rfl

/-! ## A request for a file that exists -/

/-- The file `e` and the owners of its states `l` in `s₂` are as they are in `s₁`. -/
structure Kept (s₁ s₂ : Server) (e : ℕ) (l : List ℕ) : Prop where
  entry : s₂.entries e = s₁.entries e
  states : ∀ q ∈ l, s₂.states q = s₁.states q
  owners : ∀ name o, s₁.htOpenOwner name = some o → s₂.htOpenOwner name = some o
  valid : ∃ chain, Valid s₂ chain ∧ chain e = l

lemma Beside.kept (h : Beside s s') (hv : Valid s' chain) : Kept s s' e (chain e) :=
  ⟨by rw [h.entries], fun q _ => by rw [h.states], h.owners, chain, hv, rfl⟩

lemma Kept.former_eq {l : List ℕ} (h : Kept s₁ s₂ e l) (hv : Valid s₁ chain) (hq : q ∈ used chain)
    (hmem : q ∈ l) (args : OpenArgs) : args.Former s₂ q = args.Former s₁ q := by
  obtain ⟨chain₂, hv₂, -⟩ := h.valid
  obtain ⟨name, ho⟩ := hv.powner q hq
  unfold OpenArgs.Former
  rw [h.states q hmem, hv.name name _ ho, hv₂.name name _ (h.owners name _ ho)]

/-- The answer depends on the chain of the file. -/
lemma Kept.answer_eq (h : Kept s₁ s₂ e (chain e)) (hv : Valid s₁ chain) (args : OpenArgs) :
    args.answer s₂ (chain e) = args.answer s₁ (chain e) := by
  have hformer : ∀ q ∈ chain e, args.Former s₂ q = args.Former s₁ q := fun q hq =>
    h.former_eq hv ⟨e, hq⟩ hq args
  have hfind : (chain e).find? (args.Former s₂) = (chain e).find? (args.Former s₁) :=
    List.find?_congr hformer
  unfold OpenArgs.answer
  rw [hfind]
  cases hp : (chain e).find? (args.Former s₁) with
  | none => rfl
  | some p => simp only [h.states p (List.mem_of_find?_eq_some hp)]

/-- The request gets to the opening of the file `e`, and nothing fails after it. -/
structure OpenArgs.Reaches (args : OpenArgs) (s : Server) (env : OpenEnv) (e : ℕ) : Prop where
  passes : args.Passes s env
  ownerLen : args.ownerLen ≤ s.maxnamlen
  lookup : env.lookup = .ok e
  finish : env.finish = none

lemma openOwner_known (env : OpenEnv) (ho : s.htOpenOwner args.ownerName = some o) :
    ∃ s', openOwner s args env = (some o, s') := by
  simp only [openOwner, ho]
  split_ifs
  · exact ⟨_, rfl⟩
  · exact ⟨_, rfl⟩

/-- An OPEN with `EXCLUSIVE4` of a file that exists. -/
theorem nfs4OpOpen_exclusive (args : OpenArgs) (hv : Valid s chain) (htype : args.openType = .create)
    (hmode : args.mode = .exclusive) (ho : s.htOpenOwner args.ownerName = some o)
    (hreach : args.Reaches s env e) (hentry : s.entries e = some entry)
    (hreg : entry.type = .regular) (hne : chain e ≠ []) :
    ∃ s', nfs4OpOpen s args env = some (args.answer s (chain e), s') := by
  obtain ⟨s₁, howner⟩ := openOwner_known env ho
  obtain ⟨hv₁, hb, -⟩ := openOwner_spec hv howner
  have hanswer := (hb.kept hv₁ (e := e)).answer_eq hv args
  have hopen := openExclusive_answer args hv₁.toShape (hb.entries ▸ hentry) hreg hne
    hreach.finish
  refine ⟨s₁, ?_⟩
  simp only [nfs4OpOpen, hreach.passes.filehandle, hreach.passes.claim, hreach.passes.claimNull,
    if_neg (not_lt.mpr hreach.ownerLen), howner, hreach.passes.attr, htype, openCreate,
    hreach.lookup, hmode, hopen, hanswer]

/-! ## Requests in between -/

/-- The request leaves the file `e` and its states alone. -/
def Elsewhere (e : ℕ) (s : Server) (ev : Event) : Prop :=
  ∀ s', step s ev = some s' → s'.entries e = s.entries e ∧
    ∀ q ∈ statesOf s e, s'.states q = s.states q

lemma Outcome.owners {K : Prop} {G : ℕ → State → Prop} {D : ℕ → ℕ → Prop}
    (h : Outcome s s' chain K G D) :
    ∀ name o, s.htOpenOwner name = some o → s'.htOpenOwner name = some o := by
  cases h with
  | keeps _ _ hs => exact hs.owners
  | adds _ _ _ _ hs _ => exact hs.owners
  | deletes _ _ _ _ hs _ => exact hs.owners

/-- Calls for other files leave the states of this one. -/
theorem kept_of_elsewhere (hv : Valid s₁ chain)
    (h : ReachableBy step (fun s ev => Possible s ev ∧ Elsewhere e s ev) s₁ s₂) :
    Kept s₁ s₂ e (chain e) := by
  refine h.invariant (I := fun s => Kept s₁ s e (chain e)) ?_ ?_
  · exact ⟨rfl, fun _ _ => rfl, fun _ _ ho => ho, chain, hv, rfl⟩
  · intro s ev s' hkept hC hstep
    obtain ⟨chain₂, hv₂, hsame⟩ := hkept.valid
    have hout := step_outcome hv₂ hC.1 hstep
    obtain ⟨chain', hv'⟩ := hout.valid
    obtain ⟨hentry, hstates⟩ := hC.2 s' hstep
    rw [hv₂.statesOf_eq, hsame] at hstates
    refine ⟨hentry.trans hkept.entry, fun q hq => (hstates q hq).trans (hkept.states q hq),
      fun name o ho => hout.owners name o (hkept.owners name o ho), chain', hv', ?_⟩
    -- the same head and the same links give the same list
    rw [← hsame]
    cases he : s.entries e with
    | none => rw [hv₂.absent e he, hv'.absent e (hentry.trans he)]
    | some entry =>
      have hlinked := hv₂.linked e entry he
      rw [hsame] at hlinked ⊢
      refine (hv'.linked e entry (hentry.trans he)).unique (hlinked.congr fun q hq => ?_)
      rw [hstates q hq]
      exact ⟨rfl, rfl⟩

/-! ## The creation -/

lemma addStateEnd_success {other : Other} {type : StateType} {data : StateData} {setOk : Bool}
    {res : Option ℕ} (h : addStateEnd s e p other type data o setOk = (.success, res, s')) :
    res = some p ∧ (s'.states p).seqid = 0 ∧ s'.entries = s.entries ∧
      s'.fsalMaxNameLen = s.fsalMaxNameLen ∧ s'.maxnamlen = s.maxnamlen := by
  unfold addStateEnd nfs4StateSet at h
  cases setOk with
  | false => cases h
  | true =>
    cases h
    refine ⟨rfl, ?_, rfl, rfl, rfl⟩
    show (Function.update s.states p _ p).seqid = 0
    rw [Function.update_self]

/-- The first state of an entry is alone in its list. -/
lemma cacheInodeAddState_first {type : StateType} {data : StateData} {setOk : Bool} {res : Option ℕ}
    (hentry : s.entries e = some entry) (hhead : entry.pstateHead = none)
    (h : cacheInodeAddState s (some e) type data o setOk = some (.success, res, s')) :
    ∃ p, res = some p ∧ (s'.states p).seqid = 0 ∧
      s'.entries e = some { entry with pstateHead := some p } ∧
      s'.fsalMaxNameLen = s.fsalMaxNameLen ∧ s'.maxnamlen = s.maxnamlen := by
  simp only [cacheInodeAddState, hentry, Option.bind_some, hhead] at h
  split_ifs at h with hreg
  · cases h
  · split at h
    next => cases h
    next p pool arrays _ =>
      split at h
      next => cases h
      next other _ =>
        obtain ⟨hres, hseqid, hentries, hlengths⟩ := addStateEnd_success (Option.some.inj h)
        refine ⟨p, hres, hseqid, ?_, hlengths⟩
        rw [hentries]
        exact setEntry_entries_self hentry

/-- What an OPEN with `EXCLUSIVE4` leaves that has created the file `e`. -/
structure Created (s s' : Server) (args : OpenArgs) (e o p : ℕ) (chain : ℕ → List ℕ) : Prop where
  valid : Valid s' chain
  list : chain e = [p]
  regular : ∃ entry, s'.entries e = some entry ∧ entry.type = .regular
  share : (s'.states p).type = .share
  data : (s'.states p).data = candidateData args (strncpyVerifier args.createverf)
  powner : (s'.states p).powner = o
  seqid : (s'.states p).seqid = 0
  owner : s'.htOpenOwner args.ownerName = some o
  lengths : s'.fsalMaxNameLen = s.fsalMaxNameLen ∧ s'.maxnamlen = s.maxnamlen

variable {stateid : UInt32 × Other}

/-- A creation that answers with a stateid has made the first state. -/
lemma openNew_created {digest : Option UInt64} (hv : Valid s chain)
    (ho : s.htOpenOwner args.ownerName = some o) (hmode : args.mode = .exclusive)
    (hfresh : s.entries e = none) (hcreate : env.create = .ok (e, digest))
    (hopen : openNew s o args env = some (res, s')) (hid : res.stateid = some stateid) :
    ∃ p chain', Created s s' args e o p chain' ∧ env.finish = none ∧
      stateid = ((s.owners o).seqid, (s'.states p).stateidOther) := by
  simp only [openNew, hcreate, openNewState, hmode, if_true] at hopen
  have hload := hv.load hfresh .regular digest
  set s₁ : Server :=
    { s with entries := Function.update s.entries e (some ⟨.regular, digest, none, none⟩) } with hs₁
  have hentry : s₁.entries e = some ⟨.regular, digest, none, none⟩ := Function.update_self ..
  obtain ⟨⟨status, r, s₂⟩, hadd, hres⟩ := Option.map_eq_some_iff.mp hopen
  -- no attributes are set at the creation
  have hprovided : args.attrProvided = false := by
    simp [OpenArgs.attrProvided, OpenArgs.hasAttrs, hmode]
  have hanswer : ∃ p, status = .success ∧ r = some p ∧ s₂ = s' ∧ env.finish = none ∧
      stateid = ((s₂.owners o).seqid, (s₂.states p).stateidOther) := by
    split at hres
    next p s₃ heq =>
      cases heq
      simp only [hprovided, Bool.false_eq_true, false_and, if_false, openEnd] at hres
      split_ifs at hres
      · cases hres
        cases hid
      · split at hres
        next =>
          cases hres
          cases hid
        next hfinish =>
          cases hres
          exact ⟨p, rfl, rfl, rfl, hfinish, (Option.some.inj hid).symm⟩
    next =>
      cases hres
      cases hid
  obtain ⟨p, rfl, rfl, rfl, hfinish, rfl⟩ := hanswer
  obtain ⟨p', hp', hseqid, hentry', hlengths⟩ := cacheInodeAddState_first hentry rfl hadd
  obtain rfl := Option.some.inj hp'
  have hapart : s₂.owners = s.owners ∧ s₂.htOpenOwner = s.htOpenOwner := by
    obtain ⟨_, _, _, hadd', hapart, -⟩ :=
      cacheInodeAddState_spec hload.toShape hentry .share
        (candidateData args (strncpyVerifier args.createverf)) o env.stateSetOk
    rw [hadd] at hadd'
    cases hadd'
    exact ⟨hapart.owners, hapart.htOpenOwner⟩
  have htakes : StateType.share.Takes (candidateData args (strncpyVerifier args.createverf)) := trivial
  have hout := hload.addState htakes ⟨_, ho⟩ hadd
  cases hout with
  | keeps hfails => exact absurd rfl hfails
  | deletes _ _ _ _ _ hfalse => exact hfalse.elim
  | adds e' p' hnew hv' _ hG =>
    obtain ⟨rfl, hshare, hdata, hpowner, -⟩ := hG
    have hlist : extend chain e' p' e' = [p'] := by
      rw [extend_self, hv.absent e' hfresh, List.nil_append]
    have hlinked := hv'.linked e' _ hentry'
    rw [hlist] at hlinked
    obtain rfl := Option.some.inj hlinked.1
    refine ⟨p, _, ⟨hv', hlist, ⟨_, hentry', rfl⟩, hshare, hdata, hpowner, hseqid, ?_, hlengths⟩,
      hfinish, by rw [hapart.1]⟩
    rw [hapart.2]
    exact ho

/-! ## The first request -/

/-- The seqid of the owner when its request gets to the opening. -/
def ownerSeqid (s : Server) (args : OpenArgs) : UInt32 :=
  match s.htOpenOwner args.ownerName with
  | some o => if args.seqid = 0 then 0 else (s.owners o).seqid
  | none => 0

lemma nfsOpenOwnerSet_seqid (s : Server) (name : OwnerName) (o : ℕ) (ok : Bool) :
    ((nfsOpenOwnerSet s name o ok).2.owners o).seqid = (s.owners o).seqid ∧
      (nfsOpenOwnerSet s name o ok).2.fsalMaxNameLen = s.fsalMaxNameLen ∧
      (nfsOpenOwnerSet s name o ok).2.maxnamlen = s.maxnamlen := by
  simp only [nfsOpenOwnerSet]
  split_ifs
  · refine ⟨?_, rfl, rfl⟩
    show (Function.update s.owners o _ o).seqid = _
    rw [Function.update_self]
  · refine ⟨?_, rfl, rfl⟩
    show (Function.update s.owners o _ o).seqid = _
    rw [Function.update_self]

lemma ownerSeqid_some (ho : s.htOpenOwner args.ownerName = some o) :
    ownerSeqid s args = if args.seqid = 0 then 0 else (s.owners o).seqid := by
  unfold ownerSeqid
  simp only [ho]

lemma ownerSeqid_none (ho : s.htOpenOwner args.ownerName = none) : ownerSeqid s args = 0 := by
  unfold ownerSeqid
  simp only [ho]

/-- The seqid of the owner after it is found or made. -/
lemma openOwner_seqid (howner : openOwner s args env = (some o, s₁)) :
    (s₁.owners o).seqid = ownerSeqid s args ∧ s₁.fsalMaxNameLen = s.fsalMaxNameLen ∧
      s₁.maxnamlen = s.maxnamlen := by
  unfold openOwner at howner
  split at howner
  next o' ho =>
    rw [ownerSeqid_some ho]
    split_ifs at howner ⊢
    · cases howner
      rw [setOwner_owners_self]
      exact ⟨rfl, rfl, rfl⟩
    · cases howner
      exact ⟨rfl, rfl, rfl⟩
  next ho =>
    rw [ownerSeqid_none ho]
    split at howner
    next => cases howner
    next =>
      split_ifs at howner with halloc
      swap
      · cases howner
      · simp only at howner
        split_ifs at howner
        · cases howner
          obtain ⟨hseqid, hlengths⟩ := nfsOpenOwnerSet_seqid _ args.ownerName o env.ownerSetOk
          rw [hseqid, setOwner_owners_self]
          exact ⟨rfl, hlengths⟩
        · cases howner

/-- An answer with a stateid has passed the checks. -/
lemma nfs4OpOpen_of_stateid (htype : args.openType = .create) (hopen : nfs4OpOpen s args env = some (res, s'))
    (hid : res.stateid = some stateid) :
    args.Passes s env ∧ args.ownerLen ≤ s.maxnamlen ∧
      ∃ o s₁, openOwner s args env = (some o, s₁) ∧ openCreate s₁ o args env = some (res, s') := by
  unfold nfs4OpOpen at hopen
  split at hopen
  next =>
    cases hopen
    cases hid
  next hfilehandle =>
    split at hopen
    all_goals try
      cases hopen
      cases hid
    next hclaim =>
      split at hopen
      next =>
        cases hopen
        cases hid
      next hnull =>
        split_ifs at hopen with hlen
        rcases howner : openOwner s args env with ⟨_ | o, s₁⟩
        · rw [howner] at hopen
          cases hopen
          cases hid
        · simp only [howner, htype] at hopen
          split at hopen
          next =>
            cases hopen
            cases hid
          next hattr =>
            exact ⟨⟨hfilehandle, hclaim, hnull, hattr⟩, not_lt.mp hlen, o, s₁, rfl, hopen⟩

/-! ## Retransmissions -/

/-- The request with another verifier. -/
def OpenArgs.withVerifier (args : OpenArgs) (verifier : List UInt8) : OpenArgs :=
  { args with createverf := verifier }

/-- The law for an OPEN of the file `e` that was answered with `stateid` in `s₁`: later, when the
requests in between have left the file alone, the same request has the same answer, and one with
another verifier is refused. -/
def ReplayLaw (args : OpenArgs) (stateid : UInt32 × Other) (e : ℕ) (s₁ : Server) : Prop :=
  ∀ s₂ env verifier,
    ReachableBy step (fun s ev => Possible s ev ∧ Elsewhere e s ev) s₁ s₂ →
    verifier.length = 8 → (args.withVerifier verifier).Reaches s₂ env e →
    ∃ res s', nfs4OpOpen s₂ (args.withVerifier verifier) env = some (res, s') ∧
      (verifier = args.createverf → res.status = .ok ∧ res.stateid = some stateid) ∧
      (verifier ≠ args.createverf → res.status = .exist)

/-- A new file: the verifier is one that `strncpy` copies, and the seqid of the owner is that of a
new state. A file that exists: no state of an owner with these bytes has another verifier. -/
def ReplaySafe (s : Server) (args : OpenArgs) (env : OpenEnv) : Prop :=
  match env.lookup with
  | .ok e => ∀ q ∈ statesOf s e, (s.states q).type = .share →
      args.sameBytes (s.owners (s.states q).powner).name.ownerVal = true →
      (s.states q).data.oexclVerifier.length = 8 → (s.states q).data.oexclVerifier = args.createverf
  | .error _ => Terminated args.createverf ∧ ownerSeqid s args = 0

/-- The law is about the answer that the states of the file lead to. -/
lemma replayLaw_iff_answer (hv : Valid s₁ chain) (htype : args.openType = .create)
    (hmode : args.mode = .exclusive) (ho : s₁.htOpenOwner args.ownerName = some o)
    (hregular : ∃ entry, s₁.entries e = some entry ∧ entry.type = .regular) (hne : chain e ≠ [])
    (hreach : args.Reaches s₁ env e) :
    ReplayLaw args stateid e s₁ ↔ ∀ verifier : List UInt8, verifier.length = 8 →
      (verifier = args.createverf →
        (args.withVerifier verifier).answer s₁ (chain e) =
          { status := .ok, stateid := some stateid }) ∧
      (verifier ≠ args.createverf →
        ((args.withVerifier verifier).answer s₁ (chain e)).status = .exist) := by
  obtain ⟨entry, hentry, hreg⟩ := hregular
  -- the retransmission after any other requests
  have hanswer : ∀ s₂ env' verifier,
      ReachableBy step (fun s ev => Possible s ev ∧ Elsewhere e s ev) s₁ s₂ →
      (args.withVerifier verifier).Reaches s₂ env' e →
      ∃ s', nfs4OpOpen s₂ (args.withVerifier verifier) env' =
        some ((args.withVerifier verifier).answer s₁ (chain e), s') := by
    intro s₂ env' verifier hrun hreach'
    have hkept := kept_of_elsewhere hv hrun
    obtain ⟨chain₂, hv₂, hchain⟩ := hkept.valid
    obtain ⟨s', hopen⟩ := nfs4OpOpen_exclusive (args.withVerifier verifier) hv₂ htype hmode
      (hkept.owners _ o ho) hreach'
      (hkept.entry.trans hentry) hreg (by rw [hchain]; exact hne)
    rw [hchain, hkept.answer_eq hv] at hopen
    exact ⟨s', hopen⟩
  constructor
  · intro hlaw verifier hlen'
    have hreach' : (args.withVerifier verifier).Reaches s₁ env e :=
      ⟨⟨hreach.passes.filehandle, hreach.passes.claim, hreach.passes.claimNull, hreach.passes.attr⟩,
        hreach.ownerLen, hreach.lookup, hreach.finish⟩
    obtain ⟨res, s', hopen, hsame, hother⟩ := hlaw s₁ env verifier .init hlen' hreach'
    obtain ⟨s'', hopen'⟩ := hanswer s₁ env verifier .init hreach'
    rw [hopen] at hopen'
    obtain ⟨rfl, -⟩ := Prod.mk.inj (Option.some.inj hopen')
    refine ⟨fun heq => ?_, hother⟩
    obtain ⟨hstatus, hid⟩ := hsame heq
    rw [← hstatus, ← hid]
  · intro hall s₂ env' verifier hrun hlen' hreach'
    obtain ⟨s', hopen⟩ := hanswer s₂ env' verifier hrun hreach'
    obtain ⟨hsame, hother⟩ := hall verifier hlen'
    refine ⟨_, s', hopen, fun heq => ?_, hother⟩
    rw [hsame heq]
    exact ⟨rfl, rfl⟩

/-- `NFS4ERR_EXIST` is answered when no state is that of a former call. -/
lemma answer_status_exist_iff (args : OpenArgs) (s : Server) (l : List ℕ) :
    (args.answer s l).status = .exist ↔ ∀ q ∈ l, args.Former s q = false := by
  unfold OpenArgs.answer
  cases hfind : l.find? (args.Former s) with
  | none => simpa using List.find?_eq_none.mp hfind
  | some p =>
    have hformer := List.find?_some hfind
    have hmem := List.mem_of_find?_eq_some hfind
    constructor
    · intro hstatus
      cases hstatus
    · intro hall
      rw [hall p hmem] at hformer
      cases hformer

lemma OpenArgs.Passes.congr (h : args.Passes s env) (hlength : s'.fsalMaxNameLen = s.fsalMaxNameLen)
    (lookup : Except CacheStatus ℕ) : args.Passes s' { env with lookup := lookup } := by
  refine ⟨h.filehandle, h.claim, ?_, h.attr⟩
  have hnull := h.claimNull
  unfold claimNullChecks at hnull ⊢
  rw [hlength]
  exact hnull

/-- An exclusive open with a stateid has found a state of the same call. -/
lemma openExclusive_stateid (h : Shape s chain) (hopen : openExclusive s e args env = some (res, s'))
    (hid : res.stateid = some stateid) :
    (∃ entry, s.entries e = some entry ∧ entry.type = .regular) ∧ chain e ≠ [] ∧
      env.finish = none ∧ res = args.answer s (chain e) := by
  have hopen' := hopen
  obtain ⟨entry, hentry, hopen⟩ := Option.bind_eq_some_iff.mp hopen
  split_ifs at hopen with hreg
  · cases hopen
    cases hid
  · obtain ⟨r, hloop, hr⟩ := Option.map_eq_some_iff.mp hopen
    split at hr
    next p =>
      split at hr
      next =>
        cases hr
        cases hid
      next hfinish =>
        have hne : chain e ≠ [] := by
          intro hnil
          by_cases hdigest : entry.digest = none
          · simp only [exclusiveLoop, cacheInodeStateIterate, if_pos hdigest] at hloop
            cases hloop
          · have hloop' := exclusiveLoop_eq args h hentry hdigest (List.nil_append (chain e)).symm
              (Nat.lt_succ_of_le (h.allocs e))
            rw [List.getLast?_nil, hloop, hnil] at hloop'
            cases hloop'
        have hanswer := openExclusive_answer args h hentry (not_not.mp hreg) hne hfinish
        rw [hopen'] at hanswer
        exact ⟨⟨entry, hentry, not_not.mp hreg⟩, hne, hfinish,
          (Prod.mk.inj (Option.some.inj hanswer)).1⟩
    next =>
      cases hr
      cases hid
    next =>
      cases hr
      cases hid

/-- The law holds for a file that was there if it holds for what is answered now. -/
lemma replayLaw_iff_existing (hv : Valid s chain) (hv' : Valid s' chain) (hb : Beside s s')
    (htype : args.openType = .create) (hmode : args.mode = .exclusive)
    (ho : s'.htOpenOwner args.ownerName = some o) (hreach : args.Reaches s' env e)
    (hopen : openExclusive s' e args env = some (res, s₁)) (hid : res.stateid = some stateid) :
    ReplayLaw args stateid e s₁ ↔ ∀ q ∈ statesOf s e, (s.states q).type = .share →
      args.sameBytes (s.owners (s.states q).powner).name.ownerVal = true →
      (s.states q).data.oexclVerifier.length = 8 →
        (s.states q).data.oexclVerifier = args.createverf := by
  obtain rfl := openExclusive_eq hopen
  obtain ⟨hregular, hne, -, hres⟩ := openExclusive_stateid hv'.toShape hopen hid
  rw [replayLaw_iff_answer hv' htype hmode ho hregular hne hreach, hv.statesOf_eq]
  have hfirst : args.answer s₁ (chain e) = { status := .ok, stateid := some stateid } := by
    rw [← hid, hres]
    rw [hres] at hid
    unfold OpenArgs.answer at hid ⊢
    split at hid
    · rfl
    · cases hid
  have hformer : ∀ q ∈ chain e, ∀ verifier : List UInt8,
      (args.withVerifier verifier).Former s₁ q = decide ((s.states q).type = .share ∧
        args.sameBytes (s.owners (s.states q).powner).name.ownerVal ∧
        (s.states q).data.oexclVerifier = verifier) := fun q hq verifier =>
    (hb.kept hv' (e := e)).former_eq hv ⟨e, hq⟩ hq (args.withVerifier verifier)
  constructor
  · intro hall q hq hshare hbytes hlen'
    by_contra hother
    have hexist := (answer_status_exist_iff _ _ _).mp ((hall _ hlen').2 hother) q hq
    rw [hformer q hq, decide_eq_false_iff_not] at hexist
    exact hexist ⟨hshare, hbytes, rfl⟩
  · intro hsafe verifier hlen'
    refine ⟨fun heq => ?_, fun hother => (answer_status_exist_iff _ _ _).mpr fun q hq => ?_⟩
    · rw [heq]
      exact hfirst
    · rw [hformer q hq, decide_eq_false_iff_not]
      rintro ⟨hshare, hbytes, rfl⟩
      exact hother (hsafe q hq hshare hbytes hlen')

/-- After the creation the answer depends on the verifier alone. -/
lemma Created.answer_eq (h : Created s s₁ args e o p chain) (verifier : List UInt8) :
    (args.withVerifier verifier).answer s₁ (chain e) =
      if strncpyVerifier args.createverf = verifier then
        { status := .ok, stateid := some (0, (s₁.states p).stateidOther) }
      else { status := .exist } := by
  have hbytes : args.sameBytes args.ownerName.ownerVal = true := by
    simp [OpenArgs.sameBytes, OpenArgs.ownerName]
  have hformer : (args.withVerifier verifier).Former s₁ p =
      decide (strncpyVerifier args.createverf = verifier) := by
    have hbytes' : (args.withVerifier verifier).sameBytes args.ownerName.ownerVal = true := hbytes
    unfold OpenArgs.Former
    rw [h.share, h.data, h.powner, h.valid.name _ _ h.owner, hbytes']
    simp [candidateData, StateData.oexclVerifier, OpenArgs.withVerifier]
  unfold OpenArgs.answer
  rw [h.list, List.find?_cons, hformer, List.find?_nil]
  split_ifs with heq
  · rw [decide_eq_true heq]
    simp only [h.seqid]
  · rw [decide_eq_false heq]

/-- The law holds for the created file if its verifier survives. -/
lemma Created.law_iff {seqid : UInt32} (h : Created s s₁ args e o p chain)
    (htype : args.openType = .create) (hmode : args.mode = .exclusive)
    (hlen : args.createverf.length = 8) (hreach : args.Reaches s₁ env e) :
    ReplayLaw args (seqid, (s₁.states p).stateidOther) e s₁ ↔
      Terminated args.createverf ∧ seqid = 0 := by
  rw [replayLaw_iff_answer h.valid htype hmode h.owner h.regular
    (by rw [h.list]; exact List.cons_ne_nil p []) hreach, ← strncpyVerifier_eq_iff hlen]
  constructor
  · intro hall
    have hfirst := (hall args.createverf hlen).1 rfl
    rw [h.answer_eq] at hfirst
    split_ifs at hfirst with heq
    · exact ⟨heq, (congrArg Prod.fst (Option.some.inj (congrArg OpenRes.stateid hfirst))).symm⟩
    · cases congrArg OpenRes.status hfirst
  · rintro ⟨hcopy, rfl⟩ verifier hlen'
    rw [h.answer_eq, hcopy]
    refine ⟨fun heq => ?_, fun hother => ?_⟩
    · rw [if_pos heq.symm]
    · rw [if_neg (Ne.symm hother)]

/-- The law holds of an exclusive OPEN that succeeds if the request is safe, and only then. -/
theorem replayLaw_iff {stateid : UInt32 × Other} (h₀ : Initial s₀)
    (h : ReachableBy step Possible s₀ s) (hpos : Possible s (.opOpen args env))
    (htype : args.openType = .create) (hmode : args.mode = .exclusive)
    (hlen : args.createverf.length = 8) (hfile : env.file = some e)
    (hopen : nfs4OpOpen s args env = some (res, s₁)) (hid : res.stateid = some stateid) :
    ReplayLaw args stateid e s₁ ↔ ReplaySafe s args env := by
  obtain ⟨chain, hv⟩ := valid_of_reachableBy h₀ (fun _ _ h => h) h
  obtain ⟨hpasses, hownerLen, o, s', howner, hcreate⟩ := nfs4OpOpen_of_stateid htype hopen hid
  obtain ⟨hv', hb, ho⟩ := openOwner_spec hv howner
  obtain ⟨ho, -⟩ := ho o rfl
  obtain ⟨hseqid, hlength, hmax⟩ := openOwner_seqid howner
  rw [← hmax] at hownerLen
  unfold openCreate at hcreate
  unfold ReplaySafe
  cases hlookup : env.lookup with
  | ok e' =>
    obtain rfl : e' = e := by
      simpa [OpenEnv.file, hlookup] using hfile
    simp only [hlookup, hmode] at hcreate
    obtain ⟨-, -, hfinish, -⟩ := openExclusive_stateid hv'.toShape hcreate hid
    have hreach : args.Reaches s' env e' :=
      ⟨hpasses.congr hlength env.lookup, hownerLen, hlookup, hfinish⟩
    exact replayLaw_iff_existing hv hv' hb htype hmode ho hreach hcreate hid
  | error status =>
    obtain ⟨digest, hnew⟩ : ∃ digest, env.create = .ok (e, digest) := by
      cases hc : env.create with
      | error => simp [OpenEnv.file, hlookup, hc] at hfile
      | ok r =>
        obtain ⟨e', digest⟩ := r
        obtain rfl : e' = e := by simpa [OpenEnv.file, hlookup, hc] using hfile
        exact ⟨digest, rfl⟩
    have hfresh : s'.entries e = none := by
      have hnone := hpos.2.2
      simp only [hnew, Option.isNone_iff_eq_none] at hnone
      rw [hb.entries]
      exact hnone
    simp only [hlookup] at hcreate
    split at hcreate
    next heq => cases heq
    next =>
      obtain ⟨p, chain', hcreated, hfinish, rfl⟩ :=
        openNew_created hv' ho hmode hfresh hnew hcreate hid
      have hreach : args.Reaches s₁ { env with lookup := .ok e } e := by
        refine ⟨hpasses.congr (hcreated.lengths.1.trans hlength) (.ok e), ?_, rfl, hfinish⟩
        rw [hcreated.lengths.2]
        exact hownerLen
      rw [← hseqid]
      exact hcreated.law_iff htype hmode hlen hreach
    next =>
      cases hcreate
      cases hid

/-- An exclusive OPEN that creates the file 7. -/
def sampleExclusive (verifier : List UInt8) : OpenArgs :=
  { sampleOpen 1 .create 1 0 with mode := .exclusive, createverf := verifier }

/-- A verifier with one byte zero at its end. -/
theorem replayLaw_of_trailing_zero :
    ∃ res s₁ stateid, nfs4OpOpen freshServer (sampleExclusive [1, 2, 3, 4, 5, 6, 7, 0])
        (sampleEnv (.error .notFound)) = some (res, s₁) ∧ res.status = .ok ∧
      res.stateid = some stateid ∧
      ReplayLaw (sampleExclusive [1, 2, 3, 4, 5, 6, 7, 0]) stateid 7 s₁ := by
  have hrun : (nfs4OpOpen freshServer (sampleExclusive [1, 2, 3, 4, 5, 6, 7, 0])
      (sampleEnv (.error .notFound))).any (fun r =>
        decide (r.1.status = .ok) && r.1.stateid.isSome) = true := by
    decide +kernel
  rw [Option.any_eq_true] at hrun
  obtain ⟨⟨res, s₁⟩, hopen, hvalues⟩ := hrun
  rw [Bool.and_eq_true, decide_eq_true_eq, Option.isSome_iff_exists] at hvalues
  obtain ⟨hok, stateid, hid⟩ := hvalues
  refine ⟨res, s₁, stateid, hopen, hok, hid, ?_⟩
  refine (replayLaw_iff freshServer_initial .init ?_ rfl rfl rfl rfl hopen hid).mpr ?_
  · decide
  · show Terminated [1, 2, 3, 4, 5, 6, 7, 0] ∧ _
    exact ⟨by decide, rfl⟩

/-- A verifier with a byte zero in the middle: its retransmission is refused. -/
theorem not_replayLaw_of_inner_zero :
    ¬ ∀ s₀ s args env e res s₁ stateid, Initial s₀ → ReachableBy step Possible s₀ s →
      Possible s (.opOpen args env) → args.openType = .create → args.mode = .exclusive →
      args.createverf.length = 8 → env.file = some e → nfs4OpOpen s args env = some (res, s₁) →
      res.stateid = some stateid → ReplayLaw args stateid e s₁ := by
  intro h
  let args := sampleExclusive [1, 0, 2, 3, 4, 5, 6, 7]
  have hrun : (nfs4OpOpen freshServer args (sampleEnv (.error .notFound))).any (fun r =>
      r.1.stateid.isSome && decide (claimNullChecks r.2 args (sampleEnv (.ok 7)) = none) &&
        decide (args.ownerLen ≤ r.2.maxnamlen) &&
        (nfs4OpOpen r.2 args (sampleEnv (.ok 7))).any fun r' =>
          decide (r'.1.status = .exist)) = true := by
    decide +kernel
  rw [Option.any_eq_true] at hrun
  obtain ⟨⟨res, s₁⟩, hopen, hvalues⟩ := hrun
  rw [Bool.and_eq_true, Bool.and_eq_true, Bool.and_eq_true, decide_eq_true_eq, decide_eq_true_eq,
    Option.isSome_iff_exists] at hvalues
  obtain ⟨⟨⟨⟨stateid, hid⟩, hnull⟩, hlen⟩, hagain⟩ := hvalues
  have hlaw := h freshServer freshServer args (sampleEnv (.error .notFound)) 7 res s₁ stateid
    freshServer_initial .init (by decide) rfl rfl rfl rfl hopen hid
  obtain ⟨res', s', hopen', hsame, -⟩ := hlaw s₁ (sampleEnv (.ok 7)) args.createverf .init rfl
    ⟨⟨rfl, rfl, hnull, rfl⟩, hlen, rfl, rfl⟩
  have hopen'' : nfs4OpOpen s₁ args (sampleEnv (.ok 7)) = some (res', s') := hopen'
  rw [hopen'', Option.any_some, decide_eq_true_eq, (hsame rfl).1] at hagain
  cases hagain

end Ganesha.Nfs4
