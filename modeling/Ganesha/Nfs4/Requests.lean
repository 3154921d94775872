import Ganesha.Nfs4.Owners

/-!
# What the requests do to the lists of states

A request leaves the lists alone, adds one state or deletes one, and the other states hold what they
held: `Outcome`. For each request there is one theorem that says so, with what the request has
checked when it adds a state.
-/

namespace Ganesha.Nfs4
open Ganesha.Pools
open Ganesha.Hash (getPrealloc)

variable {s s₁ s' : Server} {chain : ℕ → List ℕ} {e p q o : ℕ} {entry : Entry} {U V : Set ℕ}
  {K : Prop} {G : ℕ → State → Prop} {D : ℕ → ℕ → Prop}

/-- The states of `U` hold what they held, and no owner leaves the table. -/
structure Still (s s' : Server) (U : Set ℕ) : Prop where
  same : ∀ q ∈ U, (s.states q).Same (s'.states q)
  owners : ∀ name o, s.htOpenOwner name = some o → s'.htOpenOwner name = some o

lemma Still.refl (s : Server) (U : Set ℕ) : Still s s U :=
  ⟨fun q _ => .refl (s.states q), fun _ _ ho => ho⟩

lemma Still.trans (h : Still s s₁ U) (h' : Still s₁ s' V) (hsub : V ⊆ U) : Still s s' V :=
  ⟨fun q hq => (h.same q (hsub hq)).trans (h'.same q hq),
    fun name o ho => h'.owners name o (h.owners name o ho)⟩

lemma Beside.still (h : Beside s s') (U : Set ℕ) : Still s s' U :=
  ⟨fun q _ => by rw [h.states]; exact .refl _, h.owners⟩

lemma Valid.name_eq (h : Valid s chain) (h' : Valid s' chain') (hstill : Still s s' U)
    (hq : q ∈ used chain) (hU : q ∈ U) :
    (s'.owners (s'.states q).powner).name = (s.owners (s.states q).powner).name := by
  obtain ⟨name, ho⟩ := h.powner q hq
  rw [(hstill.same q hU).powner, h.name name _ ho]
  exact h'.name name _ (hstill.owners name _ ho)

/-- What a request does to the lists. `K` is what is known when they stay as they are, `G` what is
known of a state that is added and `D` of one that is deleted. -/
inductive Outcome (s s' : Server) (chain : ℕ → List ℕ) (K : Prop) (G : ℕ → State → Prop)
    (D : ℕ → ℕ → Prop) : Prop
  | keeps : K → Valid s' chain → Still s s' (used chain) → Outcome s s' chain K G D
  | adds (e p : ℕ) : p ∉ used chain → Valid s' (extend chain e p) → Still s s' (used chain) →
      G e (s'.states p) → Outcome s s' chain K G D
  | deletes (e p : ℕ) : p ∈ chain e → Valid s' (shrink chain e p) →
      Still s s' (used chain \ {p}) → D e p → Outcome s s' chain K G D

lemma Outcome.refl (h : Valid s chain) (hK : K) : Outcome s s chain K G D :=
  .keeps hK h (.refl s _)

lemma Outcome.after (hstill : Still s s₁ (used chain)) (h : Outcome s₁ s' chain K G D) :
    Outcome s s' chain K G D := by
  cases h with
  | keeps hK hv hs => exact .keeps hK hv (hstill.trans hs le_rfl)
  | adds e p hp hv hs hG => exact .adds e p hp hv (hstill.trans hs le_rfl) hG
  | deletes e p hp hv hs hD => exact .deletes e p hp hv (hstill.trans hs Set.sdiff_subset) hD

lemma Outcome.mono {K' : Prop} {G' : ℕ → State → Prop} {D' : ℕ → ℕ → Prop}
    (h : Outcome s s' chain K G D) (hK : K → K') (hG : ∀ e st, G e st → G' e st)
    (hD : ∀ e p, D e p → D' e p) : Outcome s s' chain K' G' D' := by
  cases h with
  | keeps hKp hv hs => exact .keeps (hK hKp) hv hs
  | adds e p hp hv hs hGp => exact .adds e p hp hv hs (hG e _ hGp)
  | deletes e p hp hv hs hDp => exact .deletes e p hp hv hs (hD e p hDp)

/-- At most the seqid of an owner changes. -/
def Bumps (s s' : Server) : Prop :=
  s' = s ∨ ∃ o f, (∀ owner, (f owner).name = owner.name) ∧ s' = s.setOwner o f

lemma bumps_incrSeqid (s : Server) (o : ℕ) : Bumps s (s.incrSeqid o) :=
  .inr ⟨o, fun owner => { owner with seqid := owner.seqid + 1 }, fun _ => rfl, rfl⟩

/-- The seqids may be advanced after the call. -/
lemma Outcome.bumps (h : Outcome s s₁ chain K G D) (hb : Bumps s₁ s') :
    Outcome s s' chain K G D := by
  rcases hb with rfl | ⟨o, f, hf, rfl⟩
  · exact h
  cases h with
  | keeps hK hv hs =>
    obtain ⟨hv', hb⟩ := hv.setOwner (o := o) hf
    exact .keeps hK hv' (hs.trans (hb.still _) le_rfl)
  | adds e p hp hv hs hG =>
    obtain ⟨hv', hb⟩ := hv.setOwner (o := o) hf
    exact .adds e p hp hv' (hs.trans (hb.still _) le_rfl) hG
  | deletes e p hp hv hs hD =>
    obtain ⟨hv', hb⟩ := hv.setOwner (o := o) hf
    exact .deletes e p hp hv' (hs.trans (hb.still _) le_rfl) hD

/-! ## Adding and deleting -/

/-- Changes of the states keep the server valid if the lists are. -/
lemma Valid.apart {chain' : ℕ → List ℕ} (h : Valid s chain) (ha : Apart s s')
    (hshape : Shape s' chain') (hsound : ∀ e, ∀ p ∈ chain' e, (s'.states p).Sound)
    (hpowner : ∀ p ∈ used chain', (s'.states p).powner ∈ known s) : Valid s' chain' where
  toShape := hshape
  sound := hsound
  name name o ho := by
    rw [ha.owners]
    exact h.name name o (ha.htOpenOwner ▸ ho)
  powner p hp := by
    obtain ⟨name, ho⟩ := hpowner p hp
    exact ⟨name, ha.htOpenOwner ▸ ho⟩
  spareOwners := by
    have hknown : known s' = known s := by
      unfold known
      rw [ha.htOpenOwner]
    rw [ha.poolOpenOwner, ha.ownerArrays, hknown]
    exact h.spareOwners

/-- The stateid of a new state of `e` for the owner `o`. -/
def Server.keyOf (s : Server) (e o : ℕ) : Option Other :=
  (s.entries e).bind fun entry => nfs4BuildStateIdOther s entry o

lemma Server.keyOf_eq_some {other : Other} (h : s.keyOf e o = some other) :
    ∃ entry fileid, s.entries e = some entry ∧ entry.digest = some fileid ∧
      other = ⟨s.serverBootTime, fileid, (s.owners o).counter.toUInt16⟩ := by
  obtain ⟨entry, hentry, hother⟩ := Option.bind_eq_some_iff.mp h
  unfold nfs4BuildStateIdOther at hother
  split_ifs at hother
  obtain ⟨fileid, hfileid, rfl⟩ := Option.map_eq_some_iff.mp hother
  exact ⟨entry, fileid, hentry, hfileid, rfl⟩

variable {data : StateData}

/-- `cache_inode_add_state`. -/
theorem Valid.addState {type : StateType} {setOk : Bool} {status : CacheStatus} {res : Option ℕ}
    (h : Valid s chain) (htype : type.Takes data) (ho : o ∈ known s)
    (hadd : cacheInodeAddState s (some e) type data o setOk = some (status, res, s')) :
    Outcome s s' chain (status ≠ .success)
      (fun e' st => e' = e ∧ st.type = type ∧ st.data = data ∧ st.powner = o ∧
        s.keyOf e o = some st.stateidOther) fun _ _ => False := by
  cases hentry : s.entries e with
  | none =>
    simp [cacheInodeAddState, hentry] at hadd
  | some entry =>
    obtain ⟨status', res', s'', hadd', hapart, hadds⟩ :=
      cacheInodeAddState_spec h.toShape hentry type data o setOk
    rw [hadd] at hadd'
    obtain ⟨rfl, rfl, rfl⟩ : status = status' ∧ res = res' ∧ s' = s'' := by simpa using hadd'
    have hstill (hcore : ∀ q ∈ used chain, (s'.states q).core = (s.states q).core) :
        Still s s' (used chain) :=
      ⟨fun q hq => State.same_of_core (hcore q hq), fun _ _ ho => hapart.htOpenOwner ▸ ho⟩
    cases hadds with
    | fails hstatus hshape hcore _ =>
      refine .keeps hstatus (h.apart hapart hshape (fun e' p hp => ?_) fun p hp => ?_) (hstill hcore)
      · exact ((hstill hcore).same p ⟨e', hp⟩).sound (h.sound e' p hp)
      · rw [((hstill hcore).same p hp).powner]
        exact h.powner p hp
    | adds p hp hshape hcore htype' hdata howner hkey _ =>
      refine .adds e p hp (h.apart hapart hshape (fun e' q hq => ?_) fun q hq => ?_) (hstill hcore)
        ⟨rfl, htype', hdata, howner, by rw [Server.keyOf, hentry, Option.bind_some, hkey]⟩
      · rcases mem_extend.mp hq with hq | ⟨rfl, rfl⟩
        · exact ((hstill hcore).same q ⟨e', hq⟩).sound (h.sound e' q hq)
        · unfold State.Sound
          rw [htype', hdata]
          exact htype
      rw [used_extend] at hq
      rcases hq with rfl | hq
      · rw [howner]
        exact ho
      · rw [((hstill hcore).same q hq).powner]
        exact h.powner q hq

/-- What a deletion comes to. -/
lemma Deletes.outcome (h : Valid s chain) (hd : Deletes s s' chain e p) (hD : D e p) :
    Outcome s s' chain K G D := by
  have hstill : Still s s' (used chain \ {p}) :=
    ⟨fun q hq => State.same_of_core (hd.core q hq.2), fun _ _ ho => hd.apart.htOpenOwner ▸ ho⟩
  refine .deletes e p hd.mem (h.apart hd.apart hd.shape (fun e' q hq => ?_) fun q hq => ?_) hstill hD
  · rw [h.mem_shrink hd.mem] at hq
    exact (hstill.same q ⟨⟨e', hq.1⟩, hq.2⟩).sound (h.sound e' q hq.1)
  · rw [h.used_shrink hd.mem] at hq
    rw [(hstill.same q hq).powner]
    exact h.powner q hq.1

/-- A state may be changed outside of its links. -/
lemma Valid.touch {f : State → State} (h : Valid s chain)
    (hf : p ∈ used chain → (f (s.states p)).next = (s.states p).next ∧
      (f (s.states p)).prev = (s.states p).prev ∧ (f (s.states p)).pentry = (s.states p).pentry ∧
      (f (s.states p)).stateidOther = (s.states p).stateidOther)
    (hsame : (s.states p).Same (f (s.states p))) :
    Valid (s.setState p f) chain ∧ Still s (s.setState p f) (used chain) := by
  have hstill : Still s (s.setState p f) (used chain) := by
    refine ⟨fun q _ => ?_, fun _ _ ho => ho⟩
    rw [setState_states]
    split_ifs with hq
    · rw [hq]
      exact hsame
    · exact .refl _
  refine ⟨h.apart ⟨rfl, rfl, rfl, rfl⟩ (h.toShape.touch hf) (fun e q hq => ?_) fun q hq => ?_, hstill⟩
  · exact (hstill.same q ⟨e, hq⟩).sound (h.sound e q hq)
  · rw [(hstill.same q hq).powner]
    exact h.powner q hq

variable {f : UInt32 → UInt32}

lemma Valid.touchSeqid (h : Valid s chain) :
    Valid (s.setState p fun st => { st with seqid := f st.seqid }) chain ∧
      Still s (s.setState p fun st => { st with seqid := f st.seqid }) (used chain) :=
  h.touch (fun _ => ⟨rfl, rfl, rfl, rfl⟩) ⟨rfl, rfl, rfl, rfl⟩

lemma Valid.touchLockheld {g : UInt32 → UInt32} (h : Valid s chain)
    (hdata : (s.states p).data.setLockheld f = some data) :
    Valid (s.setState p fun st => { st with seqid := g st.seqid, data := data }) chain ∧
      Still s (s.setState p fun st => { st with seqid := g st.seqid, data := data })
        (used chain) :=
  h.touch (fun _ => ⟨rfl, rfl, rfl, rfl⟩) ⟨rfl, StateData.hold_setLockheld hdata, rfl, rfl⟩

/-- So may the count of locks of an open. -/
lemma Outcome.touchLockheld (h : Outcome s s₁ chain K G D)
    (hdata : (s₁.states p).data.setLockheld f = some data) (hG : ∀ e st st', st.Same st' → G e st → G e st') :
    Outcome s (s₁.setState p fun st => { st with data := data }) chain K G D := by
  cases h with
  | keeps hK hv hs =>
    obtain ⟨hv', hs'⟩ := hv.touchLockheld (g := id) hdata
    exact .keeps hK hv' (hs.trans hs' le_rfl)
  | adds e q hq hv hs hGq =>
    obtain ⟨hv', hs'⟩ := hv.touchLockheld (g := id) hdata
    have hsub : used chain ⊆ used (extend chain e q) := by
      rw [used_extend]
      exact Set.subset_insert q _
    have hq' : q ∈ used (extend chain e q) := by
      rw [used_extend]
      exact .inl rfl
    exact .adds e q hq hv' (hs.trans ⟨fun r hr => hs'.same r (hsub hr), hs'.owners⟩ le_rfl)
      (hG e _ _ (hs'.same q hq') hGq)
  | deletes e q hq hv hs hD =>
    obtain ⟨hv', hs'⟩ := hv.touchLockheld (g := id) hdata
    refine .deletes e q hq hv' (hs.trans ⟨fun r _ => ?_, hs'.owners⟩ le_rfl) hD
    rw [setState_states]
    split_ifs with heq
    · rw [heq]
      exact ⟨rfl, StateData.hold_setLockheld hdata, rfl, rfl⟩
    · exact .refl _

lemma Valid.load (h : Valid s chain) (he : s.entries e = none) (type : FileType)
    (digest : Option UInt64) :
    Valid { s with entries := Function.update s.entries e (some ⟨type, digest, none, none⟩) }
      chain :=
  h.apart ⟨rfl, rfl, rfl, rfl⟩ (h.toShape.load he type digest) h.sound h.powner

/-! ## OPEN -/

/-- A share state of the owner of the request. -/
def OpenArgs.Own (args : OpenArgs) (s : Server) (q : ℕ) : Prop :=
  (s.states q).type = .share ∧ (s.owners (s.states q).powner).name = args.ownerName

/-- A share state for which `OPEN4_NOCREATE` is refused. -/
def OpenArgs.Refused (args : OpenArgs) (s : Server) (q : ℕ) : Prop :=
  (s.states q).type = .share ∧
    (¬ args.sameBytes (s.owners (s.states q).powner).name.ownerVal ∧
        (s.states q).data.shareAccess &&& open4ShareAccessWrite ≠ 0 ∧
        args.shareDeny &&& open4ShareDenyWrite ≠ 0 ∨
      (s.states q).data.shareDeny &&& open4ShareDenyRead ≠ 0 ∧
        args.shareAccess &&& open4ShareAccessRead ≠ 0 ∨
      (s.states q).data.shareDeny &&& open4ShareDenyWrite ≠ 0 ∧
        args.shareAccess &&& open4ShareAccessWrite ≠ 0)

/-- Owners are compared by id, length and bytes. -/
lemma OpenArgs.ownerName_eq_iff (args : OpenArgs) (name : OwnerName) :
    name = args.ownerName ↔ name.clientid = args.clientid ∧ name.ownerVal.length = args.ownerLen ∧
      args.sameBytes name.ownerVal = true := by
  unfold OpenArgs.ownerName OpenArgs.sameBytes
  rw [decide_eq_true_iff]
  constructor
  · rintro rfl
    simp
  · rintro ⟨hclient, hlen, hbytes⟩
    rw [hlen] at hbytes
    rw [hbytes, ← hclient]

/-- The loop of `OPEN4_NOCREATE` ends, and without a state of the owner if there is none and no
state stands in the way. -/
lemma nocreateLoop_spec {fuel : ℕ} {l₁ l₂ : List ℕ} (args : OpenArgs) (acc : Option ℕ)
    (h : Shape s chain) (hentry : s.entries e = some entry) (hchain : chain e = l₁ ++ l₂)
    (hfuel : l₂.length < fuel) :
    ∃ res, nocreateLoop s e entry args fuel l₁.getLast? acc = some res ∧
      (res = .done none → acc = none ∧ ∀ q ∈ l₂, ¬ args.Own s q ∧ ¬ args.Refused s q) := by
  induction l₂ generalizing l₁ fuel acc with
  | nil =>
    obtain ⟨fuel, rfl⟩ : ∃ n, fuel = n + 1 := ⟨fuel - 1, by omega⟩
    refine ⟨.done acc, ?_, fun hres => ⟨by cases hres; rfl, nofun⟩⟩
    by_cases hdigest : entry.digest = none
    · simp only [nocreateLoop, cacheInodeStateIterate, if_pos hdigest]
    · simp only [nocreateLoop, h.iterate_eq hentry hchain hdigest, List.head?_nil]
  | cons p l₂ ih =>
    obtain ⟨fuel, rfl⟩ : ∃ n, fuel = n + 1 := ⟨fuel - 1, by omega⟩
    have hdigest := h.digest e entry hentry (by rw [hchain]; simp)
    have hchain' : chain e = (l₁ ++ [p]) ++ l₂ := by rw [hchain, List.append_assoc]; rfl
    simp only [nocreateLoop, h.iterate_eq hentry hchain hdigest, List.head?_cons]
    split_ifs with hwrite hread hwrite' hsame
    · exact ⟨_, rfl, nofun⟩
    · exact ⟨_, rfl, nofun⟩
    · exact ⟨_, rfl, nofun⟩
    · obtain ⟨res, hres, hdone⟩ := ih (some p) hchain' (by simpa using hfuel)
      rw [List.getLast?_concat] at hres
      exact ⟨res, hres, fun hnone => nomatch (hdone hnone).1⟩
    · obtain ⟨res, hres, hdone⟩ := ih acc hchain' (by simpa using hfuel)
      rw [List.getLast?_concat] at hres
      refine ⟨res, hres, fun hnone => ⟨(hdone hnone).1, fun q hq => ?_⟩⟩
      rcases List.mem_cons.mp hq with rfl | hq
      · rw [← OpenArgs.ownerName_eq_iff] at hsame
        refine ⟨hsame, ?_⟩
        rintro ⟨htype, ⟨hbytes, hacc, hdeny⟩ | ⟨hdeny, hacc⟩ | ⟨hdeny, hacc⟩⟩
        · exact hwrite ⟨fun hs => hbytes hs.2.2.2, hbytes, htype, hacc, hdeny⟩
        · exact hread ⟨htype, hdeny, hacc⟩
        · exact hwrite' ⟨htype, hdeny, hacc⟩
      · exact (hdone hnone).2 q hq

lemma openEnd_bumps (s : Server) (o p : ℕ) (seqid : UInt32) (env : OpenEnv) :
    Bumps s (openEnd s o p seqid env).2 := by
  unfold openEnd
  split_ifs
  · exact bumps_incrSeqid s o
  · split <;> exact .inl rfl

/-- The share state of a request, for the owner `o`. -/
def OpenArgs.Makes (args : OpenArgs) (o : ℕ) (st : State) : Prop :=
  st.type = .share ∧ (∃ verifier, st.data = candidateData args verifier) ∧ st.powner = o

/-- A share state is added. -/
lemma Valid.addShare {args : OpenArgs} {verifier : List UInt8} {setOk : Bool} {res : OpenRes}
    {f : CacheStatus × Option ℕ × Server → OpenRes × Server} (h : Valid s chain) (ho : o ∈ known s)
    (hf : ∀ r, Bumps r.2.2 (f r).2)
    (hadd : (cacheInodeAddState s (some e) .share (candidateData args verifier) o setOk).map f =
      some (res, s')) :
    Outcome s s' chain True (fun e' st => e' = e ∧ args.Makes o st ∧
      s.keyOf e o = some st.stateidOther) fun _ _ => False := by
  obtain ⟨r, hr, hfr⟩ := Option.map_eq_some_iff.mp hadd
  have htype : StateType.share.Takes (candidateData args verifier) := trivial
  have hout := h.addState htype ho hr
  have hb := hf r
  rw [hfr] at hb
  refine (hout.mono (fun _ => trivial) (fun e' st hG => ?_) fun _ _ hD => hD).bumps hb
  exact ⟨hG.1, ⟨hG.2.1, ⟨verifier, hG.2.2.1⟩, hG.2.2.2.1⟩, hG.2.2.2.2⟩

/-- How an OPEN comes to add a state to `e`. -/
inductive OpenGrants (s : Server) (args : OpenArgs) (env : OpenEnv) (e : ℕ) : Prop
  | created (digest : Option UInt64) : env.create = .ok (e, digest) → s.entries e = none →
      OpenGrants s args env e
  | unchecked : env.lookup = .ok e → args.openType = .create → args.mode = .unchecked →
      openAccessChecks args env args.attrProvided = none → OpenGrants s args env e
  | nocreate : env.lookup = .ok e → args.openType = .nocreate →
      openAccessChecks args env false = none →
      (∀ q ∈ statesOf s e, ¬ args.Own s q ∧ ¬ args.Refused s q) → OpenGrants s args env e

/-- The fileid of a file that exists or is created. -/
def OpenEnv.fileid (env : OpenEnv) (s : Server) (e : ℕ) : Option UInt64 :=
  match s.entries e with
  | some entry => entry.digest
  | none => match env.create with
    | .ok (_, digest) => digest
    | .error _ => none

/-- The stateid of the new state. -/
def OpenEnv.Keys (env : OpenEnv) (s : Server) (e : ℕ) (counter : UInt32) (st : State) : Prop :=
  ∃ fileid, env.fileid s e = some fileid ∧
    st.stateidOther = ⟨s.serverBootTime, fileid, counter.toUInt16⟩

variable {st : State}

lemma OpenEnv.keys_of_keyOf {env : OpenEnv} (h : s.keyOf e o = some st.stateidOther) :
    env.Keys s e (s.owners o).counter st := by
  obtain ⟨entry, fileid, hentry, hdigest, hother⟩ := Server.keyOf_eq_some h
  refine ⟨fileid, ?_, hother⟩
  rw [OpenEnv.fileid, hentry]
  exact hdigest

section Open

variable {args : OpenArgs} {env : OpenEnv} {res : OpenRes}

/-- An exclusive open of a file that is there changes nothing. -/
lemma openExclusive_eq (hopen : openExclusive s e args env = some (res, s')) : s' = s := by
  obtain ⟨entry, -, hopen⟩ := Option.bind_eq_some_iff.mp hopen
  split_ifs at hopen
  · cases hopen
    rfl
  · obtain ⟨r, -, hr⟩ := Option.map_eq_some_iff.mp hopen
    split at hr
    · split at hr <;> (cases hr; rfl)
    · cases hr
      rfl
    · cases hr
      rfl

/-- What a creation does to the states. -/
lemma openNew_outcome (h : Valid s chain) (ho : o ∈ known s)
    (hcreate : ∀ e digest, env.create = .ok (e, digest) → s.entries e = none)
    (hopen : openNew s o args env = some (res, s')) :
    Outcome s s' chain True (fun e st => args.Makes o st ∧ OpenGrants s args env e ∧
      env.Keys s e (s.owners o).counter st) fun _ _ => False := by
  unfold openNew at hopen
  cases hc : env.create with
  | ok r =>
    -- the file was created, and is loaded first
    obtain ⟨e, digest⟩ := r
    simp only [hc] at hopen
    have he := hcreate e digest hc
    have hload := h.load he .regular digest
    have hstill : Still s { s with
        entries := Function.update s.entries e (some ⟨.regular, digest, none, none⟩) }
          (used chain) := ⟨fun q _ => .refl _, fun _ _ ho => ho⟩
    refine .after hstill ((hload.addShare ho (fun r => ?_) hopen).mono id (fun e' st hG => ?_)
      fun _ _ hD => hD)
    · split
      · split_ifs
        · exact .inl rfl
        · exact openEnd_bumps ..
      · exact bumps_incrSeqid ..
    · rw [hG.1]
      refine ⟨hG.2.1, .created digest hc he, ?_⟩
      obtain ⟨entry, fileid, hentry, hdigest, hother⟩ := Server.keyOf_eq_some hG.2.2
      have hentry' : Function.update s.entries e (some ⟨.regular, digest, none, none⟩) e =
          some entry := hentry
      rw [Function.update_self] at hentry'
      refine ⟨fileid, ?_, hother⟩
      rw [← Option.some.inj hentry'] at hdigest
      rw [OpenEnv.fileid, he, hc]
      exact hdigest
  | error status =>
    simp only [hc] at hopen
    split_ifs at hopen
    · cases hopen
      exact .refl h trivial
    · -- the file is there after all, and the state goes to the entry `NULL`
      cases hopen
      exact (Outcome.refl h trivial).bumps (bumps_incrSeqid s o)

/-- What an open with creation does to them. -/
lemma openCreate_outcome (h : Valid s chain) (ho : o ∈ known s) (htype : args.openType = .create)
    (hcreate : ∀ e digest, env.create = .ok (e, digest) → s.entries e = none)
    (hopen : openCreate s o args env = some (res, s')) :
    Outcome s s' chain True (fun e st => args.Makes o st ∧ OpenGrants s args env e ∧
      env.Keys s e (s.owners o).counter st) fun _ _ => False := by
  unfold openCreate at hopen
  split at hopen
  next e hlookup =>
    split at hopen
    next hmode =>
      unfold openUnchecked at hopen
      split at hopen
      next =>
        cases hopen
        exact .refl h trivial
      next hchecks =>
        refine (h.addShare ho (fun r => ?_) hopen).mono id (fun e' st hG => ?_) fun _ _ hD => hD
        · split
          · exact openEnd_bumps ..
          · exact bumps_incrSeqid ..
        · rw [hG.1]
          exact ⟨hG.2.1, .unchecked hlookup htype hmode hchecks, OpenEnv.keys_of_keyOf hG.2.2⟩
    next =>
      rw [openExclusive_eq hopen]
      exact .refl h trivial
    next =>
      cases hopen
      exact .refl h trivial
  next =>
    exact openNew_outcome h ho hcreate hopen
  next =>
    cases hopen
    exact .refl h trivial

/-- What an open without creation does to them. -/
lemma openNocreate_outcome (h : Valid s chain) (ho : o ∈ known s)
    (htype : args.openType = .nocreate) (hopen : openNocreate s o args env = some (res, s')) :
    Outcome s s' chain True (fun e st => args.Makes o st ∧ OpenGrants s args env e ∧
      env.Keys s e (s.owners o).counter st) fun _ _ => False := by
  unfold openNocreate at hopen
  split at hopen
  next =>
    cases hopen
    exact .refl h trivial
  next e hlookup =>
    obtain ⟨entry, hentry, hopen⟩ := Option.bind_eq_some_iff.mp hopen
    split at hopen
    next =>
      cases hopen
      exact .refl h trivial
    next =>
      cases hopen
      exact .refl h trivial
    next =>
      cases hopen
      exact .refl h trivial
    next =>
      split at hopen
      next =>
        cases hopen
        exact .refl h trivial
      next hchecks =>
        obtain ⟨scan, hscan, hdone⟩ := nocreateLoop_spec args none h.toShape hentry
          (List.nil_append (chain e)).symm (Nat.lt_succ_of_le (h.allocs e))
        rw [List.getLast?_nil] at hscan
        rw [hscan, Option.bind_some] at hopen
        cases scan with
        | denied incr =>
          cases hopen
          exact (Outcome.refl h trivial).bumps
            (.inr ⟨o, fun owner => { owner with seqid := owner.seqid + incr }, fun _ => rfl, rfl⟩)
        | done sameOwner =>
          cases sameOwner with
          | some p =>
            obtain ⟨hv, hstill⟩ := h.touchSeqid (p := p) (f := fun seqid => seqid + 1)
            set s₁ := s.setState p fun st => { st with seqid := st.seqid + 1 }
            have hb := openEnd_bumps s₁ o p (s₁.owners o).seqid env
            rw [Option.some.inj hopen] at hb
            exact (Outcome.keeps trivial hv hstill).bumps hb
          | none =>
            refine (h.addShare ho (fun r => ?_) hopen).mono id (fun e' st hG => ?_) fun _ _ hD => hD
            · split
              · exact openEnd_bumps ..
              · exact bumps_incrSeqid ..
            · rw [hG.1]
              refine ⟨hG.2.1, .nocreate hlookup htype hchecks ?_, OpenEnv.keys_of_keyOf hG.2.2⟩
              rw [h.statesOf_eq]
              exact (hdone rfl).2

/-- The checks before an open. -/
structure OpenArgs.Passes (args : OpenArgs) (s : Server) (env : OpenEnv) : Prop where
  filehandle : env.filehandle = none
  claim : args.claim = .null
  claimNull : claimNullChecks s args env = none
  attr : openAttrChecks args env = none

lemma Valid.own_refused_iff (h : Valid s chain) (args : OpenArgs) (h₁ : Valid s₁ chain) (hb : Beside s s₁)
    (hq : q ∈ used chain) : (args.Own s₁ q ↔ args.Own s q) ∧ (args.Refused s₁ q ↔ args.Refused s q) := by
  have hname := h.name_eq h₁ (hb.still (used chain)) hq hq
  unfold OpenArgs.Own OpenArgs.Refused
  rw [hname, hb.states]
  exact ⟨.rfl, .rfl⟩

/-- The grants do not depend on what is beside the states. -/
lemma OpenGrants.beside (h : Valid s chain) (h₁ : Valid s₁ chain) (hb : Beside s s₁)
    (hg : OpenGrants s₁ args env e) : OpenGrants s args env e := by
  cases hg with
  | created digest hc he => exact .created digest hc (hb.entries ▸ he)
  | unchecked hlookup htype hmode hchecks => exact .unchecked hlookup htype hmode hchecks
  | nocreate hlookup htype hchecks hq =>
    refine .nocreate hlookup htype hchecks fun q hmem => ?_
    rw [h.statesOf_eq, ← h₁.statesOf_eq] at hmem
    obtain ⟨hown, hrefused⟩ := h.own_refused_iff args h₁ hb
      ⟨e, h₁.statesOf_eq e ▸ hmem⟩
    rw [← hown, ← hrefused]
    exact hq q hmem

/-- OPEN. -/
theorem nfs4OpOpen_outcome (h : Valid s chain)
    (hcreate : ∀ e digest, env.create = .ok (e, digest) → s.entries e = none)
    (hopen : nfs4OpOpen s args env = some (res, s')) :
    Outcome s s' chain True
      (fun e st => st.type = .share ∧ (∃ verifier, st.data = candidateData args verifier) ∧
        (s'.owners st.powner).name = args.ownerName ∧ args.Passes s env ∧
        OpenGrants s args env e ∧ env.Keys s e (ownerCounter s args.ownerName) st)
      fun _ _ => False := by
  unfold nfs4OpOpen at hopen
  split at hopen
  next =>
    cases hopen
    exact .refl h trivial
  next hfilehandle =>
    split at hopen
    all_goals try
      cases hopen
      exact .refl h trivial
    next hclaim =>
      split at hopen
      next =>
        cases hopen
        exact .refl h trivial
      next hnull =>
        split_ifs at hopen
        rcases howner : openOwner s args env with ⟨_ | o, s₁⟩
        · rw [howner] at hopen
          cases hopen
          obtain ⟨hv, hb, -⟩ := openOwner_spec h howner
          exact .keeps trivial hv (hb.still _)
        · simp only [howner] at hopen
          obtain ⟨hv, hb, ho⟩ := openOwner_spec h howner
          obtain ⟨ho, hcounter⟩ := ho o rfl
          have hcreate₁ : ∀ e digest, env.create = .ok (e, digest) → s₁.entries e = none := by
            rw [hb.entries]
            exact hcreate
          split at hopen
          next =>
            cases hopen
            exact .keeps trivial hv (hb.still _)
          next hattr =>
            have hout : Outcome s₁ s' chain True (fun e st =>
                args.Makes o st ∧ OpenGrants s₁ args env e ∧
                  env.Keys s₁ e (s₁.owners o).counter st) fun _ _ => False := by
              split at hopen
              next htype => exact openCreate_outcome hv ⟨_, ho⟩ htype hcreate₁ hopen
              next htype => exact openNocreate_outcome hv ⟨_, ho⟩ htype hopen
              next =>
                cases hopen
                exact (Outcome.refl hv trivial).bumps (bumps_incrSeqid s₁ o)
            refine .after (hb.still _) ?_
            cases hout with
            | keeps _ hv' hs => exact .keeps trivial hv' hs
            | deletes e p _ _ _ hD => exact hD.elim
            | adds e p hp hv' hs hG =>
              obtain ⟨⟨htype, hdata, howner'⟩, hgrants, fileid, hfileid, hother⟩ := hG
              refine .adds e p hp hv' hs ⟨htype, hdata, ?_, ⟨hfilehandle, hclaim, hnull, hattr⟩,
                hgrants.beside h hv hb, fileid, ?_, ?_⟩
              · rw [howner']
                exact hv'.name _ o (hs.owners _ o ho)
              · rw [← hfileid, OpenEnv.fileid, OpenEnv.fileid, hb.entries]
              · rw [hother, hcounter, hb.serverBootTime]

end Open

/-! ## CLOSE -/

/-- Only share states are free of locks. -/
lemma State.Sound.share_of_lockheld (h : st.Sound) (hheld : ¬ st.data.lockheld > 0) : st.type = .share := by
  unfold State.Sound at h
  cases hd : st.data with
  | share =>
    rw [hd] at h
    cases ht : st.type <;> rw [ht] at h <;> first | rfl | cases h
  | lock type =>
    rw [hd] at hheld
    have hpos : 0 < type.toNat := by cases type <;> decide
    exact absurd hpos hheld

/-- Only an open can be closed: a lock has a type where an open has the count of its locks. -/
theorem nfs4OpClose_outcome {other : Other} {env : CloseEnv} {res : NfsStat} (h : Valid s chain)
    (hclose : nfs4OpClose s e other env = some (res, s')) :
    Outcome s s' chain True (fun _ _ => False) fun _ p => (s.states p).type = .share := by
  unfold nfs4OpClose at hclose
  split at hclose
  next =>
    cases hclose
    exact .refl h trivial
  next =>
    obtain ⟨entry, hentry, hclose⟩ := Option.bind_eq_some_iff.mp hclose
    split at hclose
    all_goals try
      cases hclose
      exact .refl h trivial
    next =>
      split at hclose
      next =>
        split at hclose
        next =>
          cases hclose
          exact .refl h trivial
        next p hp =>
          have hmem := (h.table other p hp).2
          by_cases hheld : (s.states p).data.lockheld > 0
          · rw [if_pos hheld] at hclose
            cases hclose
            exact .refl h trivial
          · rw [if_neg hheld] at hclose
            have htype : (s.states p).type = .share := by
              obtain ⟨e', hmem⟩ := hmem
              exact (h.sound e' p hmem).share_of_lockheld hheld
            obtain ⟨hv, hb⟩ := h.setOwner (o := (s.states p).powner)
              (f := fun owner => { owner with seqid := owner.seqid + 1 }) fun _ => rfl
            obtain ⟨e', s₂, hdel, hdeletes⟩ := cacheInodeDelStateByKey_spec hv.toShape
              (show (s.incrSeqid (s.states p).powner).htStateId other = some p from hp)
            have hs' : s₂ = s' := by
              have hdel' : cacheInodeDelStateByKey (s.incrSeqid (s.states p).powner) other =
                  some (.success, s₂) := hdel
              simp only [hdel', Option.map_some] at hclose
              split_ifs at hclose
              · exact (Prod.mk.inj (Option.some.inj hclose)).2
              · exact (Prod.mk.inj (Option.some.inj hclose)).2
            rw [← hs']
            exact .after (hb.still _) (hdeletes.outcome hv htype)
      next =>
        cases hclose
        exact .refl h trivial

/-! ## LOCK -/

section Lock

variable {args : LockArgs} {env : LockEnv}

/-- A lock that `nfs4_op_lock` sees in the way, `exists?` being the lock that the owner has. -/
def LockArgs.Denied (args : LockArgs) (s : Server) (exists? : Option ℕ) (q : ℕ) : Prop :=
  (s.states q).type = .lock ∧ args.overlaps (s.states q).data = true ∧
    (args.locktype ≠ .read ∨ (s.states q).data.lockType ≠ .read) ∧ ¬ sameLockOwner s exists? q

/-- An open for which a write lock is refused. -/
def LockArgs.Openmode (args : LockArgs) (s : Server) (q : ℕ) : Prop :=
  (s.states q).type = .share ∧ (s.states q).data.shareDeny &&& open4ShareDenyWrite ≠ 0 ∧
    (s.states q).data.shareAccess &&& open4ShareAccessWrite = 0 ∧ args.locktype = .write

/-- The loop of LOCK ends with what it has found. -/
lemma lockLoop_spec {fuel : ℕ} {l₁ l₂ : List ℕ} (args : LockArgs) (exists? : Option ℕ)
    (h : Shape s chain) (hentry : s.entries e = some entry) (hchain : chain e = l₁ ++ l₂)
    (hfuel : l₂.length < fuel) :
    ∃ scan, lockLoop s e entry args exists? fuel l₁.getLast? = some scan ∧
      (scan = .clear → ∀ q ∈ l₂, ¬ args.Denied s exists? q ∧ ¬ args.Openmode s q) := by
  induction l₂ generalizing l₁ fuel with
  | nil =>
    obtain ⟨fuel, rfl⟩ : ∃ n, fuel = n + 1 := ⟨fuel - 1, by omega⟩
    by_cases hdigest : entry.digest = none
    · refine ⟨.error, ?_, nofun⟩
      simp only [lockLoop, cacheInodeStateIterate, if_pos hdigest]
    · refine ⟨.clear, ?_, fun _ => nofun⟩
      simp only [lockLoop, h.iterate_eq hentry hchain hdigest, List.head?_nil]
  | cons p l₂ ih =>
    obtain ⟨fuel, rfl⟩ : ∃ n, fuel = n + 1 := ⟨fuel - 1, by omega⟩
    have hdigest := h.digest e entry hentry (by rw [hchain]; simp)
    have hchain' : chain e = (l₁ ++ [p]) ++ l₂ := by rw [hchain, List.append_assoc]; rfl
    simp only [lockLoop, h.iterate_eq hentry hchain hdigest, List.head?_cons]
    split_ifs with hdenied hopenmode
    · exact ⟨_, rfl, nofun⟩
    · exact ⟨_, rfl, nofun⟩
    · obtain ⟨scan, hscan, hclear⟩ := ih hchain' (by simpa using hfuel)
      rw [List.getLast?_concat] at hscan
      refine ⟨scan, hscan, fun heq q hq => ?_⟩
      rcases List.mem_cons.mp hq with rfl | hq
      · exact ⟨hdenied, hopenmode⟩
      · exact hclear heq q hq

/-- The lock state of a request. -/
def LockArgs.Makes (args : LockArgs) (st : State) : Prop :=
  st.type = .lock ∧ ∃ popenstate, st.data = .lock args.locktype args.offset args.length popenstate

/-- A state with the same data is made by the same request. -/
lemma LockArgs.Makes.same {st st' : State} (h : args.Makes st) (hsame : st.Same st') :
    args.Makes st' := by
  obtain ⟨htype, popenstate, hdata⟩ := h
  refine ⟨hsame.type.trans htype, popenstate, ?_⟩
  have hhold := hsame.hold
  rw [hdata] at hhold
  cases hd : st'.data with
  | share =>
    rw [hd] at hhold
    cases hhold
  | lock =>
    rw [hd] at hhold
    exact hhold

/-- The stateid of the first state of a new owner. -/
def Server.NewKeys (s : Server) (e : ℕ) (name : OwnerName) (st : State) : Prop :=
  s.htOpenOwner name = none ∧ ∃ fileid, (s.entries e).bind Entry.digest = some fileid ∧
    st.stateidOther = ⟨s.serverBootTime, fileid, (s.openOwnerCounter + 1).toUInt16⟩

/-- What the first lock of an owner does to the states. -/
lemma lockNewOwner_outcome {popenstate : ℕ} {name : OwnerName} {res : LockRes} (h : Valid s chain)
    (hlock : lockNewOwner s e popenstate args name env = some (res, s')) :
    Outcome s s' chain (res.status ≠ .ok)
      (fun e' st => e' = e ∧ args.Makes st ∧ (s'.owners st.powner).name = name ∧
        s.NewKeys e name st) fun _ _ => False := by
  unfold lockNewOwner at hlock
  rcases hget : getPrealloc s.nbPreStateV4 s.poolOpenOwner s.ownerArrays with ⟨_ | o, pool, arrays⟩
  · rw [hget] at hlock
    cases hlock
  obtain ⟨ho, hspare⟩ := h.getOwner hget
  simp only [hget] at hlock
  split_ifs at hlock
  set s₁ : Server := Server.setOwner { s with poolOpenOwner := pool, ownerArrays := arrays } o
    fun owner => { owner with
      name := name
      confirmed := false
      seqid := 0
      relatedOwner := some (s.states popenstate).powner } with hs₁
  have hp : Prepares s s₁ o name := by
    refine ⟨rfl, rfl, rfl, rfl, rfl, rfl, rfl, rfl, fun o' hne => setOwner_owners_of_ne hne, ?_,
      hspare⟩
    rw [hs₁, setOwner_owners_self]
  rcases hset : nfsOpenOwnerSet s₁ name o env.ownerSetOk with ⟨b, s₂⟩
  obtain ⟨hv, hb, hres⟩ := h.ownerSet hp ho rfl hset
  cases b with
  | false =>
    simp only [hset] at hlock
    cases hlock
    exact .keeps (by decide) hv (hb.still _)
  | true =>
    obtain ⟨hname, hcounter, hnew⟩ := hres rfl
    simp only [hset] at hlock
    obtain ⟨⟨status, r, s₃⟩, hadd, hlock⟩ := Option.bind_eq_some_iff.mp hlock
    have htakes : StateType.lock.Takes (.lock args.locktype args.offset args.length popenstate) :=
      trivial
    have hout := hv.addState htakes ⟨name, hname⟩ hadd
    -- the name of the new owner stays to the end
    have hfinish {K : Prop} {s' : Server} (hout : Outcome s₂ s' chain K
        (fun e' st => e' = e ∧ args.Makes st ∧ st.powner = o ∧
          s₂.keyOf e o = some st.stateidOther) fun _ _ => False) :
        Outcome s s' chain K (fun e' st => e' = e ∧ args.Makes st ∧
          (s'.owners st.powner).name = name ∧ s.NewKeys e name st) fun _ _ => False := by
      refine .after (hb.still _) ?_
      cases hout with
      | keeps hK hv' hs => exact .keeps hK hv' hs
      | deletes _ _ _ _ _ hD => exact hD.elim
      | adds e' p hp hv' hs hG =>
        obtain ⟨he, hmakes, howner, hkey⟩ := hG
        obtain ⟨entry, fileid, hentry, hdigest, hother⟩ := Server.keyOf_eq_some hkey
        refine .adds e' p hp hv' hs ⟨he, hmakes, ?_, hnew, fileid, ?_, ?_⟩
        · rw [howner]
          exact hv'.name _ o (hs.owners _ o hname)
        · rw [← hb.entries, hentry]
          exact hdigest
        · rw [hother, hcounter, hb.serverBootTime]
    have hout' := hout.mono id (fun e' st hG => show e' = e ∧ args.Makes st ∧ st.powner = o ∧
      s₂.keyOf e o = some st.stateidOther from
        ⟨hG.1, ⟨hG.2.1, _, hG.2.2.1⟩, hG.2.2.2.1, hG.2.2.2.2⟩) fun _ _ hD => hD
    split at hlock
    next p s₄ heq =>
      obtain ⟨rfl, rfl, rfl⟩ : status = .success ∧ r = some p ∧ s₃ = s₄ := by simpa using heq
      obtain ⟨data, hdata, hlock⟩ := Option.map_eq_some_iff.mp hlock
      cases hlock
      refine hfinish ?_
      refine ((hout'.mono (fun hne => absurd rfl hne) (fun _ _ hG => hG) fun _ _ hD => hD).bumps
        (bumps_incrSeqid _ _)).touchLockheld hdata ?_
      rintro e' st st' hsame ⟨he, hmakes, howner, hkey⟩
      exact ⟨he, hmakes.same hsame, hsame.powner.trans howner, hsame.other ▸ hkey⟩
    next s₄ _ heq =>
      obtain rfl : s₃ = s₄ := congrArg (fun r => r.2.2) heq
      cases hlock
      refine hfinish (hout'.mono (fun _ => by decide) (fun _ _ hG => hG) fun _ _ hD => hD)

/-- The request passes the checks on its range, its stateids and its seqids. -/
def LockArgs.Passes (args : LockArgs) (s : Server) (e : ℕ) (env : LockEnv) : Prop :=
  env.filehandle = none ∧ rangeChecks args.offset args.length = none ∧
    match args.locker with
    | .openOwner openSeqid stateidSeqid stateidOther lockSeqid _ =>
      (s.htStateId stateidOther).any fun p => (s.entries e).any fun entry =>
        lockOpenOwnerChecks s e entry p openSeqid stateidSeqid stateidOther lockSeqid env = none
    | .lockOwner stateidSeqid stateidOther lockSeqid =>
      (s.htStateId stateidOther).any fun p =>
        lockLockOwnerChecks s e p stateidSeqid lockSeqid = none

/-- What is known when a request without a new state is answered with `NFS4_OK`. -/
def LockArgs.Again (args : LockArgs) (s : Server) (e p : ℕ) (env : LockEnv) : Prop :=
  args.Passes s e env ∧ (∃ stateidSeqid stateidOther lockSeqid,
    args.locker = .lockOwner stateidSeqid stateidOther lockSeqid ∧
      s.htStateId stateidOther = some p ∧
      lockLockOwnerChecks s e p stateidSeqid lockSeqid = none) ∧
    ∀ q ∈ statesOf s e, ¬ args.Denied s (some p) q ∧ ¬ args.Openmode s q

/-- What is known when a request adds a lock state for the owner `name`. -/
def LockArgs.Grants (args : LockArgs) (s : Server) (e : ℕ) (name : OwnerName) (env : LockEnv) :
    Prop :=
  args.Passes s e env ∧ (∃ openSeqid stateidSeqid stateidOther lockSeqid,
    args.locker = .openOwner openSeqid stateidSeqid stateidOther lockSeqid name) ∧
    ∀ q ∈ statesOf s e, ¬ args.Denied s none q ∧ ¬ args.Openmode s q

variable {err : NfsStat}

lemma rangeChecks_ne_ok {offset length : UInt64} (h : rangeChecks offset length = some err) : err ≠ .ok := by
  unfold rangeChecks at h
  rintro rfl
  split_ifs at h <;> cases h

variable {stateidSeqid lockSeqid : UInt32} {other : Other}

/-- A check that fails is an error. -/
lemma lockOpenOwnerChecks_ne_ok {openSeqid : UInt32}
    (h : lockOpenOwnerChecks s e entry p openSeqid stateidSeqid other lockSeqid env =
      some err) :
    err ≠ .ok := by
  rintro rfl
  simp only [lockOpenOwnerChecks] at h
  split at h
  next =>
    repeat' split at h
    all_goals cases h
  next hne => exact hne (Option.some.inj h)

lemma lockOpenOwnerChecks_open {openSeqid : UInt32} {env : LockEnv}
    (h : lockOpenOwnerChecks s e entry p openSeqid stateidSeqid other lockSeqid env = none) :
    (s.states p).type = .share ∧ (s.states p).pentry = some e := by
  simp only [lockOpenOwnerChecks] at h
  split at h
  · split_ifs at h with h₁ h₂ h₃ h₄ h₅ h₆
    exact ⟨not_not.mp h₂, not_not.mp h₅⟩
  · cases h

lemma lockLockOwnerChecks_ne_ok (h : lockLockOwnerChecks s e p stateidSeqid lockSeqid = some err) : err ≠ .ok := by
  rintro rfl
  simp only [lockLockOwnerChecks] at h
  repeat' split at h
  all_goals cases h

lemma bumps_incrExists (s : Server) (exists? : Option ℕ) : Bumps s (incrExists s exists?) := by
  cases exists? with
  | none => exact .inl rfl
  | some q => exact bumps_incrSeqid s _

/-- What a LOCK of an owner that has the lock does to them. -/
lemma lockLockOwner_outcome {res : LockRes} (h : Valid s chain)
    (hlock : lockLockOwner s e stateidSeqid other lockSeqid = some (res, s')) :
    Outcome s s' chain (res.status = .ok → ∃ p, s.htStateId other = some p ∧
      lockLockOwnerChecks s e p stateidSeqid lockSeqid = none) (fun _ _ => False)
      fun _ _ => False := by
  unfold lockLockOwner at hlock
  split at hlock
  next =>
    cases hlock
    exact .refl h nofun
  next p hp =>
    split at hlock
    next err herr =>
      cases hlock
      exact .refl h fun hok => absurd hok (lockLockOwnerChecks_ne_ok herr)
    next hnone =>
      obtain ⟨hv, hs⟩ := h.touchSeqid (p := p) (f := fun seqid => seqid + 1)
      have hout (K : Prop) (hK : K) : Outcome s _ chain K (fun _ _ => False) fun _ _ => False :=
        .keeps hK hv hs
      dsimp only at hlock
      split at hlock
      next o _ =>
        cases hlock
        exact (hout _ fun _ => ⟨p, hp, hnone⟩).bumps (bumps_incrSeqid _ o)
      next =>
        cases hlock
        exact hout _ fun _ => ⟨p, hp, hnone⟩

/-- LOCK answers for what the loop has found, or goes on. -/
lemma lockScan_cases {exists? : Option ℕ} {scan : LockScan} {res : LockRes}
    {next : Option (LockRes × Server)} (h : Valid s chain) (hentry : s.entries e = some entry)
    (hscan : lockLoop s e entry args exists? (s.allocs + 1) none = some scan)
    (hlock : lockAnswer s exists? scan next = some (res, s')) :
    Outcome s s' chain (res.status = .ok → K) G D ∨
      (∀ q ∈ statesOf s e, ¬ args.Denied s exists? q ∧ ¬ args.Openmode s q) ∧
        next = some (res, s') := by
  obtain ⟨scan', hscan', hclear⟩ := lockLoop_spec args exists? h.toShape hentry
    (List.nil_append (chain e)).symm (Nat.lt_succ_of_le (h.allocs e))
  rw [List.getLast?_nil, hscan] at hscan'
  obtain rfl := Option.some.inj hscan'
  cases scan with
  | error =>
    cases hlock
    exact .inl (.refl h nofun)
  | denied p =>
    simp only [lockAnswer] at hlock
    split at hlock
    · cases hlock
    · cases hlock
      exact .inl ((Outcome.refl h nofun).bumps (bumps_incrExists s exists?))
  | openmode =>
    cases hlock
    exact .inl ((Outcome.refl h nofun).bumps (bumps_incrExists s exists?))
  | clear =>
    rw [h.statesOf_eq e]
    exact .inr ⟨hclear rfl, hlock⟩

/-- LOCK. -/
theorem nfs4OpLock_outcome {res : LockRes} (h : Valid s chain) (hfh : env.filehandle ≠ some .ok)
    (hlock : nfs4OpLock s e args env = some (res, s')) :
    Outcome s s' chain (res.status = .ok → ∃ p, args.Again s e p env)
      (fun e' st => e' = e ∧ args.Makes st ∧ args.Grants s e (s'.owners st.powner).name env ∧
        s.NewKeys e (s'.owners st.powner).name st) fun _ _ => False := by
  unfold nfs4OpLock at hlock
  split at hlock
  next err herr =>
    cases hlock
    exact .refl h fun hok => absurd (herr.trans (congrArg some hok)) hfh
  next hnone =>
    split at hlock
    next err herr =>
      cases hlock
      exact .refl h fun hok => absurd hok (rangeChecks_ne_ok herr)
    next hrange =>
      cases hlocker : args.locker with
      | openOwner openSeqid stateidSeqid other lockSeqid name =>
        simp only [hlocker, lockExists, lockOpen] at hlock
        cases hopen : cacheInodeGetState s other with
        | none =>
          simp only [hopen] at hlock
          cases hlock
          exact .refl h nofun
        | some popen =>
          simp only [hopen] at hlock
          obtain ⟨entry, hentry, hlock⟩ := Option.bind_eq_some_iff.mp hlock
          split_ifs at hlock
          obtain ⟨scan, hscan, hlock⟩ := Option.bind_eq_some_iff.mp hlock
          rcases lockScan_cases h hentry hscan hlock with hout | ⟨hclear, hlock⟩
          · exact hout
          unfold lockOpenOwner at hlock
          split at hlock
          next err herr =>
            cases hlock
            exact .refl h fun hok => absurd hok (lockOpenOwnerChecks_ne_ok herr)
          next hchecks =>
            refine (lockNewOwner_outcome h hlock).mono (fun hne hok => absurd hok hne)
              (fun e' st hG => ⟨hG.1, hG.2.1, ⟨⟨hnone, hrange, ?_⟩, ?_, hclear⟩, ?_⟩)
              fun _ _ hD => hD
            · have hopen' : s.htStateId other = some popen := hopen
              simp only [hlocker, hopen', hentry, Option.any_some, hchecks, decide_true]
            · exact ⟨openSeqid, stateidSeqid, other, lockSeqid, by rw [hG.2.2.1, hlocker]⟩
            · rw [hG.2.2.1]
              exact hG.2.2.2
      | lockOwner stateidSeqid other lockSeqid =>
        simp only [hlocker, lockExists, lockOpen] at hlock
        cases hexists : cacheInodeGetState s other with
        | none =>
          -- the stateid of all zeros passes the search, and is not found after it
          simp only [hexists] at hlock
          split_ifs at hlock
          · obtain ⟨entry, hentry, hlock⟩ := Option.bind_eq_some_iff.mp hlock
            split_ifs at hlock
            obtain ⟨scan, hscan, hlock⟩ := Option.bind_eq_some_iff.mp hlock
            rcases lockScan_cases h hentry hscan hlock with hout | ⟨-, hlock⟩
            · exact hout
            unfold lockLockOwner at hlock
            rw [hexists] at hlock
            cases hlock
            exact .refl h nofun
          · cases hlock
            exact .refl h nofun
        | some p =>
          simp only [hexists] at hlock
          obtain ⟨entry, hentry, hlock⟩ := Option.bind_eq_some_iff.mp hlock
          split_ifs at hlock
          obtain ⟨scan, hscan, hlock⟩ := Option.bind_eq_some_iff.mp hlock
          rcases lockScan_cases h hentry hscan hlock with hout | ⟨hclear, hlock⟩
          · exact hout
          refine (lockLockOwner_outcome h hlock).mono (fun hK hok => ?_)
            (fun _ _ hG => hG.elim) fun _ _ hD => hD
          obtain ⟨p', hp', hchecks⟩ := hK hok
          obtain rfl : p = p' := Option.some.inj (hexists.symm.trans hp')
          refine ⟨p, ⟨hnone, hrange, ?_⟩, ⟨_, _, _, hlocker, hp', hchecks⟩, hclear⟩
          simp only [hlocker, hp', Option.any_some, hchecks, decide_true]

end Lock

/-! ## LOCKU -/

lemma lockuChecks_ne_ok {args : LockuArgs} {err : NfsStat} (h : lockuChecks s p args = some err) :
    err ≠ .ok := by
  rintro rfl
  simp only [lockuChecks] at h
  repeat' split at h
  all_goals cases h

lemma State.Sound.lock_of_data {type : LockType} {offset length : UInt64} {popenstate : ℕ} (h : st.Sound)
    (hd : st.data = .lock type offset length popenstate) : st.type = .lock := by
  unfold State.Sound at h
  rw [hd] at h
  cases ht : st.type <;> rw [ht] at h <;> first | rfl | cases h

/-- LOCKU: the whole lock of the stateid is deleted, whatever the range. -/
theorem nfs4OpLocku_outcome {args : LockuArgs} {filehandle : Option NfsStat} {clientKnown : Bool}
    {res : NfsStat} (h : Valid s chain) (hfh : filehandle ≠ some .ok)
    (hlocku : nfs4OpLocku s e args filehandle clientKnown = some (res, s')) :
    Outcome s s' chain (res ≠ .ok) (fun _ _ => False) fun _ p => res = .ok ∧
      filehandle = none ∧ rangeChecks args.offset args.length = none ∧
        s.htStateId args.stateidOther = some p ∧ (s.states p).type = .lock ∧
        lockuChecks s p args = none := by
  unfold nfs4OpLocku at hlocku
  split at hlocku
  next err =>
    cases hlocku
    exact .refl h fun hok => hfh (congrArg some hok)
  next =>
    split at hlocku
    next err herr =>
      cases hlocku
      exact .refl h (rangeChecks_ne_ok herr)
    next hrange =>
      obtain ⟨entry, hentry, hlocku⟩ := Option.bind_eq_some_iff.mp hlocku
      split at hlocku
      next =>
        split at hlocku
        next =>
          cases hlocku
          exact .refl h nofun
        next p hp =>
          split at hlocku
          next err herr =>
            cases hlocku
            exact .refl h (lockuChecks_ne_ok herr)
          next hchecks =>
            split at hlocku
            next => cases hlocku
            next type offset length popen hd =>
              obtain ⟨data, hdata, hlocku⟩ := Option.bind_eq_some_iff.mp hlocku
              obtain ⟨o, -, hlocku⟩ := Option.bind_eq_some_iff.mp hlocku
              obtain ⟨e', hmem⟩ := (h.table _ p hp).2
              have htype := (h.sound e' p hmem).lock_of_data hd
              obtain ⟨hv₁, hs₁⟩ := h.touchLockheld (g := fun seqid => seqid + 1) hdata
              set s₁ := s.setState popen fun st => { st with seqid := st.seqid + 1, data := data }
              obtain ⟨hv₂, hs₂⟩ := hv₁.touchSeqid (p := p) (f := fun seqid => seqid + 1)
              set s₂ := s₁.setState p fun st => { st with seqid := st.seqid + 1 }
              obtain ⟨hv₃, hb₃⟩ := hv₂.setOwner (o := (s₂.states p).powner)
                (f := fun owner => { owner with seqid := owner.seqid + 1 }) fun _ => rfl
              obtain ⟨hv₄, hb₄⟩ := hv₃.setOwner (o := o)
                (f := fun owner => { owner with seqid := owner.seqid + 1 }) fun _ => rfl
              have hother : (s₂.states p).stateidOther = args.stateidOther := by
                rw [((hs₁.trans hs₂ le_rfl).same p ⟨e', hmem⟩).other, (h.table _ p hp).1]
              obtain ⟨s₅, hdel, hdeletes⟩ := cacheInodeDelState_spec (q := p) hv₄.toShape hmem
                (show s.htStateId (s₂.states p).stateidOther = some p by rw [hother]; exact hp)
              have hlocku' := (congrArg (Option.map _) hdel).symm.trans hlocku
              obtain ⟨rfl, rfl⟩ := Prod.mk.inj (Option.some.inj hlocku')
              refine .after (hs₁.trans (hs₂.trans ((hb₃.still _).trans (hb₄.still _) le_rfl) le_rfl)
                le_rfl) (hdeletes.outcome hv₄ ?_)
              exact ⟨rfl, rfl, hrange, hp, htype, hchecks⟩
      next hne =>
        cases hlocku
        exact .refl h hne

end Ganesha.Nfs4
