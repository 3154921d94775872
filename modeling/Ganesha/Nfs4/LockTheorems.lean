import Ganesha.Nfs4.Runs

/-!
# Byte-range locks

Beside the server goes what its answers have granted: for each file, each lock owner and each byte,
the type of the lock that a LOCK answered with `NFS4_OK` gave and no LOCKU took back. The granted
locks and the recorded lock states are free of conflicts (`NoLockConflict`) in runs that stay clear
of three gaps:

`LockFits` says so, and `noLockConflict_of_lockFits` is the result. The recorded states alone need the
first of the three conditions only (`recordedSafe_of_reachableBy`).
-/

namespace Ganesha.Nfs4
open Library.Transition

variable {s s' s₀ : Server} {chain : ℕ → List ℕ} {ev : Event} {e p q : ℕ}

/-! ## Ranges -/

/-- The length that means "lock until the end of file". -/
def toEof : UInt64 := 0xffffffffffffffff

/-- The byte `x` is in the range. -/
def InRange (offset length : UInt64) (x : ℕ) : Prop :=
  offset.toNat ≤ x ∧ (length = toEof ∨ x < offset.toNat + length.toNat)

/-- Two ranges have a byte in common. -/
def RangesMeet (a len a1 len1 : UInt64) : Prop :=
  (len1 = toEof ∨ a.toNat < a1.toNat + len1.toNat) ∧ (len = toEof ∨ a1.toNat < a.toNat + len.toNat)

/-- Ranges with a byte in common meet. -/
lemma rangesMeet_of_inRange {a len a1 len1 : UInt64} {x : ℕ} (h : InRange a len x)
    (h1 : InRange a1 len1 x) : RangesMeet a len a1 len1 := by
  unfold InRange at h h1
  unfold RangesMeet
  constructor
  · rcases h1.2 with heof | hlt
    · exact .inl heof
    · exact .inr (by omega)
  · rcases h.2 with heof | hlt
    · exact .inl heof
    · exact .inr (by omega)

/-- The range from `a1` on is one that the overlap test sees, against the recorded range from `a`
on: the recorded range ends, or starts at 0 and the request before the last byte; and the request
starts in it or ends in it. -/
def Seen (a len a1 len1 : UInt64) : Prop :=
  (len = toEof → a = 0 ∧ a1 < toEof) ∧
    (a ≤ a1 ∨ len1 ≠ toEof ∧ (len = toEof ∨ a1.toNat + len1.toNat ≤ a.toNat + len.toNat))

/-- A range that passes the check does not wrap. -/
lemma toNat_end {offset length : UInt64} (h : rangeChecks offset length = none)
    (hne : length ≠ toEof) :
    0 < length.toNat ∧ (offset + length).toNat = offset.toNat + length.toNat := by
  unfold rangeChecks at h
  split_ifs at h with hzero hover
  have hover' : length ≤ 0xffffffffffffffff - offset := by
    by_contra hlt
    exact hover ⟨hne, UInt64.not_le.mp hlt⟩
  have hle : length.toNat + offset.toNat < 2 ^ 64 := by
    have hle := UInt64.le_iff_toNat_le.mp hover'
    have hsub : (0xffffffffffffffff - offset).toNat = 2 ^ 64 - 1 - offset.toNat := by
      rw [UInt64.toNat_sub_of_le _ _ (by
        rw [UInt64.le_iff_toNat_le]
        have := offset.toNat_lt
        exact Nat.le_of_lt_succ this)]
      rfl
    have := offset.toNat_lt
    omega
  constructor
  · rcases Nat.eq_zero_or_pos length.toNat with hz | hpos
    · exact absurd (UInt64.toNat_inj.mp (hz.trans rfl)) hzero
    · exact hpos
  · rw [UInt64.toNat_add]
    omega

/-- The test sees a recorded range in which the request starts or ends. -/
lemma overlaps_of_seen {a len a1 len1 : UInt64} (hrange : rangeChecks a len = none)
    (hrange1 : rangeChecks a1 len1 = none) (hmeet : RangesMeet a len a1 len1)
    (hseen : Seen a len a1 len1) : overlaps a (a + len) a1 (a1 + len1) = true := by
  unfold overlaps
  by_cases hle : a ≤ a1
  · rw [if_pos hle, decide_eq_true_iff]
    by_cases heof : len = toEof
    · obtain ⟨rfl, hlt⟩ := hseen.1 heof
      rw [heof, UInt64.zero_add]
      exact hlt
    · rw [UInt64.lt_iff_toNat_lt, (toNat_end hrange heof).2]
      exact hmeet.2.resolve_left heof
  · rw [if_neg hle, decide_eq_true_iff]
    obtain ⟨hne1, hend⟩ := hseen.2.resolve_left hle
    have hlen : len ≠ toEof := by
      intro heof
      obtain ⟨rfl, -⟩ := hseen.1 heof
      exact hle (UInt64.zero_le)
    rw [UInt64.lt_iff_toNat_lt, UInt64.le_iff_toNat_le, (toNat_end hrange hlen).2,
      (toNat_end hrange1 hne1).2]
    exact ⟨hmeet.1.resolve_left hne1, hend.resolve_left hlen⟩

/-! ## Recorded locks -/

/-- Both kinds of read lock. -/
def LockType.isRead : LockType → Bool
  | .read | .readw => true
  | .write | .writew => false

/-- The range of a lock that has passed the checks of its request. -/
def StateData.RangeOk : StateData → Prop
  | .lock _ offset length _ => rangeChecks offset length = none
  | .share .. => True

/-- Two locks with a byte in common that are not both read locks. -/
def StateData.Clash : StateData → StateData → Prop
  | .lock type offset length _, .lock type' offset' length' _ =>
    RangesMeet offset length offset' length' ∧ ¬ (type.isRead ∧ type'.isRead)
  | _, _ => False

/-- A clash goes both ways. -/
lemma StateData.Clash.symm {data data' : StateData} (h : data.Clash data') : data'.Clash data := by
  cases data with
  | share => cases h
  | lock =>
    cases data' with
    | share => cases h
    | lock => exact ⟨⟨h.1.2, h.1.1⟩, fun hread => h.2 hread.symm⟩

/-- The locks of `a` and `b`. -/
def LocksApart (a b : Holding) : Prop :=
  (a.type = .lock → a.data.RangeOk) ∧
    (a.type = .lock → b.type = .lock → a.owner ≠ b.owner → ¬ a.data.Clash b.data)

/-- No two recorded locks of different owners on one file clash. -/
def RecordedSafe (s : Server) : Prop :=
  ∀ e, ∀ p ∈ statesOf s e, ∀ q ∈ statesOf s e,
    (s.states p).type = .lock → (s.states q).type = .lock →
    (s.owners (s.states p).powner).name ≠ (s.owners (s.states q).powner).name →
    ¬ (s.states p).data.Clash (s.states q).data

/-- The lock of the request. -/
def LockArgs.data (args : LockArgs) : StateData :=
  .lock args.locktype args.offset args.length 0

/-- The recorded lock `q` of another owner than `name` clashes with the request. -/
def LockArgs.Clashes (args : LockArgs) (s : Server) (name : OwnerName) (q : ℕ) : Prop :=
  (s.states q).type = .lock ∧ (s.owners (s.states q).powner).name ≠ name ∧
    args.data.Clash (s.states q).data

/-- The overlap test sees the lock `data`. -/
def LockArgs.Sees (args : LockArgs) : StateData → Prop
  | .lock _ offset length _ => Seen offset length args.offset args.length
  | .share .. => False

/-- A LOCK of a new owner: it is refused, or the overlap test sees the recorded locks that clash. -/
def NewLockFits (s : Server) (e : ℕ) (args : LockArgs) (name : OwnerName) : Prop :=
  (∃ q ∈ statesOf s e, args.Denied s none q ∨ args.Openmode s q) ∨
    ∀ q ∈ statesOf s e, args.Clashes s name q → args.Sees (s.states q).data

/-- The condition on the LOCKs of new owners. -/
def LockSeen (s : Server) : Event → Prop
  | .opLock e args env => args.Passes s e env → match args.locker with
    | .openOwner _ _ _ _ name => NewLockFits s e args name
    | .lockOwner .. => True
  | _ => True

lemma StateData.hold_rangeOk (data : StateData) : data.hold.RangeOk ↔ data.RangeOk := by
  cases data <;> rfl

lemma StateData.hold_clash (data data' : StateData) :
    data.hold.Clash data'.hold ↔ data.Clash data' := by
  cases data <;> cases data' <;> rfl

/-- A request that clashes with a lock that is seen is denied. -/
lemma LockArgs.denied_of_clashes {args : LockArgs} {name : OwnerName}
    (hrange : rangeChecks args.offset args.length = none) (hok : (s.states q).data.RangeOk)
    (hclash : args.Clashes s name q) (hsees : args.Sees (s.states q).data) :
    args.Denied s none q := by
  obtain ⟨htype, -, hmeet⟩ := hclash
  refine ⟨htype, ?_, ?_, by simp [sameLockOwner]⟩
  · cases hd : (s.states q).data with
    | share =>
      rw [hd] at hsees
      cases hsees
    | lock type offset length popenstate =>
      rw [hd] at hmeet hsees hok
      exact overlaps_of_seen hok hrange ⟨hmeet.1.2, hmeet.1.1⟩ hsees
  · cases hd : (s.states q).data with
    | share =>
      rw [hd] at hsees
      cases hsees
    | lock type offset length popenstate =>
      rw [hd] at hmeet
      by_contra hread
      rw [not_or, not_not, not_not] at hread
      refine hmeet.2 ⟨?_, ?_⟩
      · rw [hread.1]
        rfl
      · rw [show type = .read from hread.2]
        rfl

/-- A lock that is granted clashes with no recorded one. -/
lemma LockArgs.not_clashes_of_grants {args : LockArgs} {env : LockEnv} {name : OwnerName}
    (hpairs : Pairs LocksApart s) (hfits : LockSeen s (.opLock e args env))
    (hgrants : args.Grants s e name env) (hq : q ∈ statesOf s e) : ¬ args.Clashes s name q := by
  obtain ⟨hpasses, ⟨openSeqid, stateidSeqid, other, lockSeqid, hlocker⟩, hclear⟩ := hgrants
  intro hclash
  have hfits := hfits hpasses
  rw [hlocker] at hfits
  rcases hfits with ⟨r, hr, hdenied | hopenmode⟩ | hall
  · exact (hclear r hr).1 hdenied
  · exact (hclear r hr).2 hopenmode
  · have hok := (hpairs e q hq q hq).1 hclash.1
    rw [Server.holding, StateData.hold_rangeOk] at hok
    exact (hclear q hq).1 (args.denied_of_clashes hpasses.2.1 hok hclash (hall q hq hclash))

lemma LockArgs.Makes.clash_iff {args : LockArgs} {st : State} {data : StateData}
    (h : args.Makes st) : st.data.Clash data ↔ args.data.Clash data := by
  obtain ⟨-, popenstate, hdata⟩ := h
  rw [hdata]
  cases data <;> rfl

/-- One step keeps the recorded locks apart. -/
theorem step_locksApart (hv : Valid s chain) (hpairs : Pairs LocksApart s) (hpos : Possible s ev)
    (hfits : LockSeen s ev) (hstep : step s ev = some s') : Pairs LocksApart s' := by
  have hnolock {e p : ℕ} {G : Prop} (hG : ev.Adds s s' e (s'.states p))
      (hev : ∀ e' args env, ev ≠ .opLock e' args env) (htype : (s'.holding p).type = .lock) : G := by
    -- no other request adds a lock state
    cases ev with
    | load => exact hG.elim
    | opClose => exact hG.elim
    | opLocku => exact hG.elim
    | opLock e' args env => exact absurd rfl (hev e' args env)
    | opOpen args env =>
      have htype' : (s'.holding p).type = .share := hG.1
      rw [htype] at htype'
      cases htype'
  by_cases hev : ∃ e' args env, ev = .opLock e' args env
  swap
  · have hev' : ∀ e' args env, ev ≠ .opLock e' args env := fun e' args env heq =>
      hev ⟨e', args, env, heq⟩
    refine (step_outcome hv hpos hstep).pairs hv hpairs (fun e p hG => ⟨hnolock hG hev', ?_⟩) ?_
    · exact fun _ _ hne => absurd rfl hne
    · intro e p hG q hq
      exact ⟨⟨hnolock hG hev', hnolock hG hev'⟩, (hpairs e q hq q hq).1,
        fun _ => hnolock hG hev'⟩
  · obtain ⟨e', args, env, rfl⟩ := hev
    refine (step_outcome hv hpos hstep).pairs hv hpairs (fun e p hG => ⟨fun _ => ?_, ?_⟩) ?_
    · obtain ⟨-, ⟨-, popenstate, hdata⟩, hgrants, -⟩ := hG
      rw [Server.holding, StateData.hold_rangeOk, hdata]
      exact hgrants.1.2.1
    · exact fun _ _ hne => absurd rfl hne
    · rintro e p ⟨rfl, hmakes, hgrants, -⟩ q hq
      have hno : (s.states q).type = .lock →
          (s'.owners (s'.states p).powner).name ≠ (s.owners (s.states q).powner).name →
          ¬ (s'.states p).data.Clash (s.states q).data := fun htype hne hclash =>
        args.not_clashes_of_grants hpairs hfits hgrants hq
          ⟨htype, hne.symm, hmakes.clash_iff.mp hclash⟩
      refine ⟨⟨fun _ => ?_, fun _ htype hne hclash => ?_⟩, (hpairs e q hq q hq).1,
        fun htype _ hne hclash => ?_⟩
      · obtain ⟨-, popenstate, hdata⟩ := hmakes
        rw [Server.holding, StateData.hold_rangeOk, hdata]
        exact hgrants.1.2.1
      · rw [Server.holding, Server.holding, StateData.hold_clash] at hclash
        exact hno htype hne hclash
      · rw [Server.holding, Server.holding, StateData.hold_clash] at hclash
        exact hno htype hne.symm hclash.symm

lemma recordedSafe_of_pairs (h : Pairs LocksApart s) : RecordedSafe s := by
  intro e p hp q hq htype htype' hne hclash
  refine (h e p hp q hq).2 htype htype' hne ?_
  rw [Server.holding, Server.holding, StateData.hold_clash]
  exact hclash

/-- The recorded locks are apart in every run whose new locks are seen. -/
theorem recordedSafe_of_reachableBy (h₀ : Initial s₀)
    (h : ReachableBy step (fun s ev => Possible s ev ∧ LockSeen s ev) s₀ s) : RecordedSafe s := by
  have hinv : (∃ chain, Valid s chain) ∧ Pairs LocksApart s := by
    refine h.invariant (I := fun s => (∃ chain, Valid s chain) ∧ Pairs LocksApart s) ?_ ?_
    · refine ⟨⟨_, h₀.valid⟩, fun e p hp => ?_⟩
      rw [h₀.valid.statesOf_eq] at hp
      cases hp
    · rintro s ev s' ⟨⟨chain, hv⟩, hpairs⟩ ⟨hpos, hfits⟩ hstep
      exact ⟨(step_outcome hv hpos hstep).valid, step_locksApart hv hpairs hpos hfits hstep⟩
  exact recordedSafe_of_pairs hinv.2

/-! ## Granted locks -/

/-- For each file, owner and byte the type of the lock that has been granted. -/
abbrev Granted := ℕ → OwnerName → ℕ → Option LockType

/-- The owner of the state of a stateid. -/
def ownerOf (s : Server) (other : Other) : Option OwnerName :=
  (s.htStateId other).map fun p => (s.owners (s.states p).powner).name

/-- The owner that asks for a lock. -/
def requester (s : Server) : Locker → Option OwnerName
  | .openOwner _ _ _ _ name => some name
  | .lockOwner _ stateidOther _ => ownerOf s stateidOther

instance (offset length : UInt64) (x : ℕ) : Decidable (InRange offset length x) :=
  inferInstanceAs (Decidable (_ ∧ _))

/-- The bytes of a range get a lock, or lose it. -/
def Granted.set (g : Granted) (e : ℕ) (name : Option OwnerName) (offset length : UInt64)
    (lock : Option LockType) : Granted := fun e' name' x =>
  if e' = e ∧ some name' = name ∧ InRange offset length x then lock else g e' name' x

/-- The server and what it has granted, after an event. -/
def grantStep : Server × Granted → Event → Option (Server × Granted)
  | (s, g), .opLock e args env => (nfs4OpLock s e args env).map fun (res, s') =>
    (s', if res.status = .ok then
      g.set e (requester s args.locker) args.offset args.length (some args.locktype) else g)
  | (s, g), .opLocku e args filehandle clientKnown =>
    (nfs4OpLocku s e args filehandle clientKnown).map fun (res, s') =>
      (s', if res = .ok then
        g.set e (ownerOf s args.stateidOther) args.offset args.length none else g)
  | (s, g), ev => (step s ev).map fun s' => (s', g)

/-- Neither the granted locks nor the recorded ones conflict: locks of different owners on one byte
are read locks. -/
def NoLockConflict (σ : Server × Granted) : Prop :=
  RecordedSafe σ.1 ∧ ∀ e name name' x type type', name ≠ name' → σ.2 e name x = some type →
    σ.2 e name' x = some type' → type.isRead ∧ type'.isRead

/-- The lock `data` covers a lock of the type `type` on the range. -/
def StateData.Covers (offset length : UInt64) (type : LockType) : StateData → Prop
  | .lock type' offset' length' _ =>
    offset'.toNat ≤ offset.toNat ∧
      (length' = toEof ∨
        length ≠ toEof ∧ offset.toNat + length.toNat ≤ offset'.toNat + length'.toNat) ∧
      (type'.isRead → type.isRead)
  | .share .. => False

/-- The range contains that of the lock `data`. -/
def StateData.Within (offset length : UInt64) : StateData → Prop
  | .lock _ offset' length' _ =>
    offset.toNat ≤ offset'.toNat ∧
      (length = toEof ∨
        length' ≠ toEof ∧ offset'.toNat + length'.toNat ≤ offset.toNat + length.toNat)
  | .share .. => False

/-- A LOCK by an owner that has the lock `p`: it is refused, or asks for what `p` covers. -/
def OldLockFits (s : Server) (e : ℕ) (args : LockArgs) (p : ℕ) : Prop :=
  (∃ q ∈ statesOf s e, args.Denied s (some p) q ∨ args.Openmode s q) ∨
    (s.states p).data.Covers args.offset args.length args.locktype

/-- The condition on a LOCK. -/
def LockArgs.Fits (args : LockArgs) (s : Server) (e : ℕ) : Prop :=
  match args.locker with
  | .openOwner _ _ _ _ name => NewLockFits s e args name
  | .lockOwner _ stateidOther _ => ∀ p ∈ s.htStateId stateidOther, OldLockFits s e args p

/-- The conditions on the requests. -/
def LockFits (s : Server) : Event → Prop
  | .opLock e args env => args.Passes s e env → args.Fits s e
  | .opLocku e args _ _ => rangeChecks args.offset args.length = none →
      ∀ p ∈ s.htStateId args.stateidOther, (s.states p).type = .lock → lockuChecks s p args = none →
        (s.states p).pentry = some e ∧ (s.states p).data.Within args.offset args.length
  | _ => True

/-- The lock `data` is on the byte `x` and covers the type `type`. -/
def StateData.On (x : ℕ) (type : LockType) : StateData → Prop
  | .lock type' offset length _ => InRange offset length x ∧ (type'.isRead → type.isRead)
  | .share .. => False

lemma StateData.hold_on (data : StateData) (x : ℕ) (type : LockType) :
    data.hold.On x type ↔ data.On x type := by
  cases data <;> rfl

/-- A lock that covers a range is on its bytes. -/
lemma StateData.Covers.on {offset length : UInt64} {type : LockType} {data : StateData} {x : ℕ}
    (h : data.Covers offset length type) (hx : InRange offset length x) : data.On x type := by
  cases data with
  | share => cases h
  | lock type' offset' length' popenstate =>
    obtain ⟨hstart, hend, htype⟩ := h
    refine ⟨⟨hstart.trans hx.1, ?_⟩, htype⟩
    rcases hend with heof | ⟨hne, hle⟩
    · exact .inl heof
    · exact .inr ((hx.2.resolve_left hne).trans_le hle)

/-- The bytes of a lock within a range. -/
lemma StateData.Within.inRange {offset length : UInt64} {type : LockType} {data : StateData} {x : ℕ}
    (h : data.Within offset length) (hx : data.On x type) : InRange offset length x := by
  cases data with
  | share => cases h
  | lock type' offset' length' popenstate =>
    obtain ⟨hstart, hend⟩ := h
    refine ⟨hstart.trans hx.1.1, ?_⟩
    rcases hend with heof | ⟨hne, hle⟩
    · exact .inl heof
    · exact .inr ((hx.1.2.resolve_left hne).trans_le hle)

/-- A lock of `name` on the byte `x`. -/
def Holding.Records (a : Holding) (name : OwnerName) (x : ℕ) (type : LockType) : Prop :=
  a.type = .lock ∧ a.owner = name ∧ a.data.On x type

/-- Every granted byte has a recorded lock. -/
def Recorded (σ : Server × Granted) : Prop :=
  ∀ e name x type, σ.2 e name x = some type →
    ∃ p ∈ statesOf σ.1 e, (σ.1.holding p).Records name x type

/-- What a state recorded it records after the call. -/
lemma Outcome.records {K : Prop} {G : ℕ → State → Prop} {D : ℕ → ℕ → Prop} {name : OwnerName}
    {x : ℕ} {type : LockType} (h : Outcome s s' chain K G D) (hv : Valid s chain)
    (hp : p ∈ statesOf s e) (hD : ∀ e', ¬ D e' p) (hrec : (s.holding p).Records name x type) :
    ∃ p ∈ statesOf s' e, (s'.holding p).Records name x type := by
  rw [hv.statesOf_eq] at hp
  refine ⟨p, ?_⟩
  cases h with
  | keeps _ hv' hs =>
    rw [hv'.statesOf_eq, hv.holding_eq hv' hs ⟨e, hp⟩ ⟨e, hp⟩]
    exact ⟨hp, hrec⟩
  | adds e' p' _ hv' hs _ =>
    rw [hv'.statesOf_eq, hv.holding_eq hv' hs ⟨e, hp⟩ ⟨e, hp⟩]
    exact ⟨mem_extend.mpr (.inl hp), hrec⟩
  | deletes e' p' hp' hv' hs hDp =>
    have hne : p ≠ p' := fun heq => hD e' (heq ▸ hDp)
    rw [hv'.statesOf_eq, hv.holding_eq hv' hs ⟨e, hp⟩ ⟨⟨e, hp⟩, hne⟩]
    exact ⟨(hv.mem_shrink hp').mpr ⟨hp, hne⟩, hrec⟩

lemma Valid.mem_of_table {other : Other} (hv : Valid s chain) (hp : s.htStateId other = some p)
    (he : (s.states p).pentry = some e) : p ∈ statesOf s e := by
  obtain ⟨e', hmem⟩ := (hv.table other p hp).2
  have he' := hv.pentry e' p hmem
  rw [he] at he'
  rw [hv.statesOf_eq, Option.some.inj he']
  exact hmem

/-- After a LOCK what is granted is recorded. -/
lemma recorded_of_lock {g : Granted} {args : LockArgs} {env : LockEnv} {res : LockRes}
    (hv : Valid s chain) (hrec : Recorded (s, g)) (hpos : env.filehandle ≠ some .ok)
    (hfits : LockFits s (.opLock e args env))
    (hlock : nfs4OpLock s e args env = some (res, s')) :
    Recorded (s', if res.status = .ok then
      g.set e (requester s args.locker) args.offset args.length (some args.locktype) else g) := by
  have hout := nfs4OpLock_outcome hv hpos hlock
  have hold : Recorded (s', g) := fun e' name x type hg => by
    obtain ⟨p, hp, hprec⟩ := hrec e' name x type hg
    exact hout.records hv hp (fun _ => id) hprec
  split_ifs with hok
  swap
  · exact hold
  intro e' name x type hg
  dsimp only [Granted.set] at hg
  split_ifs at hg with hset
  swap
  · exact hold e' name x type hg
  obtain ⟨rfl, hname, hx⟩ := hset
  obtain rfl := Option.some.inj hg
  have hout' := hout
  cases hout with
  | keeps hK _ _ =>
    -- the request is for a lock that the owner has
    obtain ⟨p, hpasses, ⟨stateidSeqid, other, lockSeqid, hlocker, hp, hchecks⟩, hclear⟩ := hK hok
    simp only [lockLockOwnerChecks] at hchecks
    split_ifs at hchecks with htype hold' hseq hentry
    simp only [not_not] at htype hentry
    have hmem := hv.mem_of_table hp hentry
    have hcovers : (s.states p).data.Covers args.offset args.length args.locktype := by
      have hfits := hfits hpasses
      rw [LockArgs.Fits, hlocker] at hfits
      rcases hfits p hp with ⟨q, hq, hdenied | hopenmode⟩ | hcovers
      · exact absurd hdenied (hclear q hq).1
      · exact absurd hopenmode (hclear q hq).2
      · exact hcovers
    refine hout'.records hv hmem (fun _ => id) ⟨htype, ?_, ?_⟩
    · rw [hlocker, requester, ownerOf, hp] at hname
      exact (Option.some.inj hname).symm
    · rw [Server.holding, StateData.hold_on]
      exact hcovers.on hx
  | adds e'' p _ hv' _ hG =>
    obtain ⟨rfl, hmakes, hgrants, -⟩ := hG
    obtain ⟨-, ⟨openSeqid, stateidSeqid, other, lockSeqid, hlocker⟩, -⟩ := hgrants
    refine ⟨p, ?_, hmakes.1, ?_, ?_⟩
    · rw [hv'.statesOf_eq]
      exact mem_extend.mpr (.inr ⟨rfl, rfl⟩)
    · rw [hlocker, requester] at hname
      exact (Option.some.inj hname).symm
    · obtain ⟨-, popenstate, hdata⟩ := hmakes
      rw [Server.holding, StateData.hold_on, hdata]
      exact ⟨hx, id⟩
  | deletes _ _ _ _ _ hD => exact hD.elim

/-- After a LOCKU too. -/
lemma recorded_of_locku {g : Granted} {args : LockuArgs} {filehandle : Option NfsStat}
    {clientKnown : Bool} {res : NfsStat} (hv : Valid s chain) (hrec : Recorded (s, g))
    (hpos : filehandle ≠ some .ok) (hfits : LockFits s (.opLocku e args filehandle clientKnown))
    (hlocku : nfs4OpLocku s e args filehandle clientKnown = some (res, s')) :
    Recorded (s', if res = .ok then
      g.set e (ownerOf s args.stateidOther) args.offset args.length none else g) := by
  have hout := nfs4OpLocku_outcome hv hpos hlocku
  intro e' name x type hg
  have hg' : g e' name x = some type := by
    split_ifs at hg
    · dsimp only [Granted.set] at hg
      split_ifs at hg
      exact hg
    · exact hg
  obtain ⟨p, hp, hprec⟩ := hrec e' name x type hg'
  refine hout.records hv hp (fun e'' hD => ?_) hprec
  -- the byte would be in the range that is given back
  obtain ⟨hok, -, hrange, htable, htype, hchecks⟩ := hD
  obtain ⟨hentry, hwithin⟩ := hfits hrange p htable htype hchecks
  have he : e' = e := by
    rw [hv.statesOf_eq] at hp
    have he' := hv.pentry e' p hp
    rw [hentry] at he'
    exact (Option.some.inj he').symm
  rw [if_pos hok] at hg
  dsimp only [Granted.set] at hg
  rw [if_pos] at hg
  · cases hg
  · refine ⟨he, ?_, hwithin.inRange ((StateData.hold_on ..).mp hprec.2.2)⟩
    rw [ownerOf, htable, ← hprec.2.1]
    rfl

/-- One step keeps the granted bytes recorded. -/
theorem grantStep_recorded {g g' : Granted} (hv : Valid s chain) (hrec : Recorded (s, g))
    (hpos : Possible s ev) (hfits : LockFits s ev)
    (hstep : grantStep (s, g) ev = some (s', g')) : step s ev = some s' ∧ Recorded (s', g') := by
  have hother (hev : (step s ev).map (fun s' => (s', g)) = some (s', g'))
      (hD : ∀ p, (s.states p).type = .lock → ¬ ev.Deletes s p) :
      step s ev = some s' ∧ Recorded (s', g') := by
    obtain ⟨s'', hs'', heq⟩ := Option.map_eq_some_iff.mp hev
    obtain ⟨rfl, rfl⟩ := Prod.mk.inj heq
    refine ⟨hs'', fun e name x type hg => ?_⟩
    obtain ⟨p, hp, hprec⟩ := hrec e name x type hg
    exact (step_outcome hv hpos hs'').records hv hp (fun _ => hD p hprec.1) hprec
  cases ev with
  | load => exact hother hstep fun _ _ => id
  | opOpen => exact hother hstep fun _ _ => id
  | opClose =>
    refine hother hstep fun p hlock (hshare : (s.states p).type = .share) => ?_
    rw [hlock] at hshare
    cases hshare
  | opLock e args env =>
    obtain ⟨⟨res, s''⟩, hlock, heq⟩ := Option.map_eq_some_iff.mp hstep
    obtain ⟨rfl, rfl⟩ := Prod.mk.inj heq
    exact ⟨by simp only [step, hlock, Option.map_some],
      recorded_of_lock hv hrec hpos hfits hlock⟩
  | opLocku e args filehandle clientKnown =>
    obtain ⟨⟨res, s''⟩, hlocku, heq⟩ := Option.map_eq_some_iff.mp hstep
    obtain ⟨rfl, rfl⟩ := Prod.mk.inj heq
    exact ⟨by simp only [step, hlocku, Option.map_some],
      recorded_of_locku hv hrec hpos hfits hlocku⟩

/-- The condition for the records is part of the one for the grants. -/
lemma LockFits.seen (h : LockFits s ev) : LockSeen s ev := by
  cases ev with
  | opLock e args env =>
    intro hpasses
    have hfits := h hpasses
    cases hlocker : args.locker with
    | openOwner openSeqid stateidSeqid other lockSeqid name =>
      rw [LockArgs.Fits, hlocker] at hfits
      exact hfits
    | lockOwner stateidSeqid other lockSeqid => trivial
  | load => trivial
  | opOpen => trivial
  | opClose => trivial
  | opLocku => trivial

/-- Grants that are recorded do not conflict if the records do not. -/
lemma noLockConflict_of_recorded {σ : Server × Granted} (hpairs : Pairs LocksApart σ.1)
    (hrec : Recorded σ) : NoLockConflict σ := by
  refine ⟨recordedSafe_of_pairs hpairs, fun e name name' x type type' hne hg hg' => ?_⟩
  obtain ⟨p, hp, htype, rfl, hon⟩ := hrec e name x type hg
  obtain ⟨q, hq, htype', rfl, hon'⟩ := hrec e name' x type' hg'
  have hclash := (hpairs e p hp q hq).2 htype htype' hne
  cases hd : (σ.1.holding p).data with
  | share =>
    rw [hd] at hon
    cases hon
  | lock type₁ offset length popenstate =>
    cases hd' : (σ.1.holding q).data with
    | share =>
      rw [hd'] at hon'
      cases hon'
    | lock type₂ offset' length' popenstate' =>
      rw [hd] at hon hclash
      rw [hd'] at hon' hclash
      have hmeet := rangesMeet_of_inRange hon.1 hon'.1
      have hread : type₁.isRead ∧ type₂.isRead := by
        by_contra hread
        exact hclash ⟨hmeet, hread⟩
      exact ⟨hon.2 hread.1, hon'.2 hread.2⟩

/-- Byte-range locks are safe in every run whose requests all fit. -/
theorem noLockConflict_of_lockFits {σ : Server × Granted} (h₀ : Initial s₀)
    (h : ReachableBy grantStep (fun σ ev => Possible σ.1 ev ∧ LockFits σ.1 ev)
      (s₀, fun _ _ _ => none) σ) : NoLockConflict σ := by
  have hinv : (∃ chain, Valid σ.1 chain) ∧ Pairs LocksApart σ.1 ∧ Recorded σ := by
    refine h.invariant (I := fun σ => (∃ chain, Valid σ.1 chain) ∧ Pairs LocksApart σ.1 ∧
      Recorded σ) ?_ ?_
    · refine ⟨⟨_, h₀.valid⟩, fun e p hp => ?_, fun _ _ _ _ hg => nomatch hg⟩
      rw [h₀.valid.statesOf_eq] at hp
      cases hp
    · rintro ⟨s, g⟩ ev ⟨s', g'⟩ ⟨⟨chain, hv⟩, hpairs, hrec⟩ ⟨hpos, hfits⟩ hstep
      obtain ⟨hstep', hrec'⟩ := grantStep_recorded hv hrec hpos hfits hstep
      exact ⟨(step_outcome hv hpos hstep').valid,
        step_locksApart hv hpairs hpos hfits.seen hstep', hrec'⟩
  exact noLockConflict_of_recorded hinv.2.1 hinv.2.2

/-! ## Two runs -/

section Decidable

instance (a len a1 len1 : UInt64) : Decidable (RangesMeet a len a1 len1) :=
  inferInstanceAs (Decidable (_ ∧ _))

instance (a len a1 len1 : UInt64) : Decidable (Seen a len a1 len1) :=
  inferInstanceAs (Decidable ((_ → _) ∧ _))

instance : ∀ data data' : StateData, Decidable (data.Clash data')
  | .lock .., .lock .. => inferInstanceAs (Decidable (_ ∧ ¬ _))
  | .lock .., .share .. | .share .., _ => inferInstanceAs (Decidable False)

instance (args : LockArgs) (s : Server) (exists? : Option ℕ) (q : ℕ) :
    Decidable (args.Denied s exists? q) := inferInstanceAs (Decidable (_ ∧ _))

instance (args : LockArgs) (s : Server) (q : ℕ) : Decidable (args.Openmode s q) :=
  inferInstanceAs (Decidable (_ ∧ _))

instance (args : LockArgs) (s : Server) (name : OwnerName) (q : ℕ) :
    Decidable (args.Clashes s name q) := inferInstanceAs (Decidable (_ ∧ _))

instance (args : LockArgs) : ∀ data, Decidable (args.Sees data)
  | .lock .. => inferInstanceAs (Decidable (Seen ..))
  | .share .. => inferInstanceAs (Decidable False)

instance (offset length : UInt64) (type : LockType) : ∀ data : StateData,
    Decidable (data.Covers offset length type)
  | .lock .. => inferInstanceAs (Decidable (_ ∧ _ ∧ (_ → _)))
  | .share .. => inferInstanceAs (Decidable False)

instance (offset length : UInt64) : ∀ data : StateData, Decidable (data.Within offset length)
  | .lock .. => inferInstanceAs (Decidable (_ ∧ _))
  | .share .. => inferInstanceAs (Decidable False)

instance (s : Server) (e : ℕ) (args : LockArgs) (name : OwnerName) :
    Decidable (NewLockFits s e args name) := inferInstanceAs (Decidable (_ ∨ _))

instance (s : Server) (e : ℕ) (args : LockArgs) (p : ℕ) : Decidable (OldLockFits s e args p) :=
  inferInstanceAs (Decidable (_ ∨ _))

instance (args : LockArgs) (s : Server) (e : ℕ) (env : LockEnv) :
    Decidable (args.Passes s e env) :=
  match h : args.locker with
  | .openOwner openSeqid stateidSeqid stateidOther lockSeqid _ =>
    decidable_of_iff (env.filehandle = none ∧ rangeChecks args.offset args.length = none ∧
      (s.htStateId stateidOther).any fun p => (s.entries e).any fun entry =>
        lockOpenOwnerChecks s e entry p openSeqid stateidSeqid stateidOther lockSeqid env = none)
      (by simp only [LockArgs.Passes, h])
  | .lockOwner stateidSeqid stateidOther lockSeqid =>
    decidable_of_iff (env.filehandle = none ∧ rangeChecks args.offset args.length = none ∧
      (s.htStateId stateidOther).any fun p =>
        lockLockOwnerChecks s e p stateidSeqid lockSeqid = none)
      (by simp only [LockArgs.Passes, h])

instance (args : LockArgs) (s : Server) (e : ℕ) : Decidable (args.Fits s e) :=
  match h : args.locker with
  | .openOwner _ _ _ _ name =>
    decidable_of_iff (NewLockFits s e args name) (by simp only [LockArgs.Fits, h])
  | .lockOwner _ stateidOther _ =>
    decidable_of_iff (∀ p ∈ s.htStateId stateidOther, OldLockFits s e args p)
      (by simp only [LockArgs.Fits, h])

instance LockFits.decidable (s : Server) : ∀ ev, Decidable (LockFits s ev)
  | .opLock .. => inferInstanceAs (Decidable (_ → _))
  | .opLocku .. => inferInstanceAs (Decidable (_ → ∀ _ ∈ _, _))
  | .load .. | .opOpen .. | .opClose .. => inferInstanceAs (Decidable True)

end Decidable

/-- An OPEN for reading and writing of the file with the entry 7, which it creates. -/
def openForLocks : Event :=
  .opOpen (sampleOpen 1 .create 3 0) (sampleEnv (.error .notFound))

/-- A write lock of a new owner through that open. -/
def writeLock (openSeqid : UInt32) (owner : UInt8) (offset length : UInt64) : Event :=
  .opLock 7 ⟨.write, offset, length, .openOwner openSeqid 0 ⟨1, 42, 1⟩ 0 ⟨1, [owner]⟩⟩
    ⟨none, true, true, true, true, true⟩

/-- Bytes 10 to 19 are locked, and then another owner locks bytes 0 to 99. -/
theorem not_noLockConflict_after_containing_lock :
    ¬ ∀ s₀ σ, Initial s₀ → ReachableBy grantStep (fun σ ev => Possible σ.1 ev)
      (s₀, fun _ _ _ => none) σ → NoLockConflict σ := by
  intro h
  let events : List Event := [openForLocks, writeLock 0 1 10 10, writeLock 1 2 0 100]
  obtain ⟨σ, hσ⟩ : ∃ σ, execute grantStep (freshServer, fun _ _ _ => none) events = some σ :=
    Option.isSome_iff_exists.mp (by decide +kernel)
  have hreach : ReachableBy grantStep (fun σ ev => Possible σ.1 ev)
      (freshServer, fun _ _ _ => none) σ := reachableBy_of_execute hσ (by decide +kernel)
  have hread : (execute grantStep (freshServer, fun _ _ _ => none) events).all (fun σ =>
      σ.2 7 ⟨1, [1]⟩ 15 = some .write ∧ σ.2 7 ⟨1, [2]⟩ 15 = some .write) = true := by
    decide +kernel
  rw [hσ, Option.all_some, decide_eq_true_iff] at hread
  have hboth := (h freshServer σ freshServer_initial hreach).2 7 _ _ 15 _ _ (by decide)
    hread.1 hread.2
  exact absurd hboth (by decide)

/-- Bytes 10 to 19 are locked, another owner is refused bytes 15 to 19 and gets bytes 20 to 29, and
the first one gives its bytes back. -/
theorem noLockConflict_after_two_locks :
    (execute grantStep (freshServer, fun _ _ _ => none)
      [openForLocks, writeLock 0 1 10 10, writeLock 1 2 15 5, writeLock 1 2 20 10,
        .opLocku 7 ⟨0, 0, ⟨1, 42, 2⟩, 10, 10⟩ none true]).any (fun σ =>
          σ.2 7 ⟨1, [1]⟩ 15 = none ∧ σ.2 7 ⟨1, [2]⟩ 25 = some .write) = true ∧
      ∀ σ, execute grantStep (freshServer, fun _ _ _ => none)
        [openForLocks, writeLock 0 1 10 10, writeLock 1 2 15 5, writeLock 1 2 20 10,
          .opLocku 7 ⟨0, 0, ⟨1, 42, 2⟩, 10, 10⟩ none true] = some σ → NoLockConflict σ := by
  refine ⟨by decide +kernel, fun σ hσ => ?_⟩
  exact noLockConflict_of_lockFits freshServer_initial
    (reachableBy_of_execute hσ (by decide +kernel))

end Ganesha.Nfs4
