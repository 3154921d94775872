import Ganesha.Nfs4.LockTheorems

/-!
# LOCKT

`NFS_Protocols/nfs4_op_lockt.c`, and how far its answers are those of LOCK for a new lock owner.

LOCKT compares the bytes of the owners and not their clients; LOCK compares nothing when the lock
owner is new. Both use the overlap test of `Nfs4.overlaps`, which sees a lock only where the request
starts or ends in it (`overlaps_iff_endIn`), and both take a `READW_LT` for a write lock. `Agree` says
what the two requests should answer, and `agree_iff` when they do.
-/

namespace Ganesha.Nfs4
open Library.Transition
open Ganesha.Hash (getPrealloc)

variable {s s' : Server} {chain : ℕ → List ℕ} {e p q o : ℕ} {entry : Entry}

/-! ## The request -/

/-- `LOCKT4args`. -/
structure LocktArgs where
  locktype : LockType
  offset : UInt64
  length : UInt64
  owner : OwnerName

/-- What the rest of the server answers. `cacheStatus` is the value of the local `cache_status`, which
is read before anything is assigned to it. -/
structure LocktEnv where
  filehandle : Option NfsStat
  clientIdGet : Bool
  cacheStatus : CacheStatus

/-- The status and the lock that is in the way. -/
structure LocktRes where
  status : NfsStat
  denied : Option (UInt64 × UInt64 × LockType × List UInt8) := none

/-- The overlap of a request with the lock `data`. -/
def LocktArgs.overlaps (args : LocktArgs) : StateData → Bool
  | .share .. => false
  | .lock _ offset length _ =>
    Nfs4.overlaps offset (offset + length) args.offset (args.offset + args.length)

/-- The statuses with which the loop ends. -/
def CacheStatus.isIterateError (status : CacheStatus) : Bool :=
  status = .stateError ∨ status = .invalidArgument

/-- The answer when the lock `p` is in the way. -/
def locktDenied (s : Server) (p : ℕ) : Option LocktRes :=
  match (s.states p).data with
  | .share .. => none
  | .lock type offset length _ =>
    some
      { status := .denied
        denied := some (offset, length, type, (s.owners (s.states p).powner).name.ownerVal) }

/-- The loop of `nfs4_op_lockt`, `found` being `pstate_found`. A search that does not fail leaves the
status as it was. -/
def locktLoop (s : Server) (e : ℕ) (entry : Entry) (args : LocktArgs) (cacheStatus : CacheStatus) :
    ℕ → Option ℕ → Option LocktRes
  | 0, _ => none
  | fuel + 1, found => match cacheInodeStateIterate s e entry found with
    | .error _ => some { status := .inval }
    | .ok next =>
      if cacheStatus.isIterateError then some { status := .inval }
      else match next with
        | none => some { status := .ok }
        | some p =>
          let st := s.states p
          if st.type = .lock ∧ args.overlaps st.data ∧
              (args.locktype ≠ .read ∨ st.data.lockType ≠ .read) ∧
              args.owner.ownerVal ≠ (s.owners st.powner).name.ownerVal then
            locktDenied s p
          else locktLoop s e entry args cacheStatus fuel (some p)

/-- `nfs4_op_lockt` on the current entry `e`. -/
def nfs4OpLockt (s : Server) (e : ℕ) (args : LocktArgs) (env : LocktEnv) : Option LocktRes :=
  match env.filehandle with
  | some err => some { status := err }
  | none => (s.entries e).bind fun entry =>
    if entry.type ≠ .regular then
      some { status := if entry.type = .directory then .isdir else .inval }
    else match rangeChecks args.offset args.length with
      | some err => some { status := err }
      | none =>
        if ¬ env.clientIdGet then some { status := .staleClientid }
        else locktLoop s e entry args env.cacheStatus (s.allocs + 1) none

/-! ## What is in the way -/

/-- The LOCKT with the type and the range of a LOCK, for the owner `name`. -/
def LockArgs.lockt (args : LockArgs) (name : OwnerName) : LocktArgs :=
  ⟨args.locktype, args.offset, args.length, name⟩

/-- A lock of which LOCKT says that it is in the way. -/
def LockArgs.Tested (args : LockArgs) (s : Server) (name : OwnerName) (q : ℕ) : Prop :=
  args.Denied s none q ∧ name.ownerVal ≠ (s.owners (s.states q).powner).name.ownerVal

instance (args : LockArgs) (s : Server) (name : OwnerName) (q : ℕ) :
    Decidable (args.Tested s name q) := inferInstanceAs (Decidable (_ ∧ _))

/-- The first state of the file that keeps LOCK from going on. -/
def LockArgs.firstInWay (args : LockArgs) (s : Server) (e : ℕ) : Option ℕ :=
  (statesOf s e).find? fun q => args.Denied s none q ∨ args.Openmode s q

/-- Two locks that are not both read locks have a byte in common. -/
def StateData.Meets (type : LockType) (offset length : UInt64) : StateData → Prop
  | .lock type' offset' length' _ => ¬ (type.isRead ∧ type'.isRead) ∧
      ∃ x, InRange offset length x ∧ InRange offset' length' x
  | .share .. => False

/-- A lock of another owner that conflicts with the request. -/
def LockArgs.Conflicts (args : LockArgs) (s : Server) (name : OwnerName) (q : ℕ) : Prop :=
  (s.states q).type = .lock ∧ (s.owners (s.states q).powner).name ≠ name ∧
    (s.states q).data.Meets args.locktype args.offset args.length

/-- The loop of LOCKT ends at the first state in the way. -/
lemma locktLoop_eq {fuel : ℕ} {l₁ l₂ : List ℕ} {status : CacheStatus} (args : LockArgs)
    (name : OwnerName) (h : Shape s chain) (hentry : s.entries e = some entry)
    (hdigest : entry.digest ≠ none) (hstatus : status.isIterateError = false)
    (hchain : chain e = l₁ ++ l₂) (hfuel : l₂.length < fuel) :
    locktLoop s e entry (args.lockt name) status fuel l₁.getLast? =
      match l₂.find? fun q => args.Tested s name q with
      | some q => locktDenied s q
      | none => some { status := .ok } := by
  induction l₂ generalizing l₁ fuel with
  | nil =>
    obtain ⟨fuel, rfl⟩ : ∃ n, fuel = n + 1 := ⟨fuel - 1, by omega⟩
    simp only [locktLoop, h.iterate_eq hentry hchain hdigest, List.head?_nil, hstatus,
      Bool.false_eq_true, if_false, List.find?_nil]
  | cons p l₂ ih =>
    obtain ⟨fuel, rfl⟩ : ∃ n, fuel = n + 1 := ⟨fuel - 1, by omega⟩
    have hchain' : chain e = (l₁ ++ [p]) ++ l₂ := by
      rw [hchain, List.append_assoc]
      rfl
    have hrec := ih hchain' (by simpa using hfuel)
    rw [List.getLast?_concat] at hrec
    simp only [locktLoop, h.iterate_eq hentry hchain hdigest, List.head?_cons, hstatus,
      Bool.false_eq_true, if_false]
    -- the test of the loop is that of LOCK, and the comparison of the owners
    have htest : ((s.states p).type = .lock ∧ (args.lockt name).overlaps (s.states p).data ∧
        ((args.lockt name).locktype ≠ .read ∨ (s.states p).data.lockType ≠ .read) ∧
        (args.lockt name).owner.ownerVal ≠ (s.owners (s.states p).powner).name.ownerVal) ↔
          args.Tested s name p := by
      have hoverlaps : (args.lockt name).overlaps (s.states p).data =
          args.overlaps (s.states p).data := by
        cases (s.states p).data <;> rfl
      rw [hoverlaps]
      constructor
      · exact fun ⟨htype, hover, hread, hname⟩ =>
          ⟨⟨htype, hover, hread, Bool.false_ne_true⟩, hname⟩
      · exact fun ⟨⟨htype, hover, hread, _⟩, hname⟩ => ⟨htype, hover, hread, hname⟩
    rw [List.find?_cons]
    by_cases hp : args.Tested s name p
    · rw [if_pos (htest.mpr hp), decide_eq_true hp]
    · rw [if_neg (mt htest.mp hp), decide_eq_false hp]
      exact hrec

/-- The loop of LOCK does too. -/
lemma lockLoop_eq {fuel : ℕ} {l₁ l₂ : List ℕ} (args : LockArgs) (h : Shape s chain)
    (hentry : s.entries e = some entry) (hdigest : entry.digest ≠ none)
    (hchain : chain e = l₁ ++ l₂) (hfuel : l₂.length < fuel) :
    lockLoop s e entry args none fuel l₁.getLast? =
      match l₂.find? fun q => args.Denied s none q ∨ args.Openmode s q with
      | some q => some (if args.Denied s none q then .denied q else .openmode)
      | none => some .clear := by
  induction l₂ generalizing l₁ fuel with
  | nil =>
    obtain ⟨fuel, rfl⟩ : ∃ n, fuel = n + 1 := ⟨fuel - 1, by omega⟩
    simp only [lockLoop, h.iterate_eq hentry hchain hdigest, List.head?_nil, List.find?_nil]
  | cons p l₂ ih =>
    obtain ⟨fuel, rfl⟩ : ∃ n, fuel = n + 1 := ⟨fuel - 1, by omega⟩
    have hchain' : chain e = (l₁ ++ [p]) ++ l₂ := by
      rw [hchain, List.append_assoc]
      rfl
    have hrec := ih hchain' (by simpa using hfuel)
    rw [List.getLast?_concat] at hrec
    simp only [lockLoop, h.iterate_eq hentry hchain hdigest, List.head?_cons]
    rw [List.find?_cons]
    show (if args.Denied s none p then some (LockScan.denied p)
      else if args.Openmode s p then some LockScan.openmode
      else lockLoop s e entry args none fuel (some p)) = _
    by_cases hp : args.Denied s none p
    · rw [if_pos hp, decide_eq_true (.inl hp)]
      simp only [if_pos hp]
    · rw [if_neg hp]
      by_cases hmode : args.Openmode s p
      · rw [if_pos hmode, decide_eq_true (.inr hmode)]
        simp only [if_neg hp]
      · rw [if_neg hmode, decide_eq_false (not_or.mpr ⟨hp, hmode⟩)]
        exact hrec

/-! ## The answers -/

/-- All that LOCK needs of the server besides a free range: the file, the open of the lock, the
seqids and the memory. -/
structure LockReady (s : Server) (e : ℕ) (entry : Entry) (args : LockArgs) (name : OwnerName)
    (env : LockEnv) : Prop where
  filehandle : env.filehandle = none
  cached : s.entries e = some entry
  regular : entry.type = .regular
  digest : entry.digest ≠ none
  locker : ∃ openSeqid stateidSeqid other lockSeqid popen,
    args.locker = .openOwner openSeqid stateidSeqid other lockSeqid name ∧
      s.htStateId other = some popen ∧
      lockOpenOwnerChecks s e entry popen openSeqid stateidSeqid other lockSeqid env = none
  ownerPool : (getPrealloc s.nbPreStateV4 s.poolOpenOwner s.ownerArrays).1 ≠ none
  ownerName : env.ownerNameAlloc = true ∧ name.ownerVal.length ≤ s.maxnamlen
  statePool : (getPrealloc s.nbPreStateV4 s.poolStateV4 s.stateArrays).1 ≠ none
  tables : env.ownerSetOk = true ∧ env.stateSetOk = true

/-- All that LOCKT needs of the server, but for the value of `cache_status`. -/
structure LocktReady (env : LocktEnv) : Prop where
  filehandle : env.filehandle = none
  clientIdGet : env.clientIdGet = true

lemma nfsOpenOwnerSet_fst (s : Server) (name : OwnerName) (o : ℕ) (ok : Bool) :
    (nfsOpenOwnerSet s name o ok).1 = decide (ok = true ∧ s.htOpenOwner name = none) := by
  by_cases h : ok = true ∧ s.htOpenOwner name = none
  · rw [decide_eq_true h]
    exact congrArg Prod.fst (if_pos h)
  · rw [decide_eq_false h]
    exact congrArg Prod.fst (if_neg h)

lemma nfsOpenOwnerSet_nbPreStateV4 (s : Server) (name : OwnerName) (o : ℕ) (ok : Bool) :
    (nfsOpenOwnerSet s name o ok).2.nbPreStateV4 = s.nbPreStateV4 := by
  unfold nfsOpenOwnerSet
  dsimp only
  split_ifs <;> rfl

variable {args : LockArgs} {name : OwnerName} {env : LockEnv}

/-- A new lock owner gets the lock, unless its name is taken. -/
lemma lockNewOwner_status (h : Valid s chain) (hready : LockReady s e entry args name env)
    (hp : p ∈ used chain) (htype : (s.states p).type = .share) :
    ∃ res s', lockNewOwner s e p args name env = some (res, s') ∧
      res.status = if s.htOpenOwner name = none then .ok else .serverfault := by
  unfold lockNewOwner
  rcases hget : getPrealloc s.nbPreStateV4 s.poolOpenOwner s.ownerArrays with ⟨_ | o, pool, arrays⟩
  · exact absurd (congrArg Prod.fst hget) hready.ownerPool
  obtain ⟨ho, hspare⟩ := h.getOwner hget
  have hname : ¬ (¬ env.ownerNameAlloc ∨ name.ownerVal.length > s.maxnamlen) := by
    rw [not_or, not_not]
    exact ⟨hready.ownerName.1, Nat.not_lt.mpr hready.ownerName.2⟩
  simp only [if_neg hname]
  set s₁ : Server := Server.setOwner { s with poolOpenOwner := pool, ownerArrays := arrays } o
    fun owner => { owner with
      name := name
      confirmed := false
      seqid := 0
      relatedOwner := some (s.states p).powner } with hs₁
  have hprep : Prepares s s₁ o name := by
    refine ⟨rfl, rfl, rfl, rfl, rfl, rfl, rfl, rfl, fun o' hne => setOwner_owners_of_ne hne, ?_,
      hspare⟩
    rw [hs₁, setOwner_owners_self]
  rcases hset : nfsOpenOwnerSet s₁ name o env.ownerSetOk with ⟨b, s₂⟩
  obtain ⟨hv, hb, -⟩ := h.ownerSet hprep ho rfl hset
  have hb' : b = decide (s.htOpenOwner name = none) := by
    have hfst := nfsOpenOwnerSet_fst s₁ name o env.ownerSetOk
    rw [hset, hready.tables.1] at hfst
    have htable : s₁.htOpenOwner = s.htOpenOwner := rfl
    rw [htable] at hfst
    simpa using hfst
  have hnb : s₂.nbPreStateV4 = s.nbPreStateV4 := by
    have hsnd := nfsOpenOwnerSet_nbPreStateV4 s₁ name o env.ownerSetOk
    rw [hset] at hsnd
    exact hsnd
  by_cases hnew : s.htOpenOwner name = none
  swap
  · rw [decide_eq_false hnew] at hb'
    rw [hb', if_neg hnew]
    exact ⟨_, _, rfl, rfl⟩
  rw [decide_eq_true hnew] at hb'
  rw [hb', if_pos hnew]
  have hcached : s₂.entries e = some entry := by
    rw [hb.entries]
    exact hready.cached
  have hpool : (getPrealloc s₂.nbPreStateV4 s₂.poolStateV4 s₂.stateArrays).1 ≠ none := by
    rw [hnb, hb.poolStateV4, hb.stateArrays]
    exact hready.statePool
  obtain ⟨q, s₃, hadd, hsame⟩ := cacheInodeAddState_success hv.toShape hcached hready.regular
    hready.digest hpool (show StateType.lock ≠ .deleg by decide)
    (.lock args.locktype args.offset args.length p) o
  -- the open of the lock is a share, whose locks are counted
  have hdata : ∃ verifier access deny held,
      (s₃.states p).data = .share verifier access deny held := by
    obtain ⟨e', hp'⟩ := hp
    have hsound := h.sound e' p hp'
    rw [(State.core_eq.mp (hsame p ⟨e', hp'⟩)).2.1, hb.states]
    unfold State.Sound at hsound
    rw [htype] at hsound
    cases hd : (s.states p).data with
    | share verifier access deny held => exact ⟨verifier, access, deny, held, rfl⟩
    | lock =>
      rw [hd] at hsound
      cases hsound
  obtain ⟨verifier, access, deny, held, hdata⟩ := hdata
  have hdata' : ((s₃.incrSeqid (s₃.states p).powner).states p).data =
      .share verifier access deny held := hdata
  simp only [hready.tables.2, hadd, Option.bind_some, hdata', StateData.setLockheld, Option.map_some]
  exact ⟨_, _, rfl, rfl⟩

/-- What LOCKT answers. -/
def LockArgs.testStatus (args : LockArgs) (s : Server) (e : ℕ) (name : OwnerName) (env : LocktEnv) :
    NfsStat :=
  if env.cacheStatus.isIterateError then .inval
  else if ∃ q ∈ statesOf s e, args.Tested s name q then .denied
  else .ok

/-- What LOCK answers to a new lock owner. -/
def LockArgs.lockStatus (args : LockArgs) (s : Server) (e : ℕ) (name : OwnerName) : NfsStat :=
  match args.firstInWay s e with
  | some q => if args.Denied s none q then .denied else .openmode
  | none => if s.htOpenOwner name = none then .ok else .serverfault

/-- A lock state has lock data. -/
lemma Valid.lockData (h : Valid s chain) (hq : q ∈ chain e) (htype : (s.states q).type = .lock) :
    ∃ type offset length popenstate, (s.states q).data = .lock type offset length popenstate := by
  have hsound := h.sound e q hq
  unfold State.Sound at hsound
  rw [htype] at hsound
  cases hd : (s.states q).data with
  | share =>
    rw [hd] at hsound
    cases hsound
  | lock type offset length popenstate => exact ⟨type, offset, length, popenstate, rfl⟩

/-- The status of LOCKT for a request that passes the checks. -/
theorem nfs4OpLockt_status {envT : LocktEnv} (h : Valid s chain) (hready : LockReady s e entry args name env)
    (hreadyT : LocktReady envT) (hrange : rangeChecks args.offset args.length = none) :
    ∃ res, nfs4OpLockt s e (args.lockt name) envT = some res ∧
      res.status = args.testStatus s e name envT := by
  have hrange' : rangeChecks (args.lockt name).offset (args.lockt name).length = none := hrange
  have hregular : ¬ entry.type ≠ .regular := not_not_intro hready.regular
  simp only [nfs4OpLockt, hreadyT.filehandle, hready.cached, Option.bind_some, if_neg hregular,
    hrange', hreadyT.clientIdGet, not_true_eq_false, if_false]
  by_cases hstatus : envT.cacheStatus.isIterateError = true
  · -- the first search leaves the status as it was
    have hiter : cacheInodeStateIterate s e entry none = .ok entry.pstateHead := by
      rw [cacheInodeStateIterate, if_neg hready.digest]
    refine ⟨{ status := .inval }, ?_, ?_⟩
    · simp only [locktLoop, hiter, if_pos hstatus]
    · rw [LockArgs.testStatus, if_pos hstatus]
  · rw [LockArgs.testStatus, if_neg hstatus, h.statesOf_eq]
    have hloop := locktLoop_eq args name h.toShape hready.cached hready.digest
      (Bool.eq_false_iff.mpr hstatus) (List.nil_append (chain e)).symm
      (Nat.lt_succ_of_le (h.allocs e))
    rw [List.getLast?_nil] at hloop
    rw [hloop]
    cases hfind : (chain e).find? fun q => args.Tested s name q with
    | none =>
      have hnone : ¬ ∃ q ∈ chain e, args.Tested s name q := by
        rintro ⟨q, hq, htested⟩
        have hnot := List.find?_eq_none.mp hfind q hq
        exact hnot (decide_eq_true htested)
      rw [if_neg hnone]
      exact ⟨_, rfl, rfl⟩
    | some q =>
      have hmem := List.mem_of_find?_eq_some hfind
      have htested : args.Tested s name q := by
        have hsome := List.find?_some hfind
        exact of_decide_eq_true hsome
      obtain ⟨type, offset, length, popenstate, hdata⟩ := h.lockData hmem htested.1.1
      rw [if_pos ⟨q, hmem, htested⟩]
      simp only [locktDenied, hdata]
      exact ⟨_, rfl, rfl⟩

/-- The status of LOCK for a request that passes the checks. -/
theorem nfs4OpLock_status (h : Valid s chain) (hready : LockReady s e entry args name env)
    (hrange : rangeChecks args.offset args.length = none) :
    ∃ res s', nfs4OpLock s e args env = some (res, s') ∧
      res.status = args.lockStatus s e name := by
  obtain ⟨openSeqid, stateidSeqid, other, lockSeqid, popen, hlocker, hopen, hchecks⟩ := hready.locker
  have hregular : ¬ entry.type ≠ .regular := not_not_intro hready.regular
  have hloop := lockLoop_eq args h.toShape hready.cached hready.digest
    (List.nil_append (chain e)).symm (Nat.lt_succ_of_le (h.allocs e))
  rw [List.getLast?_nil] at hloop
  simp only [nfs4OpLock, hready.filehandle, hrange, hlocker, lockExists, lockOpen, cacheInodeGetState,
    hopen, hready.cached, Option.bind_some, if_neg hregular, hloop, LockArgs.lockStatus,
    LockArgs.firstInWay, h.statesOf_eq]
  cases hfind : (chain e).find? fun q => args.Denied s none q ∨ args.Openmode s q with
  | none =>
    simp only [Option.bind_some, lockAnswer, lockOpenOwner, hchecks]
    exact lockNewOwner_status h hready (h.table other popen hopen).2 (lockOpenOwnerChecks_open hchecks).1
  | some q =>
    have hmem := List.mem_of_find?_eq_some hfind
    by_cases hdenied : args.Denied s none q
    · obtain ⟨type, offset, length, popenstate, hdata⟩ := h.lockData hmem hdenied.1
      simp only [if_pos hdenied, Option.bind_some, lockAnswer, hdata]
      exact ⟨_, _, rfl, rfl⟩
    · simp only [if_neg hdenied, Option.bind_some, lockAnswer]
      exact ⟨_, _, rfl, rfl⟩

/-! ## Agreement -/

/-- LOCKT and LOCK answer `NFS4ERR_DENIED` just when there is a conflict, and `NFS4_OK` otherwise if
the range is well formed. -/
def Agree (s : Server) (e : ℕ) (args : LockArgs) (name : OwnerName) (env : LockEnv)
    (envT : LocktEnv) : Prop :=
  ∃ test lock s', nfs4OpLockt s e (args.lockt name) envT = some test ∧
    nfs4OpLock s e args env = some (lock, s') ∧
    (test.status = .denied ↔ lock.status = .denied) ∧
    (lock.status = .denied ↔ ∃ q ∈ statesOf s e, args.Conflicts s name q) ∧
    ((¬ ∃ q ∈ statesOf s e, args.Conflicts s name q) →
      rangeChecks args.offset args.length = none → test.status = .ok ∧ lock.status = .ok)

/-- The request from `a1` on has an end in the recorded range from `a` on: a range of bounded length
holds the first byte of the request or the one `len1 - 1` bytes behind it; a range to the end of
file is the whole file, and the request does not start at the last offset. Nothing wraps here. -/
def EndIn (a len a1 len1 : UInt64) : Prop :=
  if len = toEof then a = 0 ∧ a1 ≠ toEof
  else a.toNat + len.toNat < 2 ^ 64 ∧
    ∃ x ∈ [a1.toNat, a1.toNat + len1.toNat - 1], InRange a len x

/-- The recorded lock `q` has an end of the request in it, and not both are `READ_LT`. -/
def LockArgs.Hits (args : LockArgs) (s : Server) (q : ℕ) : Prop :=
  (s.states q).type = .lock ∧ match (s.states q).data with
    | .lock type offset length _ =>
      EndIn offset length args.offset args.length ∧ (args.locktype ≠ .read ∨ type ≠ .read)
    | .share .. => False

/-- When they do. -/
def AgreeFits (s : Server) (e : ℕ) (args : LockArgs) (name : OwnerName) (envT : LocktEnv) : Prop :=
  if rangeChecks args.offset args.length = none then
    envT.cacheStatus.isIterateError = false ∧
      ((∃ q ∈ statesOf s e, args.Conflicts s name q) →
        (∃ q ∈ statesOf s e, args.Hits s q ∧
          name.ownerVal ≠ (s.owners (s.states q).powner).name.ownerVal) ∧
        ∃ before q after, statesOf s e = before ++ q :: after ∧ args.Hits s q ∧
          ∀ p ∈ before, ¬ args.Openmode s p) ∧
      ((¬ ∃ q ∈ statesOf s e, args.Conflicts s name q) →
        (∀ q ∈ statesOf s e, ¬ args.Hits s q ∧ ¬ args.Openmode s q) ∧ s.htOpenOwner name = none)
  else ¬ ∃ q ∈ statesOf s e, args.Conflicts s name q

/-- The sum that wraps, of a range to the end of file. -/
lemma toNat_add_toEof {a : UInt64} (h : a ≠ 0) : (a + toEof).toNat = a.toNat - 1 := by
  have hpos : 0 < a.toNat := by
    rcases Nat.eq_zero_or_pos a.toNat with hz | hpos
    · exact absurd (UInt64.toNat_inj.mp hz) h
    · exact hpos
  have hlt := a.toNat_lt
  have heof : toEof.toNat = 2 ^ 64 - 1 := rfl
  rw [UInt64.toNat_add, heof]
  omega

/-- The overlap test by the wrapping sums sees the recorded locks in which the request has an end. -/
lemma overlaps_iff_endIn {a len a1 len1 : UInt64} (hrange1 : rangeChecks a1 len1 = none) :
    overlaps a (a + len) a1 (a1 + len1) = true ↔ EndIn a len a1 len1 := by
  have ha := a.toNat_lt
  have hlen := len.toNat_lt
  have ha1 := a1.toNat_lt
  have heof : toEof.toNat = 2 ^ 64 - 1 := rfl
  have hsum : (a + len).toNat = (a.toNat + len.toNat) % 2 ^ 64 := UInt64.toNat_add a len
  -- the end of the request
  have hend1 : len1 ≠ toEof → 0 < len1.toNat ∧ (a1 + len1).toNat = a1.toNat + len1.toNat :=
    toNat_end hrange1
  have hlt1 := (a1 + len1).toNat_lt
  have hend1' : len1 = toEof → a1 ≠ 0 → (a1 + len1).toNat = a1.toNat - 1 := by
    rintro rfl hne
    exact toNat_add_toEof hne
  have hend1'' : len1 = toEof → a1 = 0 → (a1 + len1).toNat = 2 ^ 64 - 1 := by
    rintro rfl rfl
    rfl
  have hzero1 : a1 = 0 ↔ a1.toNat = 0 := UInt64.toNat_inj.symm
  have hlen1 : len1 = toEof ↔ len1.toNat = 2 ^ 64 - 1 := by
    rw [← UInt64.toNat_inj, heof]
  have htest : overlaps a (a + len) a1 (a1 + len1) = true ↔
      (a.toNat ≤ a1.toNat ∧ a1.toNat < (a + len).toNat) ∨ (a1.toNat < a.toNat ∧
        a.toNat < (a1 + len1).toNat ∧ (a1 + len1).toNat ≤ (a + len).toNat) := by
    unfold overlaps
    by_cases hle : a ≤ a1
    · have hle' := UInt64.le_iff_toNat_le.mp hle
      rw [if_pos hle, decide_eq_true_iff, UInt64.lt_iff_toNat_lt]
      constructor
      · exact fun hlt => .inl ⟨hle', hlt⟩
      · rintro (⟨-, hlt⟩ | ⟨hlt, -⟩)
        · exact hlt
        · omega
    · have hle' : ¬ a.toNat ≤ a1.toNat := mt UInt64.le_iff_toNat_le.mpr hle
      rw [if_neg hle, decide_eq_true_iff, UInt64.lt_iff_toNat_lt, UInt64.le_iff_toNat_le]
      constructor
      · exact fun hin => .inr ⟨Nat.lt_of_not_le hle', hin⟩
      · rintro (⟨hle'', -⟩ | ⟨-, hin⟩)
        · exact absurd hle'' hle'
        · exact hin
  rw [htest]
  unfold EndIn
  by_cases hl : len = toEof
  · -- the recorded lock goes to the end of file
    rw [if_pos hl]
    by_cases hz : a = 0
    · have hend : (a + len).toNat = 2 ^ 64 - 1 := by
        rw [hz, hl]
        rfl
      have hne : a1 ≠ toEof ↔ a1.toNat ≠ 2 ^ 64 - 1 := by
        rw [← heof]
        exact not_congr UInt64.toNat_inj.symm
      have hz' : a.toNat = 0 := congrArg UInt64.toNat hz
      rw [hne]
      constructor
      · rintro (⟨-, hlt⟩ | ⟨hlt, -⟩)
        · exact ⟨hz, by omega⟩
        · omega
      · rintro ⟨-, hne⟩
        exact .inl ⟨by omega, by omega⟩
    · have hend : (a + len).toNat = a.toNat - 1 := by
        rw [hl]
        exact toNat_add_toEof hz
      constructor
      · rintro (⟨hle, hlt⟩ | ⟨-, hlt, hle⟩)
        · omega
        · omega
      · exact fun hin => absurd hin.1 hz
  · rw [if_neg hl]
    simp only [List.mem_cons, List.not_mem_nil, or_false, exists_eq_or_imp, exists_eq_left, InRange,
      hl, false_or]
    by_cases hfit : a.toNat + len.toNat < 2 ^ 64
    · rw [Nat.mod_eq_of_lt hfit] at hsum
      by_cases hl1 : len1 = toEof
      · by_cases hz1 : a1 = 0
        · have h1 := hend1'' hl1 hz1
          have h2 := hlen1.mp hl1
          have h3 := hzero1.mp hz1
          omega
        · have h1 := hend1' hl1 hz1
          have h2 := hlen1.mp hl1
          have h3 := mt hzero1.mpr hz1
          omega
      · obtain ⟨hpos, h1⟩ := hend1 hl1
        omega
    · -- a range that ends beyond the last offset is never seen
      have hwrap : (a + len).toNat < a.toNat := by
        rw [hsum]
        omega
      omega

/-- When a lock stands in the way. -/
lemma LockArgs.denied_iff (hrange : rangeChecks args.offset args.length = none) :
    args.Denied s none q ↔ args.Hits s q := by
  unfold LockArgs.Denied LockArgs.Hits
  cases hd : (s.states q).data with
  | share => simp [LockArgs.overlaps]
  | lock type offset length popenstate =>
    have hover : Nfs4.overlaps offset (offset + length) args.offset (args.offset + args.length) = true ↔
        EndIn offset length args.offset args.length := overlaps_iff_endIn hrange
    constructor
    · exact fun ⟨htype, hoverlaps, hread, _⟩ => ⟨htype, hover.mp hoverlaps, hread⟩
    · exact fun ⟨htype, hin, hread⟩ => ⟨htype, hover.mpr hin, hread, Bool.false_ne_true⟩

/-- The first state in the way is a lock if a lock comes before every open in the way. -/
lemma LockArgs.firstInWay_denied_iff :
    (∃ q ∈ args.firstInWay s e, args.Denied s none q) ↔
      ∃ before q after, statesOf s e = before ++ q :: after ∧ args.Denied s none q ∧
        ∀ p ∈ before, ¬ args.Openmode s p := by
  unfold LockArgs.firstInWay
  constructor
  · rintro ⟨q, hq, hdenied⟩
    obtain ⟨-, before, after, heq, hbefore⟩ := List.find?_eq_some_iff_append.mp hq
    refine ⟨before, q, after, heq, hdenied, fun p hp hmode => ?_⟩
    have hnot := hbefore p hp
    rw [decide_eq_true (.inr hmode)] at hnot
    cases hnot
  · rintro ⟨before, q, after, heq, hdenied, hbefore⟩
    rw [heq]
    clear heq
    induction before with
    | nil =>
      refine ⟨q, ?_, hdenied⟩
      rw [List.nil_append, List.find?_cons, decide_eq_true (.inl hdenied)]
      rfl
    | cons p before ih =>
      rw [List.cons_append, List.find?_cons]
      by_cases hp : args.Denied s none p
      · rw [decide_eq_true (.inl hp)]
        exact ⟨p, rfl, hp⟩
      · rw [decide_eq_false (not_or.mpr ⟨hp, hbefore p List.mem_cons_self⟩)]
        exact ih fun r hr => hbefore r (List.mem_cons_of_mem p hr)

lemma LockArgs.firstInWay_eq_none_iff :
    args.firstInWay s e = none ↔
      ∀ q ∈ statesOf s e, ¬ args.Denied s none q ∧ ¬ args.Openmode s q := by
  unfold LockArgs.firstInWay
  rw [List.find?_eq_none]
  refine forall₂_congr fun q _ => ?_
  rw [decide_eq_true_iff, not_or]

/-- The condition in terms of the tests of the two loops. -/
lemma agreeFits_iff {envT : LocktEnv} (hrange : rangeChecks args.offset args.length = none) :
    AgreeFits s e args name envT ↔ envT.cacheStatus.isIterateError = false ∧
      ((∃ q ∈ statesOf s e, args.Conflicts s name q) →
        (∃ q ∈ statesOf s e, args.Tested s name q) ∧
          ∃ q ∈ args.firstInWay s e, args.Denied s none q) ∧
      ((¬ ∃ q ∈ statesOf s e, args.Conflicts s name q) →
        args.firstInWay s e = none ∧ s.htOpenOwner name = none) := by
  rw [AgreeFits, if_pos hrange, LockArgs.firstInWay_denied_iff, LockArgs.firstInWay_eq_none_iff]
  simp only [LockArgs.Tested, LockArgs.denied_iff hrange]

lemma LockArgs.not_tested (h : args.firstInWay s e = none) : ¬ ∃ q ∈ statesOf s e, args.Tested s name q := by
  rintro ⟨q, hq, htested⟩
  exact (LockArgs.firstInWay_eq_none_iff.mp h q hq).1 htested.1

/-- LOCK is denied if the first state in the way denies it. -/
lemma LockArgs.lockStatus_eq_denied :
    args.lockStatus s e name = .denied ↔ ∃ q ∈ args.firstInWay s e, args.Denied s none q := by
  unfold LockArgs.lockStatus
  cases args.firstInWay s e with
  | none =>
    constructor
    · intro h
      dsimp only at h
      split_ifs at h
    · rintro ⟨q, hq, -⟩
      cases hq
  | some q =>
    by_cases hdenied : args.Denied s none q
    · simp only [if_pos hdenied, true_iff]
      exact ⟨q, rfl, hdenied⟩
    · simp only [if_neg hdenied]
      constructor
      · intro h
        cases h
      · rintro ⟨q', hq', hdenied'⟩
        cases hq'
        exact absurd hdenied' hdenied

/-- LOCK is granted if no state is in the way and the owner is new. -/
lemma LockArgs.lockStatus_eq_ok :
    args.lockStatus s e name = .ok ↔ args.firstInWay s e = none ∧ s.htOpenOwner name = none := by
  unfold LockArgs.lockStatus
  cases args.firstInWay s e with
  | none =>
    by_cases hnew : s.htOpenOwner name = none
    · simp [hnew]
    · simp [hnew]
  | some q =>
    constructor
    · intro h
      dsimp only at h
      split_ifs at h
    · rintro ⟨h, -⟩
      cases h

lemma rangeChecks_eq_inval {offset length : UInt64} (h : rangeChecks offset length ≠ none) :
    rangeChecks offset length = some .inval := by
  unfold rangeChecks at h ⊢
  split_ifs at h ⊢
  · rfl
  · rfl
  · exact absurd rfl h

/-- The two requests agree with each other and with the conflicts just when the condition holds. -/
theorem agree_iff {args : LockArgs} {name : OwnerName} {env : LockEnv} {envT : LocktEnv}
    (h : Valid s chain) (hready : LockReady s e entry args name env) (hreadyT : LocktReady envT) :
    Agree s e args name env envT ↔ AgreeFits s e args name envT := by
  by_cases hrange : rangeChecks args.offset args.length = none
  swap
  · -- both requests refuse the range
    have htest : nfs4OpLockt s e (args.lockt name) envT = some { status := .inval } := by
      have hrange' := rangeChecks_eq_inval hrange
      have hregular : ¬ entry.type ≠ .regular := not_not_intro hready.regular
      simp only [nfs4OpLockt, hreadyT.filehandle, hready.cached, Option.bind_some, if_neg hregular,
        LockArgs.lockt, hrange']
    have hlock : nfs4OpLock s e args env = some ({ status := .inval }, s) := by
      simp only [nfs4OpLock, hready.filehandle, rangeChecks_eq_inval hrange]
    rw [AgreeFits, if_neg hrange]
    constructor
    · rintro ⟨test, lock, s', -, hlock', -, hiff, -⟩ hconflict
      rw [hlock] at hlock'
      cases hlock'
      cases hiff.mpr hconflict
    · intro hno
      refine ⟨_, _, _, htest, hlock, Iff.rfl, ?_, fun _ hnone => absurd hnone hrange⟩
      exact ⟨nofun, fun hconflict => absurd hconflict hno⟩
  rw [agreeFits_iff hrange]
  obtain ⟨test, htest, htestStatus⟩ := nfs4OpLockt_status h hready hreadyT hrange
  obtain ⟨lock, s', hlock, hlockStatus⟩ := nfs4OpLock_status h hready hrange
  have hagree : Agree s e args name env envT ↔
      (test.status = .denied ↔ lock.status = .denied) ∧
      (lock.status = .denied ↔ ∃ q ∈ statesOf s e, args.Conflicts s name q) ∧
      ((¬ ∃ q ∈ statesOf s e, args.Conflicts s name q) → test.status = .ok ∧ lock.status = .ok) := by
    constructor
    · rintro ⟨test', lock', s'', htest', hlock', h₁, h₂, h₃⟩
      rw [htest] at htest'
      rw [hlock] at hlock'
      cases htest'
      cases hlock'
      exact ⟨h₁, h₂, fun hno => h₃ hno hrange⟩
    · rintro ⟨h₁, h₂, h₃⟩
      exact ⟨test, lock, s', htest, hlock, h₁, h₂, fun hno _ => h₃ hno⟩
  rw [hagree, htestStatus, hlockStatus, LockArgs.lockStatus_eq_denied, LockArgs.lockStatus_eq_ok,
    LockArgs.testStatus]
  by_cases hstatus : envT.cacheStatus.isIterateError = true
  · -- LOCKT answers neither
    rw [if_pos hstatus]
    constructor
    · rintro ⟨hsame, hiff, hfree⟩
      by_cases hconflict : ∃ q ∈ statesOf s e, args.Conflicts s name q
      · cases hsame.mpr (hiff.mpr hconflict)
      · cases (hfree hconflict).1
    · rintro ⟨hfalse, -⟩
      rw [hstatus] at hfalse
      cases hfalse
  rw [if_neg hstatus]
  constructor
  · rintro ⟨hsame, hiff, hfree⟩
    refine ⟨Bool.eq_false_iff.mpr hstatus, fun hconflict => ?_, fun hno => (hfree hno).2⟩
    have hdenied := hiff.mpr hconflict
    refine ⟨?_, hdenied⟩
    by_contra hnot
    have htested := hsame.mpr hdenied
    rw [if_neg hnot] at htested
    cases htested
  · rintro ⟨-, hconflicts, hfree⟩
    by_cases hconflict : ∃ q ∈ statesOf s e, args.Conflicts s name q
    · obtain ⟨htested, hdenied⟩ := hconflicts hconflict
      rw [if_pos htested]
      exact ⟨⟨fun _ => hdenied, fun _ => rfl⟩, ⟨fun _ => hconflict, fun _ => hdenied⟩,
        fun hno => absurd hconflict hno⟩
    · obtain ⟨hfirst, hnew⟩ := hfree hconflict
      have hnot : ¬ ∃ q ∈ args.firstInWay s e, args.Denied s none q := by
        rw [hfirst]
        rintro ⟨q, hq, -⟩
        cases hq
      rw [if_neg (LockArgs.not_tested hfirst)]
      exact ⟨⟨nofun, fun hdenied => absurd hdenied hnot⟩,
        ⟨fun hdenied => absurd hdenied hnot, fun hc => absurd hc hconflict⟩,
        fun _ => ⟨rfl, hfirst, hnew⟩⟩

/-! ## A file with one lock -/

/-- Bytes 10 to 19 of the file with the entry 7 are locked for writing. -/
def lockedServer : Server :=
  (execute step freshServer [openForLocks, writeLock 0 1 10 10]).getD freshServer

/-- A write lock on a range of that file for the owner `name`. -/
def secondLock (offset length : UInt64) (name : OwnerName) : LockArgs :=
  ⟨.write, offset, length, .openOwner 1 0 ⟨1, 42, 1⟩ 0 name⟩

/-- The rest of the server is in order. -/
def sampleLockEnv : LockEnv := ⟨none, true, true, true, true, true⟩

/-- The rest of the server is in order. -/
def sampleLocktEnv : LocktEnv := ⟨none, true, .success⟩

lemma lockedServer_run :
    execute step freshServer [openForLocks, writeLock 0 1 10 10] = some lockedServer := by
  have hsome : (execute step freshServer [openForLocks, writeLock 0 1 10 10]).isSome := by
    decide +kernel
  obtain ⟨s, hs⟩ := Option.isSome_iff_exists.mp hsome
  rw [lockedServer, hs]
  rfl

lemma lockedServer_valid : ∃ chain, Valid lockedServer chain :=
  valid_of_reachableBy freshServer_initial (fun _ _ h => h)
    (reachableBy_of_execute lockedServer_run (by decide +kernel))

/-- The sample requests pass the checks. -/
lemma lockedServer_ready (offset length : UInt64) (b : UInt8) :
    ∃ entry, LockReady lockedServer 7 entry (secondLock offset length ⟨1, [b]⟩) ⟨1, [b]⟩
      sampleLockEnv := by
  have hfile : (lockedServer.entries 7).any (fun entry => decide (entry.type = .regular) &&
      entry.digest.isSome && decide (lockOpenOwnerChecks lockedServer 7 entry 0 1 0 ⟨1, 42, 1⟩ 0
        sampleLockEnv = none)) = true := by
    decide +kernel
  rw [Option.any_eq_true] at hfile
  obtain ⟨entry, hentry, hfile⟩ := hfile
  simp only [Bool.and_eq_true, decide_eq_true_eq] at hfile
  refine ⟨entry, rfl, hentry, hfile.1.1, ?_, ⟨1, 0, ⟨1, 42, 1⟩, 0, 0, rfl, ?_, hfile.2⟩, ?_,
    ⟨rfl, ?_⟩, ?_, rfl, rfl⟩
  · exact Option.isSome_iff_ne_none.mp hfile.1.2
  · decide +kernel
  · decide +kernel
  · show 1 ≤ lockedServer.maxnamlen
    decide +kernel
  · decide +kernel

/-- A request of another owner that meets the lock conflicts. -/
lemma lockedServer_conflicts {offset length : UInt64} {b : UInt8} {x : ℕ} (hb : b ≠ 1)
    (hx : 10 ≤ x ∧ x < 20) (hrange : InRange offset length x) :
    ∃ q ∈ statesOf lockedServer 7,
      (secondLock offset length ⟨1, [b]⟩).Conflicts lockedServer ⟨1, [b]⟩ q := by
  have hlock : 1 ∈ statesOf lockedServer 7 ∧ (lockedServer.states 1).type = .lock ∧
      (lockedServer.owners (lockedServer.states 1).powner).name = ⟨1, [1]⟩ ∧
      (lockedServer.states 1).data = .lock .write 10 10 0 := by
    decide +kernel
  obtain ⟨hmem, htype, hname, hdata⟩ := hlock
  refine ⟨1, hmem, htype, ?_, ?_⟩
  · rw [hname]
    intro heq
    cases heq
    exact hb rfl
  · rw [hdata]
    exact ⟨fun hread => Bool.false_ne_true hread.2, x, hrange, hx.1, .inr hx.2⟩

/-- The bytes 0 to 99 are granted to another owner, though 10 to 19 are locked. -/
theorem not_agree_on_containing_range :
    ∃ entry, LockReady lockedServer 7 entry (secondLock 0 100 ⟨1, [2]⟩) ⟨1, [2]⟩ sampleLockEnv ∧
      LocktReady sampleLocktEnv ∧
      ¬ Agree lockedServer 7 (secondLock 0 100 ⟨1, [2]⟩) ⟨1, [2]⟩ sampleLockEnv sampleLocktEnv := by
  obtain ⟨entry, hready⟩ := lockedServer_ready 0 100 2
  refine ⟨entry, hready, ⟨rfl, rfl⟩, ?_⟩
  rintro ⟨test, lock, s', -, hlock, -, hiff, -⟩
  have hdenied := hiff.mpr (lockedServer_conflicts (x := 15) (by decide) (by decide) (by decide))
  have hstatus : (nfs4OpLock lockedServer 7 (secondLock 0 100 ⟨1, [2]⟩) sampleLockEnv).all
      (fun r => decide (r.1.status = .ok)) = true := by
    decide +kernel
  rw [hlock, Option.all_some, decide_eq_true_eq] at hstatus
  rw [hdenied] at hstatus
  cases hstatus

/-- The bytes 15 to 24 are refused by both. -/
theorem agree_on_overlapping_range :
    ∃ entry, LockReady lockedServer 7 entry (secondLock 15 10 ⟨1, [2]⟩) ⟨1, [2]⟩ sampleLockEnv ∧
      AgreeFits lockedServer 7 (secondLock 15 10 ⟨1, [2]⟩) ⟨1, [2]⟩ sampleLocktEnv ∧
      Agree lockedServer 7 (secondLock 15 10 ⟨1, [2]⟩) ⟨1, [2]⟩ sampleLockEnv sampleLocktEnv := by
  obtain ⟨entry, hready⟩ := lockedServer_ready 15 10 2
  obtain ⟨chain, hv⟩ := lockedServer_valid
  have hconflict : ∃ q ∈ statesOf lockedServer 7,
      (secondLock 15 10 ⟨1, [2]⟩).Conflicts lockedServer ⟨1, [2]⟩ q :=
    lockedServer_conflicts (x := 15) (by decide) (by decide) (by decide)
  have hfits : AgreeFits lockedServer 7 (secondLock 15 10 ⟨1, [2]⟩) ⟨1, [2]⟩ sampleLocktEnv := by
    have hlist : statesOf lockedServer 7 = [0, 1] := by
      decide +kernel
    have hlock : (lockedServer.states 1).type = .lock ∧
        (lockedServer.states 1).data = .lock .write 10 10 0 ∧
        (lockedServer.owners (lockedServer.states 1).powner).name.ownerVal = [1] := by
      decide +kernel
    obtain ⟨htype, hdata, howner⟩ := hlock
    have hhits : (secondLock 15 10 ⟨1, [2]⟩).Hits lockedServer 1 := by
      refine ⟨htype, ?_⟩
      rw [hdata]
      refine ⟨?_, .inr (by decide)⟩
      rw [EndIn, if_neg (by decide)]
      exact ⟨by decide, 15, List.mem_cons_self, by decide, .inr (by decide)⟩
    rw [AgreeFits, if_pos (by decide), hlist]
    refine ⟨rfl, fun _ => ⟨⟨1, by decide, hhits, ?_⟩, [0], 1, [], rfl, hhits, ?_⟩,
      fun hno => absurd (hlist ▸ hconflict) hno⟩
    · rw [howner]
      decide
    · decide +kernel
  exact ⟨entry, hready, hfits, (agree_iff hv hready ⟨rfl, rfl⟩).mpr hfits⟩

end Ganesha.Nfs4
