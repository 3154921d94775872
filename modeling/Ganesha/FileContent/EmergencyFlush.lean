import Mathlib.Data.Int.Order.Basic
import Ganesha.FileContent.Names

/-!
# The emergency flush of the data cache

`cache_content_emergency_flush` of `File_Content/cache_content_emergency_flush.c`, for one thread. The
streams of the cache directory go on over the entries that it had when they were opened.

`inum` is an `int`, from which the path of the data file is made (`narrow`, `widen`).
-/

namespace Ganesha.FileContent

/-- `fsal_handle_t`, as its bytes. -/
abbrev Handle := List UInt8

/-- The errors of the FSAL. -/
inductive FsalError
  | noent
  | stale
  | other (major : ℕ)
  deriving DecidableEq

/-- `cache_content_flush_behaviour_t`. -/
inductive FlushBehaviour
  | flushAndDelete
  | flushSyncOnly
  deriving DecidableEq

/-- `st_atime`, `st_mtime` and `st_ctime`. -/
structure Times where
  atime : ℤ
  mtime : ℤ
  ctime : ℤ

def Times.maxAcmtime (t : Times) : ℤ := max (max (max 0 t.atime) t.mtime) t.ctime

/-- What is copied to the FSAL, and what is removed from the cache. -/
inductive FlushEvent
  | copy (h : Handle) (path : Name)
  | unlink (path : Name)

/-- The answers of the system and of the FSAL. Those for an index file are given for its path. -/
structure FlushEnv where
  /-- `statfs` after the entry of this name: less is used than the low watermark. -/
  statfs : Name → Option Bool
  /-- `fopen` of an index file, and the handle that `sscanHandle` reads. -/
  fopen : Name → Option (Option Handle)
  /-- `stat` of a file that exists. -/
  times : Name → Times
  now : Name → ℤ
  str2path : Name → Option FsalError
  rcp : Name → Option FsalError
  /-- `unlink` of a file that exists. -/
  unlink : Name → Bool

structure FlushState where
  /-- The paths of the files in the cache. -/
  files : List Name
  localFlushhow : FlushBehaviour
  passcounter : UInt32
  nbFlushed : UInt32
  nbTooYoung : UInt32
  nbErrors : UInt32
  nbOrphans : UInt32
  events : List FlushEvent

/-- `inum` of `cache_content_emergency_flush`. -/
def narrow (fileid : UInt64) : Int32 := fileid.toUInt32.toInt32

/-- `inum` as an argument of `cache_content_get_datapath`. -/
def widen (inum : Int32) : UInt64 := inum.toInt64.toUInt64

def FlushState.unlink (s : FlushState) (env : FlushEnv) (path : Name) : Bool × FlushState :=
  if path ∈ s.files ∧ env.unlink path = true then
    (true, { s with files := s.files.filter (· ≠ path), events := s.events ++ [.unlink path] })
  else (false, s)

/-- The index file and then the data file are removed. `some` status is returned. -/
def removeEntry (env : FlushEnv) (indexpath datapath : Name) (s : FlushState) : Option Status × FlushState :=
  match s.unlink env indexpath with
  | (false, s) => (some .localCacheError, s)
  | (true, s) => match s.unlink env datapath with
    | (false, s) => (some .localCacheError, s)
    | (true, s) => (none, s)

/-- The data file is copied, and the answer treated. -/
def flushData (env : FlushEnv) (indexpath datapath : Name) (h : Handle) (s : FlushState) :
    Option Status × FlushState :=
  let (fsalStatus, s) : Option FsalError × FlushState := match env.str2path indexpath with
    | some e => (some e, s)
    | none => (env.rcp indexpath, { s with events := s.events ++ [.copy h datapath] })
  match fsalStatus with
  | some (.other _) => (none, { s with nbErrors := s.nbErrors + 1 })
  | some _ => removeEntry env indexpath datapath { s with nbOrphans := s.nbOrphans + 1 }
  | none =>
    let s := { s with nbFlushed := s.nbFlushed + 1 }
    match s.localFlushhow with
    | .flushAndDelete => removeEntry env indexpath datapath s
    | .flushSyncOnly => (none, s)

/-- An index file that could be named. -/
def flushIndex (env : FlushEnv) (gracePeriod : ℤ) (indexpath datapath : Name) (s : FlushState) :
    Option Status × FlushState :=
  match env.fopen indexpath with
  | none => (some .localCacheError, s)
  | some none => (none, s)
  | some (some h) =>
    if datapath ∉ s.files then (none, s)
    else if env.now indexpath - (env.times datapath).maxAcmtime < gracePeriod then
      (none, { s with nbTooYoung := s.nbTooYoung + 1 })
    else flushData env indexpath datapath h s

/-- After 100 passes the use of the file system is looked at. `none` is an error that is returned. -/
def checkWatermark (env : FlushEnv) (lwMarkTriggerFlag : Bool) (name : Name) (s : FlushState) :
    Option FlushState :=
  if lwMarkTriggerFlag = true ∧ s.localFlushhow = .flushAndDelete then
    if s.passcounter + 1 = 100 then
      (env.statfs name).map fun low =>
        { s with passcounter := 0, localFlushhow := if low then .flushSyncOnly else s.localFlushhow }
    else some { s with passcounter := s.passcounter + 1 }
  else some s

/-- One entry of the directory: `some` status is returned, and with `none` the loop goes on. -/
def flushEntry (env : FlushEnv) (cachedir : Name) (lwMarkTriggerFlag : Bool) (gracePeriod : ℤ)
    (name : Name) (s : FlushState) : Option (Option Status × FlushState) :=
  match checkWatermark env lwMarkTriggerFlag name s with
  | none => some (some .localCacheError, s)
  | some s =>
    if name.drop (name.length - 5) = indexSuffix then
      (cacheContentGetInum name).map fun fileid =>
        let inum := narrow fileid
        if inum = -1 then (none, s)
        else flushIndex env gracePeriod (snprintf maxpathlen (cachedir ++ slash :: name))
          (cacheContentGetDatapath cachedir (widen inum)) s
    else some (none, s)

/-- The loop over the entries that `cache_content_local_cache_dir_iter` returns. -/
def flushLoop (tree : CacheTree) (index mod : UInt32) (fuel : ℕ)
    (body : Name → FlushState → Option (Option Status × FlushState)) :
    ℕ → Dirinfo → FlushState → Option (Status × FlushState)
  | 0, _, _ => none
  | calls + 1, d, s =>
    (localCacheDirIter tree index mod fuel d).bind fun (r, d) =>
      match r with
      | none => some (.success, s)
      | some name => (body name s).bind fun
        | (some status, s) => some (status, s)
        | (none, s) => flushLoop tree index mod fuel body calls d s

/-- The state in which a flush starts. -/
def startState (cachedir : Name) (tree : CacheTree) (flushhow : FlushBehaviour) : FlushState where
  files := tree.files.map fun name => cachedir ++ slash :: name
  localFlushhow := flushhow
  passcounter := 0
  nbFlushed := 0
  nbTooYoung := 0
  nbErrors := 0
  nbOrphans := 0
  events := []

def cacheContentEmergencyFlush (tree : CacheTree) (cachedir : Name) (flushhow : FlushBehaviour)
    (lwMarkTriggerFlag : Bool) (gracePeriod : ℤ) (index mod : UInt32) (env : FlushEnv) (fuel calls : ℕ) :
    Option (Status × FlushState) :=
  flushLoop tree index mod fuel (flushEntry env cachedir lwMarkTriggerFlag gracePeriod) calls
    (localCacheOpendir tree) (startState cachedir tree flushhow)

/-! ## The loop as a run over the names -/

/-- The loop over names. -/
def flushNames (body : Name → FlushState → Option (Option Status × FlushState)) :
    List Name → FlushState → Option (Status × FlushState)
  | [], s => some (.success, s)
  | name :: names, s => (body name s).bind fun
    | (some status, s) => some (status, s)
    | (none, s) => flushNames body names s

/-- The loop of the flush over the iterator is a loop over the collected names. -/
lemma flushLoop_of_collect {tree : CacheTree} {index mod : UInt32} {fuel calls : ℕ} {d : Dirinfo}
    {names : List Name} (hcollect : collect tree index mod fuel calls d = some names)
    (body : Name → FlushState → Option (Option Status × FlushState)) (s : FlushState) :
    flushLoop tree index mod fuel body calls d s = flushNames body names s := by
  induction calls generalizing d names s with
  | zero => cases hcollect
  | succ calls ih =>
    rw [collect] at hcollect
    obtain ⟨⟨r, d'⟩, hiter, hrest⟩ := Option.bind_eq_some_iff.mp hcollect
    rw [flushLoop, hiter, Option.bind_some]
    cases r with
    | none =>
      cases hrest
      rfl
    | some name =>
      obtain ⟨names', hnames', rfl⟩ := Option.map_eq_some_iff.mp hrest
      rw [flushNames]
      show (body name s).bind _ = (body name s).bind _
      cases hbody : body name s with
      | none => rfl
      | some r =>
        obtain ⟨status, s'⟩ := r
        cases status with
        | some status => rfl
        | none => exact ih hnames' s'

/-! ## One entry -/

variable {env : FlushEnv} {indexpath datapath : Name} {h : Handle} {s s' s'' : FlushState}
  {new new' : List FlushEvent} {paths : List Name} {status : Option Status}

/-- The events, and the files that are left. -/
structure Step (s s' : FlushState) (new : List FlushEvent) (paths : List Name) : Prop where
  events : s'.events = s.events ++ new
  sub : ∀ p ∈ s'.files, p ∈ s.files
  kept : ∀ p ∈ s.files, p ∉ paths → p ∈ s'.files

lemma Step.of_same (hevents : s'.events = s.events) (hfiles : s'.files = s.files) (paths : List Name) :
    Step s s' [] paths where
  events := by rw [hevents, List.append_nil]
  sub p hp := hfiles ▸ hp
  kept p hp _ := hfiles ▸ hp

lemma Step.trans (h : Step s s' new paths) (h' : Step s' s'' new' paths) :
    Step s s'' (new ++ new') paths where
  events := by rw [h'.events, h.events, List.append_assoc]
  sub p hp := h.sub p (h'.sub p hp)
  kept p hp hnot := h'.kept p (h.kept p hp hnot) hnot

/-- An unlink removes its own path and is recorded. -/
lemma unlink_step (env : FlushEnv) {path : Name} (paths : List Name) (hpath : path ∈ paths) (s : FlushState) :
    ∃ new, Step s (s.unlink env path).2 new paths ∧ ∀ ev ∈ new, ev = .unlink path := by
  unfold FlushState.unlink
  by_cases hok : path ∈ s.files ∧ env.unlink path = true
  · rw [if_pos hok]
    refine ⟨[.unlink path], ⟨rfl, fun p hp => (List.mem_filter.mp hp).1, fun p hp hnot => ?_⟩, ?_⟩
    · apply List.mem_filter.mpr ⟨hp, _⟩
      rw [decide_eq_true_eq]
      rintro rfl
      exact hnot hpath
    · intro ev hev
      exact List.mem_singleton.mp hev
  · rw [if_neg hok]
    exact ⟨[], .of_same rfl rfl paths, fun ev hev => absurd hev List.not_mem_nil⟩

/-- The removal of both files, with the exits between them. -/
lemma removeEntry_step (env : FlushEnv) (indexpath datapath : Name) (s : FlushState) :
    ∃ new, Step s (removeEntry env indexpath datapath s).2 new [indexpath, datapath] ∧
      ∀ ev ∈ new, ev = .unlink indexpath ∨ ev = .unlink datapath := by
  obtain ⟨new, hstep, hnew⟩ := unlink_step env [indexpath, datapath] List.mem_cons_self s
  unfold removeEntry
  cases hindex : s.unlink env indexpath with
  | mk ok s₁ =>
    rw [hindex] at hstep
    cases ok with
    | false => exact ⟨new, hstep, fun ev hev => .inl (hnew ev hev)⟩
    | true =>
      obtain ⟨new', hstep', hnew'⟩ := unlink_step env [indexpath, datapath]
        (List.mem_cons_of_mem _ List.mem_cons_self) s₁
      have hboth : Step s (s₁.unlink env datapath).2 (new ++ new') [indexpath, datapath] := hstep.trans hstep'
      refine ⟨new ++ new', ?_, fun ev hev => ?_⟩
      · dsimp only
        cases hdata : s₁.unlink env datapath with
        | mk ok s₂ =>
          rw [hdata] at hboth
          cases ok with
          | false => exact hboth
          | true => exact hboth
      · rcases List.mem_append.mp hev with hev | hev
        · exact .inl (hnew ev hev)
        · exact .inr (hnew' ev hev)

/-- The status of the FSAL for an index file. -/
def FlushEnv.fsalStatus (env : FlushEnv) (indexpath : Name) : Option FsalError :=
  match env.str2path indexpath with
  | some e => some e
  | none => env.rcp indexpath

/-- The entry has been copied, or the FSAL does not know its file. -/
def Settled (env : FlushEnv) (indexpath datapath : Name) (events : List FlushEvent) : Prop :=
  ∃ h, env.fopen indexpath = some (some h) ∧
    (env.fsalStatus indexpath = none ∧ .copy h datapath ∈ events ∨
      env.fsalStatus indexpath = some .noent ∨ env.fsalStatus indexpath = some .stale)

/-- What is done for an index file with the data file at `datapath`. -/
structure Treated (env : FlushEnv) (gracePeriod : ℤ) (indexpath datapath : Name) (s s' : FlushState)
    (status : Option Status) (new : List FlushEvent) : Prop where
  step : Step s s' new [indexpath, datapath]
  copied : ∀ h p, .copy h p ∈ new → p = datapath ∧ env.fopen indexpath = some (some h)
  removed : ∀ p, .unlink p ∈ new → (p = indexpath ∨ p = datapath) ∧ Settled env indexpath datapath new
  complete : status = none → ∀ h, env.fopen indexpath = some (some h) → datapath ∈ s.files →
    gracePeriod ≤ env.now indexpath - (env.times datapath).maxAcmtime → env.str2path indexpath = none →
    .copy h datapath ∈ new

/-- An entry whose file is gone after the copy was made. -/
lemma Treated.remove {gracePeriod : ℤ} (hopen : env.fopen indexpath = some (some h)) {copies : List FlushEvent}
    (hstep : Step s s' copies [indexpath, datapath])
    (hcopies : ∀ ev ∈ copies, ev = .copy h datapath)
    (hcopy : env.str2path indexpath = none → .copy h datapath ∈ copies)
    (hstatus : env.fsalStatus indexpath = none ∧ .copy h datapath ∈ copies ∨
      env.fsalStatus indexpath = some .noent ∨ env.fsalStatus indexpath = some .stale) :
    ∃ new, Treated env gracePeriod indexpath datapath s (removeEntry env indexpath datapath s').2
      (removeEntry env indexpath datapath s').1 new := by
  obtain ⟨new, hremove, hnew⟩ := removeEntry_step env indexpath datapath s'
  refine ⟨copies ++ new, hstep.trans hremove, fun h' p hmem => ?_, fun p hmem => ⟨?_, h, hopen, ?_⟩, ?_⟩
  · rcases List.mem_append.mp hmem with hmem | hmem
    · obtain ⟨rfl, rfl⟩ := FlushEvent.copy.inj (hcopies _ hmem)
      exact ⟨rfl, hopen⟩
    · rcases hnew _ hmem with heq | heq
      · cases heq
      · cases heq
  · rcases List.mem_append.mp hmem with hmem | hmem
    · cases hcopies _ hmem
    · exact (hnew _ hmem).imp FlushEvent.unlink.inj FlushEvent.unlink.inj
  · exact hstatus.imp_left fun hboth => ⟨hboth.1, List.mem_append_left new hboth.2⟩
  · intro _ h' hopen' _ _ hpath
    rw [hopen] at hopen'
    cases hopen'
    exact List.mem_append_left new (hcopy hpath)

/-- An entry whose files stay. -/
lemma Treated.keep {gracePeriod : ℤ} (hopen : env.fopen indexpath = some (some h)) {copies : List FlushEvent}
    (hstep : Step s s' copies [indexpath, datapath])
    (hcopies : ∀ ev ∈ copies, ev = .copy h datapath)
    (hcopy : env.str2path indexpath = none → .copy h datapath ∈ copies) (status : Option Status) :
    ∃ new, Treated env gracePeriod indexpath datapath s s' status new := by
  refine ⟨copies, hstep, fun h' p hmem => ?_, fun p hmem => ?_, fun _ h' hopen' _ _ hpath => ?_⟩
  · obtain ⟨rfl, rfl⟩ := FlushEvent.copy.inj (hcopies _ hmem)
    exact ⟨rfl, hopen⟩
  · cases hcopies _ hmem
  · rw [hopen] at hopen'
    cases hopen'
    exact hcopy hpath

/-- The data file: one case for each test of the source. -/
lemma flushData_treated (gracePeriod : ℤ) (hopen : env.fopen indexpath = some (some h)) (s : FlushState) :
    ∃ new, Treated env gracePeriod indexpath datapath s (flushData env indexpath datapath h s).2
      (flushData env indexpath datapath h s).1 new := by
  unfold flushData
  cases hpath : env.str2path indexpath with
  | some e =>
    -- the handle is not to be had, so the copy is not made
    have hfsal : env.fsalStatus indexpath = some e := by rw [FlushEnv.fsalStatus, hpath]
    have hno : env.str2path indexpath = none → FlushEvent.copy h datapath ∈ [] := by
      intro hnone
      rw [hpath] at hnone
      cases hnone
    have hempty : ∀ ev ∈ ([] : List FlushEvent), ev = .copy h datapath :=
      fun ev hev => absurd hev List.not_mem_nil
    have hstep : ∀ s' : FlushState, s'.events = s.events → s'.files = s.files →
        Step s s' [] [indexpath, datapath] := fun s' hevents hfiles => .of_same hevents hfiles _
    cases e with
    | noent => exact Treated.remove hopen (hstep _ rfl rfl) hempty hno (.inr (.inl hfsal))
    | stale => exact Treated.remove hopen (hstep _ rfl rfl) hempty hno (.inr (.inr hfsal))
    | other major =>
      refine Treated.keep hopen ?_ hempty hno _
      exact hstep _ rfl rfl
  | none =>
    have hfsal : env.fsalStatus indexpath = env.rcp indexpath := by rw [FlushEnv.fsalStatus, hpath]
    have hone : ∀ ev ∈ [FlushEvent.copy h datapath], ev = .copy h datapath :=
      fun ev hev => List.mem_singleton.mp hev
    have hmem : FlushEvent.copy h datapath ∈ [FlushEvent.copy h datapath] := List.mem_singleton_self _
    have hstep : ∀ s' : FlushState, s'.events = s.events ++ [.copy h datapath] → s'.files = s.files →
        Step s s' [.copy h datapath] [indexpath, datapath] :=
      fun s' hevents hfiles => ⟨hevents, fun p hp => hfiles ▸ hp, fun p hp _ => hfiles ▸ hp⟩
    dsimp only
    cases hrcp : env.rcp indexpath with
    | some e =>
      rw [hrcp] at hfsal
      cases e with
      | noent => exact Treated.remove hopen (hstep _ rfl rfl) hone (fun _ => hmem) (.inr (.inl hfsal))
      | stale => exact Treated.remove hopen (hstep _ rfl rfl) hone (fun _ => hmem) (.inr (.inr hfsal))
      | other major =>
        refine Treated.keep hopen ?_ hone (fun _ => hmem) _
        exact hstep _ rfl rfl
    | none =>
      rw [hrcp] at hfsal
      dsimp only
      cases s.localFlushhow with
      | flushAndDelete => exact Treated.remove hopen (hstep _ rfl rfl) hone (fun _ => hmem) (.inl ⟨hfsal, hmem⟩)
      | flushSyncOnly =>
        refine Treated.keep hopen ?_ hone (fun _ => hmem) _
        exact hstep _ rfl rfl

lemma Treated.skip {gracePeriod : ℤ} (hevents : s'.events = s.events) (hfiles : s'.files = s.files)
    (hskip : status = none → ∀ h, env.fopen indexpath = some (some h) → datapath ∈ s.files →
      env.now indexpath - (env.times datapath).maxAcmtime < gracePeriod) :
    Treated env gracePeriod indexpath datapath s s' status [] where
  step := .of_same hevents hfiles _
  copied _ _ hmem := absurd hmem List.not_mem_nil
  removed _ hmem := absurd hmem List.not_mem_nil
  complete hstatus h hopen hdata hold _ := absurd hold (not_le.mpr (hskip hstatus h hopen hdata))

/-- The index file is opened first, then the data file follows. -/
lemma flushIndex_treated (env : FlushEnv) (gracePeriod : ℤ) (indexpath datapath : Name) (s : FlushState) :
    ∃ new, Treated env gracePeriod indexpath datapath s
      (flushIndex env gracePeriod indexpath datapath s).2
      (flushIndex env gracePeriod indexpath datapath s).1 new := by
  unfold flushIndex
  cases hopen : env.fopen indexpath with
  | none => exact ⟨[], .skip rfl rfl fun hstatus => by cases hstatus⟩
  | some handle =>
    cases handle with
    | none =>
      refine ⟨[], .skip rfl rfl fun _ h hopen' => ?_⟩
      rw [hopen] at hopen'
      cases hopen'
    | some h =>
      dsimp only
      by_cases hdata : datapath ∈ s.files
      · rw [if_neg (not_not_intro hdata)]
        by_cases hold : env.now indexpath - (env.times datapath).maxAcmtime < gracePeriod
        · rw [if_pos hold]
          exact ⟨[], .skip rfl rfl fun _ _ _ _ => hold⟩
        · rw [if_neg hold]
          exact flushData_treated gracePeriod hopen s
      · rw [if_pos hdata]
        exact ⟨[], .skip rfl rfl fun _ _ _ hmem => absurd hmem hdata⟩

/-- Without a data file nothing is done. -/
lemma flushIndex_of_notMem (env : FlushEnv) (gracePeriod : ℤ) (indexpath : Name) (hdata : datapath ∉ s.files) :
    (flushIndex env gracePeriod indexpath datapath s).2 = s := by
  unfold flushIndex
  cases env.fopen indexpath with
  | none => rfl
  | some handle =>
    cases handle with
    | none => rfl
    | some h =>
      dsimp only
      rw [if_pos hdata]

/-- The removal itself never ends the flush with success. -/
lemma removeEntry_status (env : FlushEnv) (indexpath datapath : Name) (s : FlushState) :
    (removeEntry env indexpath datapath s).1 ≠ some .success := by
  have herror : some Status.localCacheError ≠ some .success := by decide
  have hnone : none ≠ some Status.success := by decide
  unfold removeEntry
  cases s.unlink env indexpath with
  | mk ok s₁ =>
    cases ok with
    | false => exact herror
    | true =>
      dsimp only
      cases s₁.unlink env datapath with
      | mk ok s₂ =>
        cases ok with
        | false => exact herror
        | true => exact hnone

/-- An entry never ends the flush with success. -/
lemma flushIndex_status (env : FlushEnv) (gracePeriod : ℤ) (indexpath datapath : Name) (s : FlushState) :
    (flushIndex env gracePeriod indexpath datapath s).1 ≠ some .success := by
  have herror : some Status.localCacheError ≠ some .success := by decide
  have hnone : none ≠ some Status.success := by decide
  have hremove := fun s => removeEntry_status env indexpath datapath s
  unfold flushIndex
  cases env.fopen indexpath with
  | none => exact herror
  | some handle =>
    cases handle with
    | none => exact hnone
    | some h =>
      dsimp only
      by_cases hdata : datapath ∉ s.files
      · rw [if_pos hdata]
        exact hnone
      rw [if_neg hdata]
      -- a file in its grace period stays
      by_cases hold : env.now indexpath - (env.times datapath).maxAcmtime < gracePeriod
      · rw [if_pos hold]
        exact hnone
      · rw [if_neg hold]
        unfold flushData
        cases env.str2path indexpath with
        | some e =>
          cases e with
          | other major => exact hnone
          | _ => exact hremove _
        | none =>
          dsimp only
          cases env.rcp indexpath with
          | some e =>
            cases e with
            | other major => exact hnone
            | _ => exact hremove _
          | none =>
            dsimp only
            cases s.localFlushhow with
            | flushAndDelete => exact hremove _
            | flushSyncOnly => exact hnone

/-! ## A run -/

/-- A cache directory with the files that the cache has made. -/
structure EntryTree extends CacheTree where
  made : ∀ name ∈ toCacheTree.files, ∃ fileid, name = relIndex fileid ∨ name = relData fileid

/-- The path of the index file of an entry. -/
def indexPath (cachedir : Name) (fileid : UInt64) : Name := cachedir ++ slash :: relIndex fileid

/-- The path of the data file of an entry. -/
def dataPath (cachedir : Name) (fileid : UInt64) : Name := cachedir ++ slash :: relData fileid

/-- What is copied to a handle is the data file beside the index file that names it, and only the files of
entries that have been treated are removed. -/
structure Sound (cachedir : Name) (tree : CacheTree) (env : FlushEnv) (events : List FlushEvent) : Prop where
  copied : ∀ h p, .copy h p ∈ events → ∃ fileid, relIndex fileid ∈ tree.files ∧
    env.fopen (indexPath cachedir fileid) = some (some h) ∧ p = dataPath cachedir fileid
  removed : ∀ p, .unlink p ∈ events → ∃ fileid, relIndex fileid ∈ tree.files ∧
    (p = indexPath cachedir fileid ∨ p = dataPath cachedir fileid) ∧
      Settled env (indexPath cachedir fileid) (dataPath cachedir fileid) events

/-- All entries among `names` that can be read, have a data file and are old enough have been copied. -/
def Complete (cachedir : Name) (tree : CacheTree) (env : FlushEnv) (gracePeriod : ℤ) (names : List Name)
    (events : List FlushEvent) : Prop :=
  ∀ fileid h, relIndex fileid ∈ names → relData fileid ∈ tree.files →
    env.fopen (indexPath cachedir fileid) = some (some h) →
    gracePeriod ≤ env.now (indexPath cachedir fileid) -
      (env.times (dataPath cachedir fileid)).maxAcmtime →
    env.str2path (indexPath cachedir fileid) = none → .copy h (dataPath cachedir fileid) ∈ events

/-- What a flush has done for the entries `names` when it returns `status`. -/
structure FlushLaw (cachedir : Name) (tree : CacheTree) (env : FlushEnv) (gracePeriod : ℤ)
    (names : List Name) (status : Status) (s : FlushState) : Prop where
  sound : Sound cachedir tree env s.events
  complete : status = .success → Complete cachedir tree env gracePeriod names s.events

/-- The number survives `inum`. -/
def Survives (fileid : UInt64) : Prop := widen (narrow fileid) = fileid ∧ narrow fileid ≠ -1

instance (fileid : UInt64) : Decidable (Survives fileid) := instDecidableAnd

/-- The number survives `inum`, or there is no data file that could be copied. -/
def Flushable (tree : CacheTree) (fileid : UInt64) : Prop :=
  Survives fileid ∨ relData fileid ∉ tree.files ∧
    (narrow fileid = -1 ∨ relData (widen (narrow fileid)) ∉ tree.files)

variable {cachedir : Name} {tree : CacheTree} {gracePeriod : ℤ} {lw : Bool} {fileid fileid' : UInt64}
  {names rest : List Name} {name : Name} {events : List FlushEvent}

lemma dataPath_inj (h : dataPath cachedir fileid = dataPath cachedir fileid') : fileid = fileid' :=
  relName_inj (List.cons.inj (List.append_cancel_left h)).2

lemma indexPath_inj (h : indexPath cachedir fileid = indexPath cachedir fileid') : fileid = fileid' :=
  relName_inj (List.cons.inj (List.append_cancel_left h)).2

/-- Index files end in `index`. -/
lemma relIndex_suffix (fileid : UInt64) :
    (relIndex fileid).drop ((relIndex fileid).length - 5) = indexSuffix := by
  have hcut : relIndex fileid = (relName fileid [46]) ++ indexSuffix := by
    unfold relIndex relName
    rw [List.append_assoc _ [46]]
    rfl
  rw [hcut, List.length_append]
  exact List.drop_left

/-- Data files end in `.data`. -/
lemma relData_suffix (fileid : UInt64) :
    (relData fileid).drop ((relData fileid).length - 5) = dotData := by
  unfold relData
  have hcut : relName fileid dotData = relName fileid [] ++ dotData := by
    unfold relName
    rw [List.append_nil]
  rw [hcut, List.length_append]
  exact List.drop_left

lemma relIndex_ne_relData (fileid fileid' : UInt64) : relIndex fileid ≠ relData fileid' := by
  intro heq
  have hindex := relIndex_suffix fileid
  rw [heq, relData_suffix] at hindex
  exact absurd hindex (by decide)

lemma dataPath_ne_indexPath (fileid fileid' : UInt64) :
    dataPath cachedir fileid ≠ indexPath cachedir fileid' := by
  intro heq
  exact relIndex_ne_relData fileid' fileid (List.cons.inj (List.append_cancel_left heq)).2.symm

/-- The watermark check touches no file. -/
lemma checkWatermark_same (hcheck : checkWatermark env lw name s = some s') :
    s'.files = s.files ∧ s'.events = s.events := by
  unfold checkWatermark at hcheck
  split_ifs at hcheck
  · obtain ⟨low, -, rfl⟩ := Option.map_eq_some_iff.mp hcheck
    exact ⟨rfl, rfl⟩
  · cases hcheck
    exact ⟨rfl, rfl⟩
  · cases hcheck
    exact ⟨rfl, rfl⟩

/-- For the name of an index file the path is taken apart into its fileid. -/
lemma flushEntry_index (hshort : cachedir.length ≤ 220) (gracePeriod : ℤ)
    (hcheck : checkWatermark env lw (relIndex fileid) s = some s') : flushEntry env cachedir lw gracePeriod (relIndex fileid) s =
      some (if narrow fileid = -1 then (none, s')
        else flushIndex env gracePeriod (indexPath cachedir fileid)
          (dataPath cachedir (widen (narrow fileid))) s') := by
  have hindexpath : snprintf maxpathlen (cachedir ++ slash :: relIndex fileid) = indexPath cachedir fileid := by
    have hlen := length_relName fileid dotIndex
    have hle := length_llx_le fileid
    apply List.take_of_length_le
    rw [List.length_append, List.length_cons]
    show _ + ((relName fileid dotIndex).length + 1) ≤ 4095
    rw [hlen]
    show _ + (_ + 6 + 1) ≤ 4095
    omega
  unfold flushEntry
  rw [hcheck]
  dsimp only
  rw [if_pos (relIndex_suffix fileid), getInum_relIndex, Option.map_some, hindexpath, getDatapath_eq hshort]
  rfl

lemma flushEntry_data (hcheck : checkWatermark env lw (relData fileid) s = some s') :
    flushEntry env cachedir lw gracePeriod (relData fileid) s = some (none, s') := by
  unfold flushEntry
  rw [hcheck]
  dsimp only
  rw [relData_suffix, if_neg (by decide)]

lemma Settled.mono {indexpath datapath : Name} (h : Settled env indexpath datapath events)
    (hsub : ∀ ev ∈ events, ev ∈ new) : Settled env indexpath datapath new := by
  obtain ⟨h, hopen, hcases⟩ := h
  exact ⟨h, hopen, hcases.imp_left fun hboth => ⟨hboth.1, hsub _ hboth.2⟩⟩

/-- The events of one more entry keep `Sound`. -/
lemma Sound.append (h : Sound cachedir tree env s.events) (hmem : relIndex fileid ∈ tree.files)
    (htreated : Treated env gracePeriod (indexPath cachedir fileid) (dataPath cachedir fileid) s s' status new) :
    Sound cachedir tree env s'.events := by
  rw [htreated.step.events]
  refine ⟨fun h' p hev => ?_, fun p hev => ?_⟩
  · rcases List.mem_append.mp hev with hev | hev
    · exact h.copied h' p hev
    · obtain ⟨hp, hopen⟩ := htreated.copied h' p hev
      exact ⟨fileid, hmem, hopen, hp⟩
  · rcases List.mem_append.mp hev with hev | hev
    · obtain ⟨fileid', hmem', hp, hsettled⟩ := h.removed p hev
      exact ⟨fileid', hmem', hp, hsettled.mono fun ev hev => List.mem_append_left new hev⟩
    · obtain ⟨hp, hsettled⟩ := htreated.removed p hev
      exact ⟨fileid, hmem, hp, hsettled.mono fun ev hev => List.mem_append_right _ hev⟩

/-- The invariant of the loop: the entries `names` have been dealt with. -/
structure FlushInv (cachedir : Name) (tree : CacheTree) (env : FlushEnv) (gracePeriod : ℤ)
    (names : List Name) (s : FlushState) : Prop where
  sub : ∀ fileid, dataPath cachedir fileid ∈ s.files → relData fileid ∈ tree.files
  kept : ∀ fileid, relData fileid ∈ tree.files → relIndex fileid ∉ names → dataPath cachedir fileid ∈ s.files
  sound : Sound cachedir tree env s.events
  complete : Complete cachedir tree env gracePeriod names s.events

lemma FlushInv.congr (h : FlushInv cachedir tree env gracePeriod names s) (hfiles : s'.files = s.files)
    (hevents : s'.events = s.events) : FlushInv cachedir tree env gracePeriod names s' where
  sub fileid hmem := h.sub fileid (hfiles ▸ hmem)
  kept fileid hmem hnot := hfiles ▸ h.kept fileid hmem hnot
  sound := hevents ▸ h.sound
  complete := hevents ▸ h.complete

/-- A name that is no index file with data. -/
lemma FlushInv.skip (h : FlushInv cachedir tree env gracePeriod names s)
    (hskip : ∀ fileid, name = relIndex fileid → relData fileid ∉ tree.files) :
    FlushInv cachedir tree env gracePeriod (name :: names) s where
  sub := h.sub
  kept fileid hmem hnot := h.kept fileid hmem fun hmem' => hnot (List.mem_cons_of_mem name hmem')
  sound := h.sound
  complete fileid h' hmem hdata := by
    rcases List.mem_cons.mp hmem with heq | hmem
    · exact absurd hdata (hskip fileid heq.symm)
    · exact h.complete fileid h' hmem hdata

/-- One entry treated moves from the rest to what is done. -/
lemma FlushInv.treat (h : FlushInv cachedir tree env gracePeriod names s) (hmem : relIndex fileid ∈ tree.files)
    (hnew : relIndex fileid ∉ names)
    (htreated : Treated env gracePeriod (indexPath cachedir fileid) (dataPath cachedir fileid) s s' none new) :
    FlushInv cachedir tree env gracePeriod (relIndex fileid :: names) s' where
  sub fileid' hmem' := h.sub fileid' (htreated.step.sub _ hmem')
  kept fileid' hdata hnot := by
    apply htreated.step.kept _ (h.kept fileid' hdata fun hmem' => hnot (List.mem_cons_of_mem _ hmem'))
    intro hpath
    rcases List.mem_cons.mp hpath with hpath | hpath
    · exact dataPath_ne_indexPath fileid' fileid hpath
    · have heq := dataPath_inj (List.mem_singleton.mp hpath)
      rw [heq] at hnot
      exact hnot List.mem_cons_self
  sound := h.sound.append hmem htreated
  complete fileid' h' hmem' hdata hopen hold hpath := by
    rw [htreated.step.events]
    rcases List.mem_cons.mp hmem' with heq | hmem'
    · obtain rfl := relIndex_inj heq
      exact List.mem_append_right _ (htreated.complete rfl h' hopen (h.kept fileid' hdata hnew) hold hpath)
    · exact List.mem_append_left _ (h.complete fileid' h' hmem' hdata hopen hold hpath)

/-- One name of the list: an index file, a data file or neither. -/
lemma flushEntry_step {tree : EntryTree} (hshort : cachedir.length ≤ 220) (lw : Bool)
    (h : FlushInv cachedir tree.toCacheTree env gracePeriod names s) (hname : name ∈ tree.files)
    (hnew : name ∉ names) (hflush : ∀ fileid, name = relIndex fileid → Flushable tree.toCacheTree fileid) :
    ∃ status s', flushEntry env cachedir lw gracePeriod name s = some (status, s') ∧
      status ≠ some .success ∧ Sound cachedir tree.toCacheTree env s'.events ∧
      (status = none → FlushInv cachedir tree.toCacheTree env gracePeriod (name :: names) s') := by
  cases hcheck : checkWatermark env lw name s with
  | none =>
    have hentry : flushEntry env cachedir lw gracePeriod name s = some (some .localCacheError, s) := by
      rw [flushEntry, hcheck]
    exact ⟨_, _, hentry, by decide, h.sound, fun hstatus => by cases hstatus⟩
  | some s₁ =>
    obtain ⟨hfiles, hevents⟩ := checkWatermark_same hcheck
    have h₁ := h.congr hfiles hevents
    have hnosuccess : (none : Option Status) ≠ some .success := by decide
    obtain ⟨fileid, rfl | rfl⟩ := tree.made name hname
    · -- the name of an index file
      have hentry := flushEntry_index hshort gracePeriod hcheck
      rcases hflush fileid rfl with ⟨hsame, hne⟩ | ⟨hnodata, hskip⟩
      · -- the path is made from the number itself
        rw [if_neg hne, hsame] at hentry
        obtain ⟨new, htreated⟩ := flushIndex_treated env gracePeriod (indexPath cachedir fileid)
          (dataPath cachedir fileid) s₁
        have hstatus := flushIndex_status env gracePeriod (indexPath cachedir fileid)
          (dataPath cachedir fileid) s₁
        cases hindex : flushIndex env gracePeriod (indexPath cachedir fileid)
            (dataPath cachedir fileid) s₁ with
        | mk status s' =>
          rw [hindex] at hentry htreated hstatus
          refine ⟨status, s', hentry, hstatus, h₁.sound.append hname htreated, ?_⟩
          rintro rfl
          exact h₁.treat hname hnew htreated
      · have hskipped : FlushInv cachedir tree.toCacheTree env gracePeriod (relIndex fileid :: names) s₁ := by
          apply h₁.skip
          intro fileid' heq
          rw [← relIndex_inj heq]
          exact hnodata
        by_cases hminus : narrow fileid = -1
        · rw [if_pos hminus] at hentry
          exact ⟨_, _, hentry, hnosuccess, h₁.sound, fun _ => hskipped⟩
        · rw [if_neg hminus] at hentry
          have hnotMem : dataPath cachedir (widen (narrow fileid)) ∉ s₁.files :=
            fun hmem => hskip.resolve_left hminus (h₁.sub _ hmem)
          have hsame := flushIndex_of_notMem env gracePeriod (indexPath cachedir fileid) hnotMem
          have hstatus := flushIndex_status env gracePeriod (indexPath cachedir fileid)
            (dataPath cachedir (widen (narrow fileid))) s₁
          cases hindex : flushIndex env gracePeriod (indexPath cachedir fileid)
              (dataPath cachedir (widen (narrow fileid))) s₁ with
          | mk status s' =>
            rw [hindex] at hentry hsame hstatus
            obtain rfl : s' = s₁ := hsame
            exact ⟨status, s', hentry, hstatus, h₁.sound, fun _ => hskipped⟩
    · refine ⟨_, _, flushEntry_data hcheck, hnosuccess, h₁.sound, fun _ => h₁.skip fun fileid' heq => ?_⟩
      exact absurd heq.symm (relIndex_ne_relData fileid' fileid)

/-- The whole list, by induction with `FlushInv`. -/
lemma flushNames_spec {tree : EntryTree} (hshort : cachedir.length ≤ 220) (lw : Bool)
    (h : FlushInv cachedir tree.toCacheTree env gracePeriod names s) (hrest : ∀ name ∈ rest, name ∈ tree.files)
    (hnodup : rest.Nodup) (hnew : ∀ name ∈ rest, name ∉ names)
    (hflush : ∀ fileid, relIndex fileid ∈ rest → Flushable tree.toCacheTree fileid) :
    ∃ status s', flushNames (flushEntry env cachedir lw gracePeriod) rest s = some (status, s') ∧
      Sound cachedir tree.toCacheTree env s'.events ∧
      (status = .success → Complete cachedir tree.toCacheTree env gracePeriod (rest ++ names) s'.events) := by
  induction rest generalizing names s with
  | nil => exact ⟨_, _, rfl, h.sound, fun _ => h.complete⟩
  | cons name rest ih =>
    obtain ⟨hnotin, hnodup⟩ := List.nodup_cons.mp hnodup
    obtain ⟨status, s₁, hentry, hstatus, hsound, hinv⟩ := flushEntry_step hshort lw h
      (hrest name List.mem_cons_self) (hnew name List.mem_cons_self)
      fun fileid heq => hflush fileid (heq ▸ List.mem_cons_self)
    rw [flushNames, hentry, Option.bind_some]
    cases status with
    | some status => exact ⟨status, s₁, rfl, hsound, fun heq => absurd (congrArg some heq) hstatus⟩
    | none =>
      obtain ⟨status, s', hrun, hsound', hcomplete⟩ := ih (hinv rfl)
        (fun name' hmem => hrest name' (List.mem_cons_of_mem name hmem)) hnodup
        (fun name' hmem => by
          rw [List.mem_cons, not_or]
          exact ⟨fun heq => hnotin (heq ▸ hmem), hnew name' (List.mem_cons_of_mem name hmem)⟩)
        (fun fileid hmem => hflush fileid (List.mem_cons_of_mem name hmem))
      refine ⟨status, s', hrun, hsound', fun hsuccess fileid h' hmem => ?_⟩
      apply hcomplete hsuccess fileid h'
      rw [List.cons_append, List.mem_cons, List.mem_append] at hmem
      rw [List.mem_append, List.mem_cons]
      tauto

/-- The answers of a system in which everything works. -/
def workingEnv : FlushEnv where
  statfs _ := none
  fopen path := some (some path)
  times _ := ⟨0, 0, 0⟩
  now _ := 0
  str2path _ := none
  rcp _ := none
  unlink _ := true

/-- With every call working each data file is copied once. -/
lemma flushNames_working {tree : EntryTree} (hshort : cachedir.length ≤ 220) (rest : List Name) (s : FlushState)
    (hhow : s.localFlushhow = .flushSyncOnly) (hrest : ∀ name ∈ rest, name ∈ tree.files) :
    ∃ s' new, flushNames (flushEntry workingEnv cachedir false 0) rest s = some (.success, s') ∧
      s'.events = s.events ++ new ∧
      (∀ ev ∈ new, ∃ fileid, narrow fileid ≠ -1 ∧
        ev = .copy (indexPath cachedir fileid) (dataPath cachedir (widen (narrow fileid)))) ∧
      ∀ fileid, relIndex fileid ∈ rest → narrow fileid ≠ -1 →
        dataPath cachedir (widen (narrow fileid)) ∈ s.files →
        .copy (indexPath cachedir fileid) (dataPath cachedir (widen (narrow fileid))) ∈ new := by
  induction rest generalizing s with
  | nil =>
    refine ⟨s, [], rfl, (List.append_nil _).symm, fun ev hev => absurd hev List.not_mem_nil, ?_⟩
    exact fun fileid hmem => absurd hmem List.not_mem_nil
  | cons name rest ih =>
    have hcheck : checkWatermark workingEnv false name s = some s := by
      rw [checkWatermark, if_neg fun hboth => absurd hboth.1 (by decide)]
    have hrest' := fun name' hmem => hrest name' (List.mem_cons_of_mem name hmem)
    rw [flushNames]
    obtain ⟨fileid, rfl | rfl⟩ := tree.made name (hrest name List.mem_cons_self)
    · rw [flushEntry_index hshort 0 hcheck, Option.bind_some]
      -- the path comes back from the number as an `int`
      by_cases hcopy : narrow fileid ≠ -1 ∧ dataPath cachedir (widen (narrow fileid)) ∈ s.files
      · obtain ⟨hminus, hdata⟩ := hcopy
        have hindex : flushIndex workingEnv 0 (indexPath cachedir fileid)
            (dataPath cachedir (widen (narrow fileid))) s = (none, { s with
              nbFlushed := s.nbFlushed + 1
              events := s.events ++
                [.copy (indexPath cachedir fileid) (dataPath cachedir (widen (narrow fileid)))] }) := by
          have hold : ¬ ((0 : ℤ) - max (max (max 0 0) 0) 0 < 0) := by decide
          rw [flushIndex]
          show (if _ ∉ s.files then _ else if (0 : ℤ) - max (max (max 0 0) 0) 0 < 0 then _ else _) = _
          rw [if_neg (not_not_intro hdata), if_neg hold]
          unfold flushData
          simp only [workingEnv, hhow]
        rw [if_neg hminus, hindex]
        obtain ⟨s', new, hrun, hevents, hnew, hall⟩ := ih { s with
          nbFlushed := s.nbFlushed + 1
          events := s.events ++
            [.copy (indexPath cachedir fileid) (dataPath cachedir (widen (narrow fileid)))] } hhow hrest'
        refine ⟨s', .copy (indexPath cachedir fileid) (dataPath cachedir (widen (narrow fileid))) :: new,
          hrun, ?_, fun ev hev => ?_, fun fileid' hmem hminus' hdata' => ?_⟩
        · rw [hevents, List.append_assoc]
          rfl
        · rcases List.mem_cons.mp hev with rfl | hev
          · exact ⟨fileid, hminus, rfl⟩
          · exact hnew ev hev
        · rcases List.mem_cons.mp hmem with heq | hmem
          · rw [relIndex_inj heq]
            exact List.mem_cons_self
          · exact List.mem_cons_of_mem _ (hall fileid' hmem hminus' hdata')
      · have hindex : (if narrow fileid = -1 then (none, s) else flushIndex workingEnv 0
            (indexPath cachedir fileid) (dataPath cachedir (widen (narrow fileid))) s) = (none, s) := by
          by_cases hminus : narrow fileid = -1
          · rw [if_pos hminus]
          · rw [if_neg hminus, flushIndex]
            exact if_pos fun hdata => hcopy ⟨hminus, hdata⟩
        rw [hindex]
        obtain ⟨s', new, hrun, hevents, hnew, hall⟩ := ih s hhow hrest'
        refine ⟨s', new, hrun, hevents, hnew, fun fileid' hmem hminus' hdata' => ?_⟩
        rcases List.mem_cons.mp hmem with heq | hmem
        · obtain rfl := relIndex_inj heq
          exact absurd ⟨hminus', hdata'⟩ hcopy
        · exact hall fileid' hmem hminus' hdata'
    · rw [flushEntry_data hcheck, Option.bind_some]
      obtain ⟨s', new, hrun, hevents, hnew, hall⟩ := ih s hhow hrest'
      refine ⟨s', new, hrun, hevents, hnew, fun fileid' hmem hminus' hdata' => ?_⟩
      rcases List.mem_cons.mp hmem with heq | hmem
      · exact absurd heq (relIndex_ne_relData fileid' fileid)
      · exact hall fileid' hmem hminus' hdata'

/-! ## The law -/

/-- The names, and every flush of one thread, in the directory of an export. -/
structure DataCacheLaw (cacheDir : Name) (tree : EntryTree) : Prop where
  naming : NamingLaw cacheDir
  flush : ∀ flushhow lw gracePeriod index mod env, index < mod →
    ∃ n, ∀ fuel ≥ n, ∀ calls ≥ n, ∃ status s,
      cacheContentEmergencyFlush tree.toCacheTree (cacheDir ++ exportId) flushhow lw gracePeriod index mod env
        fuel calls = some (status, s) ∧
      FlushLaw (cacheDir ++ exportId) tree.toCacheTree env gracePeriod (tree.share mod index) status s

/-- The data files at the start. -/
lemma dataPath_mem_startState {flushhow : FlushBehaviour} :
    dataPath cachedir fileid ∈ (startState cachedir tree flushhow).files ↔ relData fileid ∈ tree.files := by
  constructor
  · intro hmem
    obtain ⟨name, hname, heq⟩ := List.mem_map.mp hmem
    have heq : name = relData fileid := (List.cons.inj (List.append_cancel_left heq)).2
    exact heq ▸ hname
  · intro hmem
    exact List.mem_map.mpr ⟨_, hmem, rfl⟩

/-- The paths of an entry tree are never cut. -/
lemma EntryTree.fits (tree : EntryTree) : ∀ path ∈ tree.files, path.length < maxnamlen := by
  intro path hpath
  obtain ⟨fileid, rfl | rfl⟩ := tree.made path hpath
  all_goals
    have hle := length_llx_le fileid
    have hlen := length_relName fileid dotIndex
    have hlen' := length_relName fileid dotData
    have hsuffix : dotIndex.length = 6 ∧ dotData.length = 5 := by decide
    rw [hsuffix.1] at hlen
    rw [hsuffix.2] at hlen'
    rw [maxnamlen]
  · rw [relIndex]
    omega
  · rw [relData]
    omega

lemma emergencyFlush_eq (tree : EntryTree) (cachedir : Name) (flushhow : FlushBehaviour) (lw : Bool)
    (gracePeriod : ℤ) (index mod : UInt32) (hindex : index < mod) (env : FlushEnv) :
    ∃ n, ∀ fuel ≥ n, ∀ calls ≥ n,
      cacheContentEmergencyFlush tree.toCacheTree cachedir flushhow lw gracePeriod index mod env fuel
          calls =
        flushNames (flushEntry env cachedir lw gracePeriod) (tree.share mod index)
          (startState cachedir tree.toCacheTree flushhow) := by
  have hpos : 0 < mod := Nat.lt_of_le_of_lt (Nat.zero_le _) hindex
  obtain ⟨n, hn⟩ := collected_of_fits hpos tree.fits index hindex
  exact ⟨n, fun fuel hfuel calls hcalls => flushLoop_of_collect (hn fuel hfuel calls hcalls) _ _⟩

lemma mem_share_one : name ∈ tree.share 1 0 ↔ name ∈ tree.files := by
  have hperm := @share_perm 1 tree (by decide)
  have hone : indices 1 = [0] := by decide
  rw [hone, List.flatMap_singleton] at hperm
  exact hperm.mem_iff

/-- What a tree whose files all come out right must look like. -/
lemma flushable_of_law {cacheDir : Name} {tree : EntryTree} (h : DataCacheLaw cacheDir tree) :
    ∀ fileid, relIndex fileid ∈ tree.files → Flushable tree.toCacheTree fileid := by
  have hroot : (cacheDir ++ exportId).length = cacheDir.length + 12 := List.length_append
  have hlen := (namingLaw_iff cacheDir).mp h.naming
  have hshort : (cacheDir ++ exportId).length ≤ 220 := by omega
  intro fileid hmem
  by_contra hnot
  obtain ⟨n, hn⟩ := h.flush .flushSyncOnly false 0 0 1 workingEnv (by decide)
  obtain ⟨m, hm⟩ := emergencyFlush_eq tree (cacheDir ++ exportId) .flushSyncOnly false 0
    0 1 (by decide) workingEnv
  obtain ⟨status, s, hrun, hlaw⟩ := hn (n + m) (by omega) (n + m) (by omega)
  obtain ⟨s', new, hrun', hevents, hnew, hall⟩ := flushNames_working hshort (tree.share 1 0)
    (startState (cacheDir ++ exportId) tree.toCacheTree .flushSyncOnly) rfl
    fun name hname => mem_share_one.mp hname
  rw [hm (n + m) (by omega) (n + m) (by omega), hrun'] at hrun
  cases hrun
  have hevents : s.events = new := hevents
  by_cases hdata : relData fileid ∈ tree.files
  · -- its own data file is not copied
    have hzero : (0 : ℤ) ≤ 0 - max (max (max 0 0) 0) 0 := by decide
    have hcopy := hlaw.complete rfl fileid (indexPath (cacheDir ++ exportId) fileid) (mem_share_one.mpr hmem)
      hdata rfl hzero rfl
    rw [hevents] at hcopy
    obtain ⟨fileid', hminus, heq⟩ := hnew _ hcopy
    obtain ⟨hindex, hpath⟩ := FlushEvent.copy.inj heq
    obtain rfl := indexPath_inj hindex
    exact hnot (.inl ⟨(dataPath_inj hpath).symm, hminus⟩)
  · -- the data file of another number is copied
    have hother : narrow fileid ≠ -1 ∧ relData (widen (narrow fileid)) ∈ tree.files := by
      by_contra hno
      rw [not_and_or, not_not] at hno
      exact hnot (.inr ⟨hdata, hno⟩)
    have hcopy := hall fileid (mem_share_one.mpr hmem) hother.1 (dataPath_mem_startState.mpr hother.2)
    rw [← hevents] at hcopy
    obtain ⟨fileid', -, hopen, hpath⟩ := hlaw.sound.copied _ _ hcopy
    have hindex := Option.some.inj (Option.some.inj hopen)
    obtain rfl := indexPath_inj hindex
    rw [dataPath_inj hpath] at hother
    exact hdata hother.2

/-- The flush copies every data file and reads every fileid back exactly if the cache directory leaves room for the
names and every index file has its data file and a fileid that an `int` keeps. -/
theorem dataCacheLaw_iff (cacheDir : Name) (tree : EntryTree) :
    DataCacheLaw cacheDir tree ↔
      cacheDir.length ≤ 208 ∧ ∀ fileid, relIndex fileid ∈ tree.files → Flushable tree.toCacheTree fileid := by
  have hroot : (cacheDir ++ exportId).length = cacheDir.length + 12 := List.length_append
  constructor
  · intro h
    exact ⟨(namingLaw_iff cacheDir).mp h.naming, flushable_of_law h⟩
  · rintro ⟨hlen, hflush⟩
    have hshort : (cacheDir ++ exportId).length ≤ 220 := by omega
    refine ⟨(namingLaw_iff cacheDir).mpr hlen, fun flushhow lw gracePeriod index mod env hindex => ?_⟩
    obtain ⟨n, hn⟩ := emergencyFlush_eq tree (cacheDir ++ exportId) flushhow lw gracePeriod index mod
      hindex env
    have hpos : 0 < mod := Nat.zero_lt_of_lt hindex
    have hparts := partitioned_of_perm (share_perm tree.toCacheTree hpos) (files_nodup tree.toCacheTree)
    have hstart : FlushInv (cacheDir ++ exportId) tree.toCacheTree env gracePeriod []
        (startState (cacheDir ++ exportId) tree.toCacheTree flushhow) := by
      refine ⟨fun _ hmem => dataPath_mem_startState.mp hmem, fun _ hmem _ => dataPath_mem_startState.mpr hmem,
        ⟨fun _ _ hev => absurd hev List.not_mem_nil, fun _ hev => absurd hev List.not_mem_nil⟩, ?_⟩
      exact fun _ _ hmem => absurd hmem List.not_mem_nil
    obtain ⟨status, s, hrun, hsound, hcomplete⟩ := flushNames_spec hshort lw hstart
      (fun name hname => hparts.only index hindex name hname) (hparts.once index hindex)
      (fun _ _ => List.not_mem_nil) fun fileid hmem => hflush fileid (hparts.only index hindex _ hmem)
    refine ⟨n, fun fuel hfuel calls hcalls => ⟨status, s, (hn fuel hfuel calls hcalls).trans hrun, hsound, ?_⟩⟩
    intro hsuccess
    have hcomplete := hcomplete hsuccess
    rw [List.append_nil] at hcomplete
    exact hcomplete

/-- A cache with one file, whose number is `2 ^ 31`. -/
def largeTree : EntryTree where
  level0 := [(hhX (hashByte (hashFileID4 0x80000000) 0), [(hhX (hashByte (hashFileID4 0x80000000) 8),
    [nodePrefix ++ llx 0x80000000 ++ dotIndex, nodePrefix ++ llx 0x80000000 ++ dotData])])]
  nodup0 := by decide +kernel
  nodup1 := by decide +kernel
  nodup2 := by decide +kernel
  noSlash0 := by decide +kernel
  noSlash1 := by decide +kernel
  short0 := by decide +kernel
  short1 := by decide +kernel
  made := by
    intro name hname
    refine ⟨0x80000000, ?_⟩
    revert name
    decide +kernel

/-- Its data is not copied. -/
theorem not_dataCacheLaw_of_largeTree : ¬ ∀ (cacheDir : Name) (tree : EntryTree), cacheDir.length ≤ 208 →
    DataCacheLaw cacheDir tree := by
  intro h
  have hflush := flushable_of_law (h [] largeTree (by decide)) 0x80000000 (by decide +kernel)
  rcases hflush with ⟨hsame, -⟩ | ⟨hdata, -⟩
  · exact absurd hsame (by decide +kernel)
  · exact hdata (by decide +kernel)

end Ganesha.FileContent
