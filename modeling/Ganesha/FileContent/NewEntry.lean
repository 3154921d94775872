import Ganesha.FileContent.EmergencyFlush
import Ganesha.Pools

/-!
# New entries of the data cache

`cache_content_new_entry` of `File_Content/cache_content_add_entry.c`, with `cache_content_refresh` of
`File_Content/cache_content_flush.c`. Entries of the data cache and of `cache_inode` are numbers.
-/

namespace Ganesha.FileContent
open Ganesha.Hash (getPrealloc releasePrealloc)
open Ganesha.Pools (Spare)

/-- `cache_content_sync_state_t`. -/
inductive SyncState
  | justCreated
  | syncOk
  | flushNeeded
  | refreshNeeded

/-- `cache_content_entry_valid_state_t`. -/
inductive ValidState
  | stateOk
  | toBeGarbagged

/-- `cache_content_add_behaviour_t`. -/
inductive AddBehaviour
  | addEntry
  | renewEntry
  | recoverEntry
  deriving DecidableEq

/-- `cache_content_refresh_how_t`. -/
inductive RefreshHow
  | defaultRefresh
  | forceFromFsal
  deriving DecidableEq

/-- `cache_content_entry_t`. -/
structure ContentEntry where
  readTime : ℤ
  modTime : ℤ
  refreshTime : ℤ
  allocTime : ℤ
  lastFlushTime : ℤ
  lastRefreshTime : ℤ
  validState : ValidState
  cachePathData : Name
  cachePathIndex : Name
  localFd : ℤ
  lastOp : ℤ
  syncState : SyncState
  pentryInode : ℕ

/-- The client with its pool, and what the entries of both caches hold. -/
structure ClientState where
  poolEntry : List ℕ
  /-- The arrays that the allocator gives one after the other. -/
  arrays : ℕ → List ℕ
  nbPrealloc : UInt32
  cacheDir : Name
  flushForceFsal : UInt32
  entry : ℕ → ContentEntry
  /-- `object.file.pentry_content` of an inode entry. -/
  pentryContent : ℕ → Option ℕ
  /-- The seconds of the times in `object.file.attributes`. -/
  attributes : ℕ → Times

/-- What the calls of `cache_content_refresh` give. -/
structure RefreshEnv where
  handle : Bool
  str2path : Bool
  stat : Option Times
  rcp : Bool
  time : ℤ

/-- What the calls of `cache_content_new_entry` give. -/
structure NewEntryEnv where
  indexName : NameEnv
  dataName : NameEnv
  time : ℤ
  /-- `cache_inode_dump_content`. -/
  dump : Bool
  creat : Bool
  refresh : RefreshEnv

def ClientState.modify (s : ClientState) (e : ℕ) (f : ContentEntry → ContentEntry) : ClientState :=
  { s with entry := Function.update s.entry e (f (s.entry e)) }

/-- `RELEASE_PREALLOC`. -/
def ClientState.release (s : ClientState) (e : ℕ) : ClientState :=
  { s with poolEntry := releasePrealloc e s.poolEntry }

def cacheContentRefresh (s : ClientState) (e : ℕ) (how : RefreshHow) (env : RefreshEnv) :
    Status × ClientState :=
  let inode := (s.entry e).pentryInode
  if !env.handle then (.badCacheInodeEntry, s)
  else if !env.str2path then (.fsalError, s)
  else match env.stat with
    | none => (.fsalError, s)
    | some buffstat =>
      if how ≠ .forceFromFsal ∧ (s.attributes inode).mtime < buffstat.mtime then
        (.success, { s with attributes := Function.update s.attributes inode buffstat })
      else if !env.rcp then (.fsalError, s)
      else (.success, s.modify e fun entry =>
        { entry with lastRefreshTime := env.time, syncState := .syncOk })

/-- The entry, from the pool or, to renew it, that of the inode: `none` if there is none. -/
def takeEntry (s : ClientState) (inode : ℕ) (how : AddBehaviour) : Option (Option ℕ × ClientState) :=
  if how ≠ .renewEntry then
    let (e, pool, arrays) := getPrealloc s.nbPrealloc s.poolEntry s.arrays
    some (e, { s with poolEntry := pool, arrays := arrays })
  else (s.pentryContent inode).map fun e => (some e, s)

/-- The end of the call, when the data has been read or not. -/
def finishEntry (e : ℕ) : Status × ClientState → Option ℕ × Status × ClientState
  | (.success, s) => (some e, .success, s)
  | (status, s) => (none, status, s.release e)

/-- The entry is attached to the inode, and its data read. -/
def attachEntry (s : ClientState) (inode e : ℕ) (how : AddBehaviour) (env : RefreshEnv) :
    Option ℕ × Status × ClientState :=
  let s := { s with pentryContent := Function.update s.pentryContent inode (some e) }
  let s := s.modify e fun entry => { entry with pentryInode := inode }
  if how ≠ .recoverEntry then
    finishEntry e
      (cacheContentRefresh s e (if s.flushForceFsal = 0 then .defaultRefresh else .forceFromFsal) env)
  else (some e, .success, s)

/-- The entry whose names have been set is written, and attached. -/
def writeEntry (s : ClientState) (inode e : ℕ) (how : AddBehaviour) (env : NewEntryEnv) :
    Option ℕ × Status × ClientState :=
  let s := s.modify e fun entry =>
    { entry with
      syncState := .justCreated
      readTime := 0
      modTime := 0
      refreshTime := 0
      allocTime := env.time
      lastFlushTime := 0
      lastRefreshTime := 0
      validState := .stateOk
      localFd := -1
      lastOp := 0 }
  -- the index file could not be written
  if env.dump = false then (none, .localCacheError, s.release e)
  -- the data file could not be created
  else if (how = .addEntry ∨ how = .renewEntry) ∧ env.creat = false then
    (none, .localCacheError, s.release e)
  else attachEntry s inode e how env.refresh

/-- The entry is filled. -/
def fillEntry (s : ClientState) (inode e : ℕ) (how : AddBehaviour) (env : NewEntryEnv) :
    Option (Option ℕ × Status × ClientState) :=
  (cacheContentCreateName s.cacheDir .indexFile env.indexName).bind fun
  | .error _ => some (none, .entryExists, s.release e)
  | .ok index =>
    let s := s.modify e fun entry => { entry with cachePathIndex := index }
    (cacheContentCreateName s.cacheDir .dataFile env.dataName).map fun
    | .error _ => (none, .entryExists, s.release e)
    | .ok data =>
      writeEntry (s.modify e fun entry => { entry with cachePathData := data }) inode e how env

/-- `cache_content_new_entry`. It gives `none` where a buffer is overrun, or an inode without an entry in
the data cache is to renew it. -/
def cacheContentNewEntry (s : ClientState) (pentryInode : Option ℕ) (how : AddBehaviour) (env : NewEntryEnv) :
    Option (Option ℕ × Status × ClientState) :=
  match pentryInode with
  | none => some (none, .invalidArgument, s)
  | some inode => (takeEntry s inode how).bind fun
    | (none, s) => some (none, .mallocError, s)
    | (some e, s) => fillEntry s inode e how env

/-! ## What is put back -/

/-- The entries that are attached. -/
def ClientState.attached (s : ClientState) : Set ℕ := {e | ∃ inode, s.pentryContent inode = some e}

/-- All entries of the pool are different, and none is attached. -/
def ClientState.Apart (s : ClientState) : Prop :=
  s.poolEntry.Nodup ∧ ∀ e ∈ s.poolEntry, e ∉ s.attached

/-- Whenever `NULL` is returned, the pool holds no entry twice and none that is attached. -/
def NewEntryLaw (s : ClientState) (pentryInode : Option ℕ) (how : AddBehaviour) (env : NewEntryEnv) : Prop :=
  ∀ status s', cacheContentNewEntry s pentryInode how env = some (none, status, s') → s'.Apart

/-- `cache_content_refresh` fails for the inode. -/
def RefreshFails (s : ClientState) (inode : ℕ) (env : RefreshEnv) : Prop :=
  env.handle = false ∨ env.str2path = false ∨ env.stat = none ∨
    env.rcp = false ∧ ∀ buffstat ∈ env.stat, s.flushForceFsal = 0 → buffstat.mtime ≤ (s.attributes inode).mtime

/-- A name cannot be made. -/
def NameFails (s : ClientState) (type : NameType) (env : NameEnv) : Prop :=
  ∃ status, cacheContentCreateName s.cacheDir type env = some (.error status)

/-- Both names can be made. -/
def NamesMade (s : ClientState) (env : NewEntryEnv) : Prop :=
  ∃ index data, cacheContentCreateName s.cacheDir .indexFile env.indexName = some (.ok index) ∧
    cacheContentCreateName s.cacheDir .dataFile env.dataName = some (.ok data)

/-- No failure comes when the entry is attached: a new one is when its data is read, and one that is
renewed is all the time. -/
def Clean (s : ClientState) (inode : ℕ) (env : NewEntryEnv) : AddBehaviour → Prop
  | .recoverEntry => True
  | .addEntry => (getPrealloc s.nbPrealloc s.poolEntry s.arrays).1.isSome = true → NamesMade s env →
    env.dump = true → env.creat = true → ¬ RefreshFails s inode env.refresh
  | .renewEntry => (s.pentryContent inode).isSome = true →
    ¬ NameFails s .indexFile env.indexName ∧
      ((∃ index, cacheContentCreateName s.cacheDir .indexFile env.indexName = some (.ok index)) →
        ¬ NameFails s .dataFile env.dataName) ∧
      (NamesMade s env → env.dump = true ∧ env.creat = true ∧ ¬ RefreshFails s inode env.refresh)

variable {s s' : ClientState} {inode e : ℕ} {how : AddBehaviour} {env : NewEntryEnv}

/-- The refresh leaves pool and chains alone. -/
lemma cacheContentRefresh_same (s : ClientState) (e : ℕ) (how : RefreshHow) (env : RefreshEnv) :
    (cacheContentRefresh s e how env).2.poolEntry = s.poolEntry ∧
      (cacheContentRefresh s e how env).2.pentryContent = s.pentryContent := by
  unfold cacheContentRefresh
  cases env.stat with
  | none => split_ifs <;> exact ⟨rfl, rfl⟩
  | some buffstat =>
    dsimp only
    split_ifs <;> exact ⟨rfl, rfl⟩

/-- When the refresh of a new entry fails. -/
lemma cacheContentRefresh_fails_iff (hinode : (s'.entry e).pentryInode = inode)
    (hattributes : s'.attributes = s.attributes) (env : RefreshEnv) :
    (cacheContentRefresh s' e (if s.flushForceFsal = 0 then .defaultRefresh else .forceFromFsal) env).1 ≠
      .success ↔ RefreshFails s inode env := by
  unfold cacheContentRefresh RefreshFails
  rw [hinode, hattributes]
  cases env.handle with
  | false => simp
  | true =>
    cases env.str2path with
    | false => simp
    | true =>
      cases env.stat with
      | none => simp
      | some buffstat =>
        by_cases hforce : s.flushForceFsal = 0
        · by_cases hrecent : (s.attributes inode).mtime < buffstat.mtime
          · simp [hforce, hrecent]
          · cases env.rcp <;> simp [hforce, hrecent, not_lt.mp hrecent]
        · cases env.rcp <;> simp [hforce]

/-- An entry is given back. -/
lemma release_apart (hapart : s.Apart) (hpool : e ∉ s.poolEntry) :
    (s.release e).Apart ↔ e ∉ s.attached := by
  constructor
  · intro h
    exact h.2 e List.mem_cons_self
  · intro hfree
    refine ⟨List.nodup_cons.mpr ⟨hpool, hapart.1⟩, fun e' he' => ?_⟩
    rcases List.mem_cons.mp he' with rfl | he'
    · exact hfree
    · exact hapart.2 e' he'

/-- The last stage: an entry given back must not stay attached. -/
lemma attachEntry_law (s : ClientState) (inode e : ℕ) (how : AddBehaviour) (env : RefreshEnv) :
    (∀ status s', attachEntry s inode e how env = (none, status, s') → s'.Apart) ↔
      (how ≠ .recoverEntry → ¬ RefreshFails s inode env) := by
  unfold attachEntry
  by_cases hhow : how ≠ .recoverEntry
  swap
  · rw [if_neg hhow]
    exact ⟨fun _ h => absurd h hhow, fun _ _ _ heq => by cases heq⟩
  rw [if_pos hhow, forall_prop_of_true hhow]
  -- the state in which the data is read
  let s₁ : ClientState := { s with pentryContent := Function.update s.pentryContent inode (some e) }
  let s₂ := s₁.modify e fun entry => { entry with pentryInode := inode }
  have hinode : (s₂.entry e).pentryInode = inode := by
    show (Function.update s.entry e _ e).pentryInode = inode
    rw [Function.update_self]
  have hfails := cacheContentRefresh_fails_iff (s := s) hinode rfl env
  obtain ⟨-, hcontent⟩ := cacheContentRefresh_same s₂ e
    (if s.flushForceFsal = 0 then .defaultRefresh else .forceFromFsal) env
  cases hrefresh : cacheContentRefresh s₂ e
      (if s.flushForceFsal = 0 then .defaultRefresh else .forceFromFsal) env with
  | mk status s₃ =>
    rw [hrefresh] at hfails hcontent
    change (∀ status s', finishEntry e (cacheContentRefresh s₂ e
      (if s.flushForceFsal = 0 then .defaultRefresh else .forceFromFsal) env) = (none, status, s') →
        s'.Apart) ↔ _
    rw [hrefresh]
    have hattached : e ∈ (s₃.release e).attached := by
      refine ⟨inode, ?_⟩
      show s₃.pentryContent inode = some e
      rw [hcontent]
      exact Function.update_self ..
    have hbad : ¬ (s₃.release e).Apart := fun hapart => hapart.2 e List.mem_cons_self hattached
    cases status
    case success =>
      refine ⟨fun _ hfail => hfails.mpr hfail rfl, fun _ _ _ heq => ?_⟩
      cases heq
    all_goals
      constructor
      · intro hlaw
        exact absurd (hlaw _ _ rfl) hbad
      · intro hno
        refine absurd (hfails.mp fun heq => ?_) hno
        cases heq

lemma modify_release_apart (hapart : s.Apart) (hpool : e ∉ s.poolEntry) (f : ContentEntry → ContentEntry) :
    ((s.modify e f).release e).Apart ↔ e ∉ s.attached :=
  release_apart hapart hpool

lemma addEntry_or_renewEntry (hhow : how ≠ .recoverEntry) : how = .addEntry ∨ how = .renewEntry := by
  cases how with
  | addEntry => exact .inl rfl
  | renewEntry => exact .inr rfl
  | recoverEntry => exact absurd rfl hhow

/-- The stage that writes the index file and the one after it. -/
lemma writeEntry_law (hapart : s.Apart) (hpool : e ∉ s.poolEntry) (inode : ℕ) (how : AddBehaviour)
    (env : NewEntryEnv) :
    (∀ status s', writeEntry s inode e how env = (none, status, s') → s'.Apart) ↔
      (env.dump = false → e ∉ s.attached) ∧
        (env.dump = true → how ≠ .recoverEntry → (env.creat = false → e ∉ s.attached) ∧
          (env.creat = true → ¬ RefreshFails s inode env.refresh)) := by
  have hrelease := modify_release_apart hapart hpool
  unfold writeEntry
  cases hdump : env.dump with
  | false =>
    dsimp only
    rw [if_pos rfl]
    constructor
    · intro hlaw
      exact ⟨fun _ => (hrelease _).mp (hlaw _ _ rfl), fun h => by cases h⟩
    · -- nothing was written, so the entry goes back
      rintro ⟨hfree, -⟩ status s' heq
      cases heq
      exact (hrelease _).mpr (hfree rfl)
  | true =>
    have hattach := attachEntry_law (s.modify e fun entry =>
      { entry with
        syncState := .justCreated
        readTime := 0
        modTime := 0
        refreshTime := 0
        allocTime := env.time
        lastFlushTime := 0
        lastRefreshTime := 0
        validState := .stateOk
        localFd := -1
        lastOp := 0 }) inode e how env.refresh
    dsimp only
    rw [if_neg (by decide)]
    by_cases hhow : how ≠ .recoverEntry
    swap
    · have hnot : ¬ ((how = .addEntry ∨ how = .renewEntry) ∧ env.creat = false) := by
        rw [not_not] at hhow
        subst hhow
        rintro ⟨h | h, -⟩ <;> cases h
      rw [if_neg hnot, hattach]
      exact ⟨fun _ => ⟨(fun h => by cases h), fun _ h => absurd h hhow⟩, fun _ h => absurd h hhow⟩
    cases hcreat : env.creat with
    | false =>
      rw [if_pos (And.intro (addEntry_or_renewEntry hhow) rfl)]
      constructor
      · intro hlaw
        exact ⟨(fun h => by cases h),
          fun _ _ => ⟨fun _ => (hrelease _).mp (hlaw _ _ rfl), fun h => by cases h⟩⟩
      · rintro ⟨-, hrest⟩ status s' heq
        cases heq
        exact (hrelease _).mpr ((hrest rfl hhow).1 rfl)
    | true =>
      rw [if_neg (fun h => by cases h.2), hattach]
      constructor
      · intro hno
        exact ⟨(fun h => by cases h), fun _ _ => ⟨(fun h => by cases h), fun _ => hno hhow⟩⟩
      · rintro ⟨-, hrest⟩ -
        exact (hrest rfl hhow).2 rfl

/-- The stage that makes the names and those after it. -/
lemma fillEntry_law (hapart : s.Apart) (hpool : e ∉ s.poolEntry) (inode : ℕ) (how : AddBehaviour)
    (env : NewEntryEnv) :
    (∀ status s', fillEntry s inode e how env = some (none, status, s') → s'.Apart) ↔
      (NameFails s .indexFile env.indexName → e ∉ s.attached) ∧
      ((∃ index, cacheContentCreateName s.cacheDir .indexFile env.indexName = some (.ok index)) →
        NameFails s .dataFile env.dataName → e ∉ s.attached) ∧
      (NamesMade s env → (env.dump = false → e ∉ s.attached) ∧
        (env.dump = true → how ≠ .recoverEntry → (env.creat = false → e ∉ s.attached) ∧
          (env.creat = true → ¬ RefreshFails s inode env.refresh))) := by
  have hrelease := release_apart hapart hpool
  unfold fillEntry NameFails NamesMade
  cases hindex : cacheContentCreateName s.cacheDir .indexFile env.indexName with
  | none => simp
  | some r =>
    cases r with
    | error status =>
      rw [← hrelease]
      simp
    | ok index =>
      -- the name of the data file does not depend on the entry
      have hmade : (cacheContentCreateName (s.modify e fun entry =>
          { entry with cachePathIndex := index }).cacheDir .dataFile env.dataName) =
          cacheContentCreateName s.cacheDir .dataFile env.dataName := rfl
      rw [Option.bind_some]
      dsimp only
      rw [hmade]
      cases hdata : cacheContentCreateName s.cacheDir .dataFile env.dataName with
      | none => simp
      | some r =>
        cases r with
        | error status =>
          have hsame := modify_release_apart hapart hpool fun entry =>
            { entry with cachePathIndex := index }
          constructor
          · intro hlaw
            have hfree := hsame.mp (hlaw _ _ rfl)
            exact ⟨fun _ => hfree, fun _ _ => hfree, by simp⟩
          · rintro ⟨-, hname, -⟩ status' s' heq
            cases heq
            exact hsame.mpr (hname ⟨index, rfl⟩ ⟨status, rfl⟩)
        | ok data =>
          have hwrite := writeEntry_law (s := (s.modify e fun entry =>
            { entry with cachePathIndex := index }).modify e fun entry => { entry with cachePathData := data })
            hapart hpool inode how env
          constructor
          · intro hlaw
            refine ⟨by simp, by simp, fun _ => hwrite.mp fun status s' heq => hlaw status s' ?_⟩
            exact congrArg some heq
          · rintro ⟨-, -, hrest⟩ status s' heq
            refine hwrite.mpr (hrest ⟨index, data, rfl, rfl⟩) status s' ?_
            exact Option.some.inj heq

/-- A new entry comes out of the pool. -/
lemma takeEntry_fresh (h : Spare s.poolEntry s.arrays s.attached) (hhow : how ≠ .renewEntry) :
    ∃ answer s', takeEntry s inode how = some (answer, s') ∧
      answer = (getPrealloc s.nbPrealloc s.poolEntry s.arrays).1 ∧ s'.Apart ∧
      (∀ e ∈ answer, e ∉ s'.poolEntry ∧ e ∉ s'.attached) ∧ s'.cacheDir = s.cacheDir ∧
      s'.flushForceFsal = s.flushForceFsal ∧ s'.attributes = s.attributes := by
  have hget := h.get s.nbPrealloc
  unfold takeEntry
  rw [if_pos hhow]
  cases hpre : getPrealloc s.nbPrealloc s.poolEntry s.arrays with
  | mk answer rest =>
    obtain ⟨pool, arrays⟩ := rest
    rw [hpre] at hget
    refine ⟨_, _, rfl, rfl, ?_, ?_, rfl, rfl, rfl⟩
    · cases answer with
      | none => exact ⟨hget.pool_nodup, fun e he => hget.pool_free e he⟩
      | some e => exact ⟨hget.2.pool_nodup, fun e' he' hatt => hget.2.pool_free e' he' (.inr hatt)⟩
    · intro e he
      cases answer with
      | none => cases he
      | some e' =>
        cases he
        exact ⟨fun hmem => hget.2.pool_free e hmem (.inl rfl), hget.1⟩

lemma namesMade_congr (hdir : s'.cacheDir = s.cacheDir) : NamesMade s' env ↔ NamesMade s env := by
  unfold NamesMade
  rw [hdir]

lemma refreshFails_congr {renv : RefreshEnv} (hflush : s'.flushForceFsal = s.flushForceFsal)
    (hattributes : s'.attributes = s.attributes) : RefreshFails s' inode renv ↔ RefreshFails s inode renv := by
  unfold RefreshFails
  rw [hflush, hattributes]

/-- The law for a file that has no entry yet. -/
lemma newEntryLaw_fresh_iff (h : Spare s.poolEntry s.arrays s.attached) (hhow : how ≠ .renewEntry) :
    NewEntryLaw s (some inode) how env ↔
      ((getPrealloc s.nbPrealloc s.poolEntry s.arrays).1.isSome = true → NamesMade s env → env.dump = true →
        how ≠ .recoverEntry → env.creat = true → ¬ RefreshFails s inode env.refresh) := by
  obtain ⟨answer, s₁, htake, hanswer, hapart, hfree, hdir, hflush, hattributes⟩ :=
    takeEntry_fresh h hhow
  unfold NewEntryLaw cacheContentNewEntry
  dsimp only
  rw [htake, ← hanswer, Option.bind_some]
  cases answer with
  | none =>
    constructor
    · intro _ hsome
      cases hsome
    · rintro - status s' heq
      cases heq
      exact hapart
  | some e =>
    obtain ⟨hpool, hattached⟩ := hfree e rfl
    dsimp only
    rw [fillEntry_law hapart hpool, namesMade_congr hdir, refreshFails_congr hflush hattributes]
    constructor
    · rintro ⟨-, -, hlaw⟩ - hmade hdump hrecover hcreat
      exact ((hlaw hmade).2 hdump hrecover).2 hcreat
    · intro hlaw
      refine ⟨fun _ => hattached, fun _ _ => hattached, fun hmade => ⟨fun _ => hattached, ?_⟩⟩
      intro hdump hrecover
      exact ⟨fun _ => hattached, hlaw rfl hmade hdump hrecover⟩

/-- The law for an entry that is renewed. -/
lemma newEntryLaw_renew_iff (h : Spare s.poolEntry s.arrays s.attached) :
    NewEntryLaw s (some inode) .renewEntry env ↔ Clean s inode env .renewEntry := by
  unfold NewEntryLaw cacheContentNewEntry takeEntry Clean
  dsimp only
  rw [if_neg (by decide)]
  cases hcontent : s.pentryContent inode with
  | none => simp
  | some e =>
    have hattached : e ∈ s.attached := ⟨inode, hcontent⟩
    have hpool : e ∉ s.poolEntry := fun hmem => h.pool_free e hmem hattached
    rw [Option.map_some, Option.bind_some]
    dsimp only
    rw [fillEntry_law ⟨h.pool_nodup, h.pool_free⟩ hpool]
    have hrecover : AddBehaviour.renewEntry ≠ .recoverEntry := by decide
    constructor
    · rintro ⟨hindex, hdata, hlaw⟩ -
      refine ⟨fun hfails => hindex hfails hattached, fun hmade hfails => hdata hmade hfails hattached, ?_⟩
      intro hmade
      obtain ⟨hdump, hrest⟩ := hlaw hmade
      have hdumped : env.dump = true := by
        rw [← Bool.not_eq_false]
        exact fun hfalse => hdump hfalse hattached
      have hcreated : env.creat = true := by
        rw [← Bool.not_eq_false]
        exact fun hfalse => (hrest hdumped hrecover).1 hfalse hattached
      exact ⟨hdumped, hcreated, (hrest hdumped hrecover).2 hcreated⟩
    · intro hclean
      obtain ⟨hindex, hdata, hrest⟩ := hclean rfl
      refine ⟨fun hfails => absurd hfails hindex, fun hmade hfails => absurd hfails (hdata hmade), ?_⟩
      intro hmade
      obtain ⟨hdump, hcreat, hrefresh⟩ := hrest hmade
      rw [hdump, hcreat]
      exact ⟨fun hfalse => Bool.noConfusion hfalse,
        fun _ _ => ⟨fun hfalse => Bool.noConfusion hfalse, fun _ => hrefresh⟩⟩

/-- What is put back is not attached exactly if no failure comes when the entry is attached. -/
theorem newEntryLaw_iff (h : Spare s.poolEntry s.arrays s.attached) (pentryInode : Option ℕ)
    (how : AddBehaviour) (env : NewEntryEnv) :
    NewEntryLaw s pentryInode how env ↔ ∀ inode ∈ pentryInode, Clean s inode env how := by
  cases pentryInode with
  | none =>
    refine ⟨fun _ _ hnone => (by cases hnone), fun _ status s' heq => ?_⟩
    -- nothing has been taken
    cases heq
    exact ⟨h.pool_nodup, h.pool_free⟩
  | some inode =>
    have hsome : (∀ inode' ∈ some inode, Clean s inode' env how) ↔ Clean s inode env how := by simp
    rw [hsome]
    cases how with
    | addEntry =>
      rw [newEntryLaw_fresh_iff h (by decide)]
      exact ⟨fun hlaw hget hmade hdump hcreat => hlaw hget hmade hdump (by decide) hcreat,
        fun hlaw hget hmade hdump _ hcreat => hlaw hget hmade hdump hcreat⟩
    | renewEntry => exact newEntryLaw_renew_iff h
    | recoverEntry =>
      rw [newEntryLaw_fresh_iff h (by decide)]
      exact ⟨fun _ => trivial, fun _ _ _ _ hrecover => absurd rfl hrecover⟩

/-- A state in which the data of the inode 0 is kept in the entry 0. -/
def renewState : ClientState where
  poolEntry := []
  arrays _ := []
  nbPrealloc := 0
  cacheDir := []
  flushForceFsal := 0
  entry _ :=
    { readTime := 0
      modTime := 0
      refreshTime := 0
      allocTime := 0
      lastFlushTime := 0
      lastRefreshTime := 0
      validState := .stateOk
      cachePathData := []
      cachePathIndex := []
      localFd := -1
      lastOp := 0
      syncState := .syncOk
      pentryInode := 0 }
  pentryContent inode := if inode = 0 then some 0 else none
  attributes _ := { atime := 0, mtime := 0, ctime := 0 }

/-- No directory can be made. -/
def fullEnv : NewEntryEnv where
  indexName := { handle := true, digest := some 3, mkdir := fun _ => false }
  dataName := { handle := true, digest := some 3, mkdir := fun _ => false }
  time := 1
  dump := true
  creat := true
  refresh := { handle := true, str2path := true, stat := none, rcp := false, time := 1 }

lemma renewState_spare : Spare renewState.poolEntry renewState.arrays renewState.attached where
  pool_nodup := List.nodup_nil
  pool_free _ he := absurd he List.not_mem_nil
  nodup _ := List.nodup_nil
  free _ _ he := absurd he List.not_mem_nil
  disjoint _ _ _ _ he := absurd he List.not_mem_nil

theorem newEntryLaw_iff_renewState : NewEntryLaw renewState (some 0) .renewEntry fullEnv ↔
    ∀ inode ∈ some 0, Clean renewState inode fullEnv .renewEntry :=
  newEntryLaw_iff renewState_spare (some 0) .renewEntry fullEnv

/-- An entry that cannot be renewed is put back, and is still attached. -/
theorem not_newEntryLaw_of_fullEnv : ¬ ∀ (s : ClientState) (pentryInode : Option ℕ) (how : AddBehaviour)
    (env : NewEntryEnv), Spare s.poolEntry s.arrays s.attached → NewEntryLaw s pentryInode how env := by
  intro h
  have hlaw := h renewState (some 0) .renewEntry fullEnv renewState_spare
  have hcall : cacheContentNewEntry renewState (some 0) .renewEntry fullEnv =
      some (none, .entryExists, renewState.release 0) := rfl
  exact (hlaw _ _ hcall).2 0 List.mem_cons_self ⟨0, rfl⟩

end Ganesha.FileContent
