import Ganesha.PosixDb.Common

/-!
# The path of a handle

`fsal_internal_getPathFromHandle` of `FSAL/FSAL_POSIX/fsal_internal.c`: of the paths that the database has for a
handle, the first for which `lstat` works is looked for. What the deletion of a bad path does to the database is
given, as its status is not used.
-/

namespace Ganesha.PosixDb

/-- The codes of `fsal_status_t`. -/
inductive FsalError
  | noError
  | stale
  | serverfault
  | fault
  | nametoolong
  deriving DecidableEq

def posixdb2fsalError : Major → FsalError
  | .toomanypaths | .noerr => .noError
  | .cmdfailed => .serverfault
  | .noent | .nopath => .stale
  | .fault | .consistency => .fault
  | .pathtoolong => .nametoolong

/-- The fields of `struct stat` that make up the information about a file. -/
structure FileStat where
  dev : UInt64
  ino : UInt64
  nlink : ℤ
  ctime : ℤ
  mode : ℕ
  deriving DecidableEq

def posix2fsalType (mode : ℕ) : ℤ :=
  match mode / 4096 % 16 with
  | 1 => 1
  | 2 => 2
  | 4 => fsalTypeDir
  | 6 => 6
  | 8 | 15 => 8
  | 10 => 10
  | 12 => 12
  | _ => -1

/-- `fsal_internal_posix2posixdb_fileinfo`. -/
def posix2posixdbFileinfo (buffstat : FileStat) : FileInfo :=
  ⟨buffstat.dev, buffstat.ino, buffstat.nlink, buffstat.ctime, posix2fsalType buffstat.mode⟩

variable {σ : Type} (d : Database σ) (lstat : Name → Option FileStat) (forget : Name → World σ → World σ)

def fsalPosixdbDeleteHandle (noDeleteCascade : Bool) (fuel : ℕ) (h : Handle) : M σ (Option Status) := do
  let _ ← dbExecSql d .begin
  match ← dbExecSqlRes d (.selectHandle h.id h.ts true) with
  | .error st => return some (← rollback d st)
  | .ok res =>
    let found ← mysqlNumRows res
    mysqlFreeResult res
    if found ≠ 0 then
      match ← fsalPosixdbRecursiveDelete d noDeleteCascade fuel h.id h.ts fsalTypeDir with
      | none => return none
      | some st => if st.IsError then return some (← rollback d st) else return some (← dbExecSql d .commit)
    else return some (← dbExecSql d .commit)

/-- The loop over the paths: the buffer at its `break`, if there is one. -/
def statPaths : List Name → M σ (Option FileStat)
  | [] => return none
  | path :: paths => do
    match lstat path with
    | none =>
      modify (forget path)
      statPaths paths
    | some buffstat => return some buffstat

/-- What the search returns: the status, the path, the buffer and the information that the handle has then. -/
structure PathResult where
  status : FsalError
  path : Option Name
  buffstat : Option FileStat
  info : FileInfo

/-- The end of the search, with the information about the handle and its paths. The path that is returned is the
first one of the array. -/
def checkPaths (noDeleteCascade : Bool) (fuel : ℕ) (wantStat : Bool) (h : Handle) (info : FileInfo)
    (paths : List Name) : M σ (Option PathResult) := do
  if wantStat then
    match ← statPaths lstat forget paths with
    | none => return some ⟨.stale, none, none, info⟩
    | some buffstat =>
      let path := paths.head?
      if consistencyCheck info (posix2posixdbFileinfo buffstat) then
        match ← fsalPosixdbDeleteHandle d noDeleteCascade fuel h with
        | none => return none
        | some st =>
          if st.IsError ∧ posixdb2fsalError st.major ≠ .noError then
            return some ⟨posixdb2fsalError st.major, path, some buffstat, info⟩
          else return some ⟨.stale, path, some buffstat, info⟩
      else return some ⟨.noError, path, some buffstat, info⟩
  else return some ⟨.noError, paths.head?, none, info⟩

/-- `fsal_internal_getPathFromHandle`. -/
def getPathFromHandle (noDeleteCascade : Bool) (fuel : ℕ) (isDir wantStat : Bool) (maxlink : ℕ) (h : Handle) :
    M σ (Option PathResult) := do
  let (st, info, paths) ← fsalPosixdbGetInfoFromHandle d h (some (if isDir then 1 else maxlink))
  if st.IsError ∧ posixdb2fsalError st.major ≠ .noError then
    return some ⟨posixdb2fsalError st.major, none, none, info.getD h.info⟩
  else checkPaths d lstat forget noDeleteCascade fuel wantStat h (info.getD h.info) paths

/-! ## What the property is about -/

/-- The device, the inode and the type are the same. -/
def SameFile (info₁ info₂ : FileInfo) : Prop :=
  info₁.devid = info₂.devid ∧ info₁.inode = info₂.inode ∧ info₁.ftype = info₂.ftype

/-- With success the path is one for which `lstat` works, the buffer describes it, and it is the file of the handle;
and the handle is stale if all its paths are, where the database has given them. -/
structure Faithful (run : Option (Option PathResult × World σ)) (recorded : Option (List Name)) : Prop where
  success : ∀ r w, run = some (some r, w) → r.status = .noError → ∃ path buffstat, r.path = some path ∧
    r.buffstat = some buffstat ∧ lstat path = some buffstat ∧ SameFile r.info (posix2posixdbFileinfo buffstat)
  stale : ∀ r w paths, run = some (some r, w) → recorded = some paths → (∀ path ∈ paths, lstat path = none) →
    r.status = .stale

/-- The first path for which `lstat` works. -/
def firstValid (paths : List Name) : Option (Name × FileStat) :=
  paths.findSome? fun path => (lstat path).map fun buffstat => (path, buffstat)

/-- No field passes the consistency check because it is zero on one side only. -/
def ZerosMatch (info₁ info₂ : FileInfo) : Prop :=
  (info₁.devid = 0 ↔ info₂.devid = 0) ∧ (info₁.inode = 0 ↔ info₂.inode = 0) ∧ (info₁.ftype = 0 ↔ info₂.ftype = 0)

/-- Files that pass the check. -/
lemma sameFile_iff {info₁ info₂ : FileInfo} (hcheck : consistencyCheck info₁ info₂ = false) :
    SameFile info₁ info₂ ↔ ZerosMatch info₁ info₂ := by
  simp only [consistencyCheck, Bool.or_eq_false_iff, Bool.and_eq_false_iff,
    decide_eq_false_iff_not, not_not] at hcheck
  obtain ⟨⟨hinode, hdevid⟩, hftype⟩ := hcheck
  constructor
  · rintro ⟨hd, hi, ht⟩
    exact ⟨by rw [hd], by rw [hi], by rw [ht]⟩
  · rintro ⟨hd, hi, ht⟩
    refine ⟨?_, ?_, ?_⟩ <;> grind

/-- What is found at first and passes the check is found under the first path of all, and has its zeros where the
handle has them. -/
def FirstFits (info : FileInfo) (paths : List Name) : Prop :=
  ∀ path buffstat, firstValid lstat paths = some (path, buffstat) →
    consistencyCheck info (posix2posixdbFileinfo buffstat) = false →
      paths.head? = some path ∧ ZerosMatch info (posix2posixdbFileinfo buffstat)

variable {d lstat forget} {paths : List Name} {info : FileInfo} {path : Name} {buffstat : FileStat}

lemma firstValid_spec (hvalid : firstValid lstat paths = some (path, buffstat)) :
    path ∈ paths ∧ lstat path = some buffstat := by
  obtain ⟨p, hmem, hp⟩ := List.exists_of_findSome?_eq_some hvalid
  obtain ⟨b, hb, heq⟩ := Option.map_eq_some_iff.mp hp
  obtain ⟨rfl, rfl⟩ := Prod.mk.inj heq
  exact ⟨hmem, hb⟩

/-- The first path that `lstat` answers. -/
lemma statPaths_eq (lstat : Name → Option FileStat) (forget : Name → World σ → World σ) (paths : List Name)
    (w : World σ) :
    ∃ w', statPaths lstat forget paths w = some ((firstValid lstat paths).map Prod.snd, w') := by
  induction paths generalizing w with
  | nil => exact ⟨w, rfl⟩
  | cons p paths ih =>
    rw [statPaths, firstValid, List.findSome?_cons]
    cases lstat p with
    | none => exact ih (forget p w)
    | some b => exact ⟨w, rfl⟩

variable {noDeleteCascade isDir : Bool} {fuel maxlink : ℕ} {h : Handle} {w w₁ : World σ}

/-- The check of the first path that `lstat` answers. -/
lemma checkPaths_found (hvalid : firstValid lstat paths = some (path, buffstat)) :
    (consistencyCheck info (posix2posixdbFileinfo buffstat) = true → ∀ r w', checkPaths d lstat forget
      noDeleteCascade fuel true h info paths w = some (some r, w') → r.status ≠ .noError) ∧
    (consistencyCheck info (posix2posixdbFileinfo buffstat) = false → ∃ w', checkPaths d lstat forget
      noDeleteCascade fuel true h info paths w = some (some ⟨.noError, paths.head?, some buffstat, info⟩, w')) := by
  obtain ⟨w', hstat⟩ := statPaths_eq lstat forget paths w
  rw [hvalid] at hstat
  unfold checkPaths
  simp only [if_true, bind, StateT.bind, hstat, Option.map_some, Option.bind_some]
  refine ⟨fun hcheck r w₂ hr => ?_, fun hcheck => ⟨w', ?_⟩⟩
  · rw [hcheck] at hr
    simp only [if_true] at hr
    obtain ⟨⟨deleted, w₃⟩, -, hr⟩ := Option.bind_eq_some_iff.mp hr
    cases deleted with
    | none => cases hr
    | some st =>
      dsimp only at hr
      split_ifs at hr with hst
      · cases hr
        exact hst.2
      · cases hr
        exact FsalError.noConfusion
  · rw [hcheck]
    rfl

/-- The list is faithful exactly if its first valid path fits. -/
lemma checkPaths_faithful_iff : Faithful lstat (checkPaths d lstat forget noDeleteCascade fuel true h info paths w)
    (some paths) ↔ FirstFits lstat info paths := by
  cases hvalid : firstValid lstat paths with
  | none =>
    obtain ⟨w', hstat⟩ := statPaths_eq lstat forget paths w
    rw [hvalid] at hstat
    have hrun : checkPaths d lstat forget noDeleteCascade fuel true h info paths w =
        some (some ⟨.stale, none, none, info⟩, w') := by
      unfold checkPaths
      simp only [if_true, bind, StateT.bind, hstat, Option.map_none, Option.bind_some]
      rfl
    have hresult : ∀ r w₂, checkPaths d lstat forget noDeleteCascade fuel true h info paths w =
        some (some r, w₂) → r.status = .stale := by
      intro r w₂ hr
      rw [hrun] at hr
      cases hr
      rfl
    refine ⟨fun _ path buffstat hsome => ?_, fun _ => ⟨fun r w₂ hr hstatus => ?_, fun r w₂ _ hr _ _ => hresult r w₂ hr⟩⟩
    · rw [hvalid] at hsome
      cases hsome
    · rw [hresult r w₂ hr] at hstatus
      cases hstatus
  | some found =>
    obtain ⟨path, buffstat⟩ := found
    obtain ⟨hmem, hpath⟩ := firstValid_spec hvalid
    obtain ⟨hbad, hgood⟩ := @checkPaths_found _ d lstat forget paths info path buffstat noDeleteCascade fuel h w hvalid
    constructor
    · rintro hfaithful p b hsome hcheck
      obtain ⟨rfl, rfl⟩ := Prod.mk.inj (Option.some.inj (hvalid.symm.trans hsome))
      obtain ⟨w', hrun⟩ := hgood hcheck
      obtain ⟨head, b, hhead, hb, hstat, hsame⟩ := hfaithful.success _ w' hrun rfl
      obtain rfl := Option.some.inj hb
      refine ⟨?_, (sameFile_iff hcheck).mp hsame⟩
      -- the first path of all is one for which it works, and so the first of these
      obtain ⟨rest, rfl⟩ := List.head?_eq_some_iff.mp hhead
      rw [firstValid, List.findSome?_cons, hstat] at hvalid
      exact congrArg some (Prod.mk.inj (Option.some.inj hvalid)).1
    · intro hfits
      refine ⟨fun r w₂ hr hstatus => ?_, fun r w₂ ps _ hps hall => ?_⟩
      · cases hcheck : consistencyCheck info (posix2posixdbFileinfo buffstat) with
        | true => exact absurd hstatus (hbad hcheck r w₂ hr)
        | false =>
          obtain ⟨w', hrun⟩ := hgood hcheck
          obtain ⟨hhead, hzeros⟩ := hfits path buffstat hvalid hcheck
          rw [hrun] at hr
          cases hr
          exact ⟨path, buffstat, hhead, rfl, hpath, (sameFile_iff hcheck).mpr hzeros⟩
      · rw [hall path (Option.some.inj hps ▸ hmem)] at hpath
        cases hpath

/-- The paths that the database has given. -/
def recorded (st : Status) (paths : List Name) : Option (List Name) :=
  if posixdb2fsalError st.major = .noError then some paths else none

/-- The path, the attributes and the handle belong together exactly if the database has an error, or what is found
at first is found under the first path of all and no field passes the check because it is zero. -/
theorem pathFaithful_iff (forget : Name → World σ → World σ) (st : Status) (got : Option FileInfo)
    (hinfo : fsalPosixdbGetInfoFromHandle d h (some (if isDir then 1 else maxlink)) w = some ((st, got, paths), w₁)) :
    Faithful lstat (getPathFromHandle d lstat forget noDeleteCascade fuel isDir true maxlink h w) (recorded st paths) ↔
      posixdb2fsalError st.major ≠ .noError ∨ FirstFits lstat (got.getD h.info) paths := by
  unfold getPathFromHandle
  simp only [bind, StateT.bind, hinfo, Option.bind_some]
  by_cases herror : posixdb2fsalError st.major = .noError
  · have hno : ¬ (st.IsError ∧ posixdb2fsalError st.major ≠ .noError) := fun h => h.2 herror
    rw [recorded, if_pos herror, if_neg hno, checkPaths_faithful_iff, or_iff_right (not_not.mpr herror)]
  · have hyes : st.IsError ∧ posixdb2fsalError st.major ≠ .noError := by
      refine ⟨fun hnoerr => herror ?_, herror⟩
      rw [hnoerr]
      rfl
    rw [recorded, if_neg herror, if_pos hyes]
    refine ⟨fun _ => .inl herror, fun _ => ⟨fun r w₂ hr hstatus => ?_, fun _ _ _ _ hnone => by cases hnone⟩⟩
    cases hr
    exact absurd hstatus herror

/-- A file with two paths, of which the second is left. -/
def twoPaths : Database Unit where
  answer _ q := (.ok ⟨2, if q matches .selectPaths .. then [⟨fun _ => 1, fun _ => [97]⟩, ⟨fun _ => 1, fun _ => [98]⟩]
    else []⟩, ())
  insertId _ := 1
  affectedRows _ := 1
  getInodeCache _ _ := (some ⟨1, 1, 2, 1, 8⟩, ())
  buildOnePath _ _ := (.ok [], ())
  time _ := (1, ())

/-- The file under its second path. -/
def secondPath (path : Name) : Option FileStat := if path = [47, 98] then some ⟨1, 1, 1, 2, 8 * 4096⟩ else none

theorem pathFaithful_iff_second : Faithful secondPath (getPathFromHandle twoPaths secondPath (fun _ w => w) false 0 false
      true 2 ⟨1, 1, ⟨1, 1, 2, 1, 8⟩⟩ ⟨(), 0, []⟩) (recorded (code .noerr) [[47, 97], [47, 98]]) ↔
    posixdb2fsalError .noerr ≠ .noError ∨ FirstFits secondPath ⟨1, 1, 2, 1, 8⟩ [[47, 97], [47, 98]] :=
  pathFaithful_iff _ (code .noerr) (some ⟨1, 1, 2, 1, 8⟩) rfl

/-- The first path is returned, with the attributes of the second. -/
theorem not_faithful_of_second : ¬ ∀ (d : Database Unit) (lstat : Name → Option FileStat)
    (forget : Name → World Unit → World Unit) (maxlink : ℕ) (h : Handle) (st : Status) (got : Option FileInfo)
    (paths : List Name) (w w₁ : World Unit),
    fsalPosixdbGetInfoFromHandle d h (some maxlink) w = some ((st, got, paths), w₁) →
    Faithful lstat (getPathFromHandle d lstat forget false 0 false true maxlink h w) (recorded st paths) := by
  intro hall
  have hfaithful := hall twoPaths secondPath (fun _ w => w) 2 ⟨1, 1, ⟨1, 1, 2, 1, 8⟩⟩ (code .noerr)
    (some ⟨1, 1, 2, 1, 8⟩) [[47, 97], [47, 98]] ⟨(), 0, []⟩ _ rfl
  obtain ⟨path, buffstat, hpath, -, hstat, -⟩ := hfaithful.success
    ⟨.noError, some [47, 97], some ⟨1, 1, 1, 2, 8 * 4096⟩, ⟨1, 1, 2, 1, 8⟩⟩ _ rfl rfl
  obtain rfl := Option.some.inj hpath
  cases (show none = some buffstat from hstat)

end Ganesha.PosixDb
