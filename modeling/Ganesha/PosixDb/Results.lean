import Ganesha.Library.Scope
import Ganesha.PosixDb.Common

/-!
# The sets of rows are released

A function that is called with no set of rows in hand returns with none, and uses none after its release
(`Released`), whatever the database answers. `fsal_posixdb_add` does not if the entry is there already
(`released_iff`).
-/

namespace Ganesha.PosixDb

open Scope

/-- The sets that are held have numbers that are not given again. -/
def resources (σ : Type) : Resources (World σ) where
  live w := w.held.map Prod.fst
  inv w := ∀ res ∈ w.held.map Prod.fst, res < w.nextRes

variable {σ α : Type} {d : Database σ} {l : List ℕ} {res : ℕ} {q : Query} {row : MysqlRow} {i : ℕ}

/-- A result that is held can be looked up. -/
lemma lookup_isSome {β : Type} {held : List (ℕ × β)} (h : res ∈ held.map Prod.fst) :
    ∃ set, held.lookup res = some set := by
  induction held with
  | nil => cases h
  | cons p held ih =>
    obtain ⟨n, set⟩ := p
    by_cases heq : res = n
    · subst heq
      exact ⟨set, List.lookup_cons_self⟩
    · obtain ⟨set', hset⟩ := ih ((List.mem_cons.mp h).resolve_left heq)
      refine ⟨set', ?_⟩
      rw [List.lookup_cons, beq_false_of_ne heq]
      exact hset

/-! ## The calls of MySQL -/

/-- A computation that leaves the sets of rows as they are. -/
def Keeps (l : List ℕ) (m : M σ α) : Prop := Safe (resources σ) l m fun _ l' => l' = l

section Rules

variable {β : Type} {f : α → M σ β} {post : β → List ℕ → Prop} {m : M σ α}

lemma Keeps.bind (h : Keeps l m) (hf : ∀ a, Safe (resources σ) l (f a) post) : Safe (resources σ) l (m >>= f) post := by
  apply Safe.bind
  apply h.mono
  rintro a l' rfl
  exact hf a

lemma keeps_pure {a : α} : Keeps l (pure a : M σ α) := Safe.pure rfl

/-- A query without a result. -/
lemma keeps_dbExecSql : Keeps l (dbExecSql d q) := by
  intro w hinv hl
  cases hanswer : (d.answer w.db q).1 with
  | error err =>
    refine ⟨mysqlErrorConvert err, { w with db := (d.answer w.db q).2 }, ?_, hinv, hl⟩
    simp only [dbExecSql, hanswer]
  | ok set =>
    refine ⟨code .noerr, { w with db := (d.answer w.db q).2 }, ?_, hinv, hl⟩
    simp only [dbExecSql, hanswer]

/-- A query with a result: one more is held from here on. -/
lemma safe_dbExecSqlRes {f : Except Status ℕ → M σ β} (herror : ∀ st, Safe (resources σ) l (f (.error st)) post)
    (hok : ∀ res, res ∉ l → Safe (resources σ) (res :: l) (f (.ok res)) post) :
    Safe (resources σ) l (dbExecSqlRes d q >>= f) post := by
  apply Safe.bind
  intro w hinv hl
  cases hanswer : (d.answer w.db q).1 with
  | error err =>
    refine ⟨.error (mysqlErrorConvert err), { w with db := (d.answer w.db q).2 }, ?_, hinv, ?_⟩
    · simp only [dbExecSqlRes, hanswer]
    · show Safe (resources σ) (w.held.map Prod.fst) _ post
      rw [show w.held.map Prod.fst = l from hl]
      exact herror _
  | ok set =>
    refine ⟨.ok w.nextRes, ⟨(d.answer w.db q).2, w.nextRes + 1, (w.nextRes, set) :: w.held⟩, ?_, ?_, ?_⟩
    · simp only [dbExecSqlRes, hanswer]
    · intro res hres
      obtain rfl | hres := List.mem_cons.mp hres
      · exact Nat.lt_succ_self _
      · exact Nat.lt_succ_of_lt (hinv res hres)
    · show Safe (resources σ) (w.nextRes :: w.held.map Prod.fst) _ post
      rw [show w.held.map Prod.fst = l from hl]
      apply hok
      intro hmem
      rw [← hl] at hmem
      exact absurd (hinv _ hmem) (Nat.lt_irrefl _)

lemma keeps_mysqlNumRows (hres : res ∈ l) : Keeps l (mysqlNumRows res : M σ ℕ) := by
  rintro w hinv rfl
  obtain ⟨set, hset⟩ := lookup_isSome hres
  refine ⟨set.numRows, w, ?_, hinv, rfl⟩
  rw [mysqlNumRows, hset, Option.map_some]

lemma keeps_readNum (hres : row.res ∈ l) : Keeps l (readNum row i : M σ ℤ) := by
  rintro w hinv rfl
  obtain ⟨set, hset⟩ := lookup_isSome hres
  refine ⟨row.row.num i, w, ?_, hinv, rfl⟩
  rw [readNum, hset, Option.map_some]

lemma keeps_readText (hres : row.res ∈ l) : Keeps l (readText row i : M σ Name) := by
  rintro w hinv rfl
  obtain ⟨set, hset⟩ := lookup_isSome hres
  refine ⟨row.row.text i, w, ?_, hinv, rfl⟩
  rw [readText, hset, Option.map_some]

/-- Rows are fetched from a held result. -/
lemma safe_mysqlFetchRow {f : Option MysqlRow → M σ β} (hres : res ∈ l)
    (hnone : Safe (resources σ) l (f none) post)
    (hsome : ∀ row : MysqlRow, row.res = res → Safe (resources σ) l (f (some row)) post) :
    Safe (resources σ) l (mysqlFetchRow res >>= f) post := by
  apply Safe.bind
  intro w hinv hl
  have hsame : (fetched res w.held).map Prod.fst = w.held.map Prod.fst := by
    rw [fetched, List.map_map]
    apply List.map_congr_left
    intro p _
    show (if p.1 = res then (p.1, (⟨p.2.numRows, p.2.rows.tail⟩ : ResultSet)) else p).1 = p.1
    split_ifs
    · rfl
    · rfl
  have hl' : w.held.map Prod.fst = l := hl
  obtain ⟨set, hset⟩ : ∃ set, w.held.lookup res = some set := lookup_isSome (by rw [hl']; exact hres)
  refine ⟨set.rows.head?.map (⟨res, ·⟩), { w with held := fetched res w.held }, ?_, ?_, ?_⟩
  · rw [mysqlFetchRow, hset, Option.map_some]
  · intro res' hres'
    rw [hsame] at hres'
    exact hinv res' hres'
  · show Safe (resources σ) ((fetched res w.held).map Prod.fst) _ post
    rw [hsame, hl']
    cases set.rows.head? with
    | none => exact hnone
    | some row => exact hsome ⟨res, row⟩ rfl

/-- A held result is released once. -/
lemma safe_mysqlFreeResult {f : Unit → M σ β} (hnot : res ∉ l) (h : Safe (resources σ) l (f ()) post) :
    Safe (resources σ) (res :: l) (mysqlFreeResult res >>= f) post := by
  apply Safe.bind
  intro w hinv hl
  have hl' : w.held.map Prod.fst = res :: l := hl
  have hrest : (w.held.filter fun p => p.1 ≠ res).map Prod.fst = l := by
    have hfilter : (w.held.filter fun p => p.1 ≠ res).map Prod.fst =
        (w.held.map Prod.fst).filter fun n => n ≠ res := by
      rw [List.filter_map]
      rfl
    rw [hfilter, hl', List.filter_cons_of_neg (by simp), List.filter_eq_self]
    intro n hn
    rw [decide_eq_true_eq]
    rintro rfl
    exact hnot hn
  obtain ⟨set, hset⟩ : ∃ set, w.held.lookup res = some set :=
    lookup_isSome (by rw [hl']; exact List.mem_cons_self)
  refine ⟨(), { w with held := w.held.filter fun p => p.1 ≠ res }, ?_, ?_, ?_⟩
  · rw [mysqlFreeResult, hset, Option.map_some]
  · intro res' (hres' : res' ∈ (w.held.filter fun p => p.1 ≠ res).map Prod.fst)
    rw [hrest] at hres'
    apply hinv
    rw [hl']
    exact List.mem_cons_of_mem _ hres'
  · show Safe (resources σ) ((w.held.filter fun p => p.1 ≠ res).map Prod.fst) _ post
    rw [hrest]
    exact h

end Rules

lemma keeps_mysqlInsertId : Keeps l (mysqlInsertId d) := fun w hinv hl => ⟨_, w, rfl, hinv, hl⟩

lemma keeps_mysqlAffectedRows : Keeps l (mysqlAffectedRows d) := fun w hinv hl => ⟨_, w, rfl, hinv, hl⟩

lemma keeps_getInodeCache {h : Handle} : Keeps l (getInodeCache d h) := fun _ hinv hl => ⟨_, _, rfl, hinv, hl⟩

lemma keeps_buildOnePath {h : Handle} : Keeps l (buildOnePath d h) := fun _ hinv hl => ⟨_, _, rfl, hinv, hl⟩

lemma keeps_time : Keeps l (time d) := fun _ hinv hl => ⟨_, _, rfl, hinv, hl⟩

lemma keeps_rollback {st : Status} : Keeps l (rollback d st) := keeps_dbExecSql.bind fun _ => keeps_pure

/-- The columns of a row. -/
lemma keeps_fillFileinfo {devid inode : UInt64} (hres : row.res ∈ l) :
    Keeps l (fillFileinfo row i devid inode : M σ FileInfo) := by
  apply (keeps_readNum hres).bind
  intro nlink
  apply (keeps_readNum hres).bind
  intro ctime
  apply (keeps_readNum hres).bind
  intro ftype
  exact keeps_pure

lemma keeps_fillFileinfoFrom (hres : row.res ∈ l) : Keeps l (fillFileinfoFrom row i : M σ FileInfo) := by
  apply (keeps_readNum hres).bind
  intro devid
  apply (keeps_readNum hres).bind
  intro inode
  exact keeps_fillFileinfo hres

/-! ## Deletions -/

/-- A computation that leaves the sets of rows as they are if it returns. -/
def Returns (l : List ℕ) (m : M σ (Option α)) : Prop :=
  Safe (resources σ) l m fun a l' => a.isSome = true → l' = l

variable {noDeleteCascade : Bool} {id idparent : UInt64} {ts tsparent : UInt32} {filename : Name} {ftype : ℤ}
  {fuel : ℕ}

lemma Keeps.returns {m : M σ (Option α)} (h : Keeps l m) : Returns l m := h.mono fun _ _ hl _ => hl

lemma keeps_ite {c : Prop} [Decidable c] {m m' : M σ α} (h : Keeps l m) (h' : Keeps l m') :
    Keeps l (if c then m else m') := by
  split_ifs
  · exact h
  · exact h'

/-- The deletion of a parent entry holds nothing back. -/
lemma keeps_fsalPosixdbDeleteParent {nlink : ℤ} :
    Keeps l (fsalPosixdbDeleteParent d noDeleteCascade id ts idparent tsparent filename nlink) := by
  apply keeps_ite keeps_pure
  apply keeps_dbExecSql.bind
  intro st
  apply keeps_ite keeps_pure
  apply keeps_ite
  · apply keeps_dbExecSql.bind
    intro st
    apply keeps_ite keeps_pure
    apply keeps_ite
    · exact keeps_dbExecSql.bind fun st => keeps_ite keeps_pure keeps_pure
    · exact keeps_pure
  · exact keeps_dbExecSql.bind fun st => keeps_ite keeps_pure keeps_pure

/-- The row of a handle is deleted. -/
lemma keeps_deleteHandle : Keeps l (deleteHandle d noDeleteCascade id ts) := by
  apply keeps_dbExecSql.bind
  intro st
  apply keeps_ite keeps_pure
  apply keeps_ite
  · exact keeps_dbExecSql.bind fun st => keeps_ite keeps_pure keeps_pure
  · exact keeps_pure

/-- A directory and its children are deleted; the set of the children is released at the end of the loop. -/
lemma returns_delete (noDeleteCascade : Bool) (fuel : ℕ) :
    (∀ l id ts ftype, Returns l (fsalPosixdbRecursiveDelete d noDeleteCascade fuel id ts ftype)) ∧
    ∀ l id ts res, res ∈ l → Returns l (deleteChildren d noDeleteCascade fuel id ts res) := by
  induction fuel with
  | zero => exact ⟨fun _ _ _ _ => keeps_pure.returns, fun _ _ _ _ _ => keeps_pure.returns⟩
  | succ fuel ih =>
    obtain ⟨ihDelete, ihChildren⟩ := ih
    constructor
    · intro l id ts ftype
      unfold fsalPosixdbRecursiveDelete
      split_ifs
      · apply safe_dbExecSqlRes
        · exact fun st => keeps_pure.returns
        intro res hres
        apply Safe.bind
        apply (ihChildren (res :: l) id ts res List.mem_cons_self).mono
        intro a l' ha
        cases a with
        | none => exact Safe.pure fun hsome => by cases hsome
        | some st =>
          obtain rfl := ha rfl
          apply safe_mysqlFreeResult hres
          split_ifs
          · exact keeps_pure.returns
          · exact keeps_deleteHandle.returns
      · exact keeps_deleteHandle.returns
    · intro l id ts res hres
      unfold deleteChildren
      apply safe_mysqlFetchRow hres
      · exact keeps_pure.returns
      rintro row rfl
      apply (keeps_readNum hres).bind
      intro ftype
      apply (keeps_readNum hres).bind
      intro childId
      apply (keeps_readNum hres).bind
      intro childTs
      split_ifs
      · apply Safe.bind
        apply (ihDelete l _ _ ftype).mono
        intro a l' ha
        cases a with
        | none => exact Safe.pure fun hsome => by cases hsome
        | some st =>
          obtain rfl := ha rfl
          dsimp only
          split_ifs
          · exact keeps_pure.returns
          · exact ihChildren l' id ts row.res hres
      · apply (keeps_readText hres).bind
        intro name
        apply (keeps_readNum hres).bind
        intro nlink
        apply keeps_fsalPosixdbDeleteParent.bind
        intro st
        split_ifs
        · exact keeps_pure.returns
        · exact ihChildren l id ts row.res hres

/-- The deletion through all entries below. -/
lemma returns_fsalPosixdbInternalDelete {objectInfo : Option FileInfo} :
    Returns l (fsalPosixdbInternalDelete d noDeleteCascade fuel idparent tsparent filename objectInfo) := by
  apply safe_dbExecSqlRes
  · exact fun st => keeps_pure.returns
  intro res hres
  have hmem : res ∈ res :: l := List.mem_cons_self
  apply (keeps_mysqlNumRows hmem).bind
  intro n
  split_ifs
  · exact safe_mysqlFreeResult hres keeps_pure.returns
  apply safe_mysqlFetchRow hmem
  · exact safe_mysqlFreeResult hres keeps_pure.returns
  rintro row rfl
  apply (keeps_readNum hmem).bind
  intro id
  apply (keeps_readNum hmem).bind
  intro ts
  apply (keeps_fillFileinfoFrom hmem).bind
  intro infodb
  apply safe_mysqlFreeResult hres
  dsimp only
  generalize (if objectInfo.any (fun info => consistencyCheck infodb info) = true then fsalTypeDir
    else infodb.ftype) = ftype
  split_ifs
  · exact (returns_delete noDeleteCascade fuel).1 l _ _ _
  · exact keeps_fsalPosixdbDeleteParent.bind fun st => keeps_pure.returns

/-! ## Lookups -/

variable {p h old new : Handle} {parent : Option Handle} {info : FileInfo} {name filenameOld filenameNew : Name}

/-- The path of a name. -/
lemma keeps_namePath : Keeps l (namePath d p name h) := by
  apply keeps_buildOnePath.bind
  intro path
  cases path with
  | error st => exact keeps_rollback.bind fun st => keeps_pure
  | ok path =>
    apply keeps_ite
    · exact keeps_dbExecSql.bind fun st => keeps_pure
    · exact keeps_rollback.bind fun st => keeps_pure

/-- The lookup by name, with or without the path. -/
lemma keeps_fsalPosixdbGetInfoFromName {wantPath : Bool} :
    Keeps l (fsalPosixdbGetInfoFromName d parent name wantPath) := by
  apply keeps_dbExecSql.bind
  intro st
  apply safe_dbExecSqlRes
  · exact fun st => keeps_rollback.bind fun st => keeps_pure
  intro res hres
  have hmem : res ∈ res :: l := List.mem_cons_self
  apply (keeps_mysqlNumRows hmem).bind
  intro n
  split_ifs
  · exact safe_mysqlFreeResult hres (keeps_rollback.bind fun st => keeps_pure)
  apply safe_mysqlFetchRow hmem
  · exact safe_mysqlFreeResult hres (keeps_rollback.bind fun st => keeps_pure)
  rintro row rfl
  apply (keeps_readNum hmem).bind
  intro id
  apply (keeps_readNum hmem).bind
  intro ts
  apply (keeps_fillFileinfoFrom hmem).bind
  intro info
  apply safe_mysqlFreeResult hres
  cases wantPath with
  | false => cases parent <;> exact keeps_dbExecSql.bind fun st => keeps_pure
  | true =>
    cases parent with
    | none => exact keeps_rollback.bind fun st => keeps_pure
    | some p => exact keeps_namePath

/-- The set of the paths is released if the loop fails. -/
def Built (l : List ℕ) (res : ℕ) (a : Except Status (List Name)) (l' : List ℕ) : Prop :=
  (∃ paths, a = .ok paths ∧ l' = res :: l) ∨ ∃ st, a = .error st ∧ l' = l

/-- The paths are built from the held result and it is released. -/
lemma safe_buildPaths (hres : res ∉ l) (n : ℕ) :
    Safe (resources σ) (res :: l) (buildPaths d res n) (Built l res) := by
  have hmem : res ∈ res :: l := List.mem_cons_self
  have hfail : ∀ st, Safe (resources σ) (res :: l)
      (mysqlFreeResult res >>= fun _ => rollback d st >>= fun st => pure (.error st)) (Built l res) := by
    intro st
    apply safe_mysqlFreeResult hres
    exact keeps_rollback.bind fun st => Safe.pure (.inr ⟨st, rfl, rfl⟩)
  induction n with
  | zero => exact Safe.pure (.inl ⟨[], rfl, rfl⟩)
  | succ n ih =>
    apply safe_mysqlFetchRow hmem
    · exact hfail _
    rintro row rfl
    apply (keeps_readNum hmem).bind
    intro id
    apply (keeps_readNum hmem).bind
    intro ts
    apply keeps_buildOnePath.bind
    intro path
    cases path with
    | error st => exact hfail _
    | ok path =>
      apply (keeps_readText hmem).bind
      intro name
      dsimp only
      generalize (if path.getLast? = some 47 then path ++ name else path ++ 47 :: name) = path'
      split_ifs
      · exact hfail _
      apply Safe.bind
      apply ih.mono
      rintro a l' (⟨paths, rfl, rfl⟩ | ⟨st, rfl, rfl⟩)
      · exact Safe.pure (.inl ⟨_, rfl, rfl⟩)
      · exact Safe.pure (.inr ⟨_, rfl, rfl⟩)

/-- The row of a handle. -/
lemma keeps_handleInfo : Keeps l (handleInfo d h) := by
  apply keeps_getInodeCache.bind
  intro cached
  cases cached with
  | some info => exact keeps_pure
  | none =>
    apply safe_dbExecSqlRes
    · exact fun st => keeps_rollback.bind fun st => keeps_pure
    intro res hres
    have hmem : res ∈ res :: l := List.mem_cons_self
    apply (keeps_mysqlNumRows hmem).bind
    intro n
    split_ifs
    · exact safe_mysqlFreeResult hres (keeps_rollback.bind fun st => keeps_pure)
    apply safe_mysqlFetchRow hmem
    · exact safe_mysqlFreeResult hres (keeps_rollback.bind fun st => keeps_pure)
    rintro row rfl
    apply (keeps_fillFileinfoFrom hmem).bind
    intro info
    exact safe_mysqlFreeResult hres keeps_pure

/-- All paths of a handle. -/
lemma keeps_handlePaths {size : ℕ} : Keeps l (handlePaths d h size) := by
  apply safe_dbExecSqlRes
  · exact fun st => keeps_rollback.bind fun st => keeps_pure
  intro res hres
  apply (keeps_mysqlNumRows List.mem_cons_self).bind
  intro count
  split_ifs
  · exact safe_mysqlFreeResult hres (keeps_rollback.bind fun st => keeps_pure)
  apply Safe.bind
  apply (safe_buildPaths hres _).mono
  rintro a l' (⟨paths, rfl, rfl⟩ | ⟨st, rfl, rfl⟩)
  · exact safe_mysqlFreeResult hres keeps_pure
  · exact keeps_pure

/-- The lookup by handle. -/
lemma keeps_fsalPosixdbGetInfoFromHandle {size : Option ℕ} : Keeps l (fsalPosixdbGetInfoFromHandle d h size) := by
  apply keeps_dbExecSql.bind
  intro st
  apply keeps_handleInfo.bind
  intro found
  cases found with
  | error st => exact keeps_pure
  | ok info =>
    cases size with
    | none => exact keeps_dbExecSql.bind fun st => keeps_pure
    | some size =>
      apply keeps_handlePaths.bind
      intro paths
      cases paths with
      | error st => exact keeps_pure
      | ok paths => exact keeps_dbExecSql.bind fun st => keeps_pure

/-! ## fsal_posixdb_replace -/

/-- The entry in the way of a rename. -/
lemma keeps_removeTarget : Keeps l (removeTarget d noDeleteCascade p name) := by
  apply safe_dbExecSqlRes
  · exact fun st => keeps_rollback.bind fun st => keeps_pure
  intro res hres
  have hmem : res ∈ res :: l := List.mem_cons_self
  apply (keeps_mysqlNumRows hmem).bind
  intro n
  split_ifs
  · apply safe_mysqlFetchRow hmem
    · exact safe_mysqlFreeResult hres (keeps_rollback.bind fun st => keeps_pure)
    rintro row rfl
    apply (keeps_readNum hmem).bind
    intro id
    apply (keeps_readNum hmem).bind
    intro ts
    apply (keeps_readNum hmem).bind
    intro nlink
    apply keeps_fsalPosixdbDeleteParent.bind
    intro st
    exact safe_mysqlFreeResult hres (keeps_ite keeps_pure keeps_pure)
  · exact safe_mysqlFreeResult hres keeps_pure

/-- The entry under its new name. -/
lemma keeps_updateEntry : Keeps l (updateEntry d noDeleteCascade old filenameOld new filenameNew fuel) := by
  have hback : ∀ st, Keeps l (rollback d st >>= fun st => pure (some st)) := fun st =>
    keeps_rollback.bind fun st => keeps_pure
  induction fuel with
  | zero => exact keeps_pure
  | succ fuel ih =>
    apply keeps_dbExecSql.bind
    intro st
    apply keeps_ite
    · apply keeps_mysqlAffectedRows.bind
      intro n
      exact keeps_ite (keeps_dbExecSql.bind fun st => keeps_pure) (hback _)
    apply keeps_ite (hback _)
    apply keeps_ite _ (hback _)
    apply keeps_removeTarget.bind
    intro result
    cases result with
    | none => exact ih
    | some result =>
      cases result with
      | inl st => exact keeps_pure
      | inr st => exact hback _

/-- The entry that a rename starts from. -/
lemma returns_checkOldEntry : Returns l (checkOldEntry d noDeleteCascade fuel info old filenameOld) := by
  have hback : ∀ st, Returns l (rollback d st >>= fun st => pure (some (some st))) := fun st =>
    keeps_rollback.bind fun st => keeps_pure.returns
  apply keeps_getInodeCache.bind
  intro cached
  split_ifs
  · exact keeps_pure.returns
  apply safe_dbExecSqlRes
  · exact fun st => hback st
  intro res hres
  have hmem : res ∈ res :: l := List.mem_cons_self
  apply (keeps_mysqlNumRows hmem).bind
  intro n
  split_ifs
  · exact safe_mysqlFreeResult hres (hback _)
  apply safe_mysqlFetchRow hmem
  · exact safe_mysqlFreeResult hres (hback _)
  rintro row rfl
  apply (keeps_fillFileinfoFrom hmem).bind
  intro found
  split_ifs
  · apply (keeps_readNum hmem).bind
    intro id
    apply (keeps_readNum hmem).bind
    intro ts
    apply Safe.bind
    apply ((returns_delete noDeleteCascade fuel).1 (row.res :: l) _ _ _).mono
    intro a l' ha
    cases a with
    | none => exact Safe.pure fun hsome => by cases hsome
    | some st =>
      obtain rfl := ha rfl
      exact safe_mysqlFreeResult hres (keeps_dbExecSql.bind fun st => keeps_pure.returns)
  · exact safe_mysqlFreeResult hres keeps_pure.returns

/-- The whole rename. -/
lemma returns_fsalPosixdbReplace :
    Returns l (fsalPosixdbReplace d noDeleteCascade fuel info old filenameOld new filenameNew) := by
  apply keeps_dbExecSql.bind
  intro st
  apply Safe.bind
  apply returns_checkOldEntry.mono
  intro a l' ha
  cases a with
  | none => exact Safe.pure fun hsome => by cases hsome
  | some a =>
    obtain rfl := ha rfl
    cases a with
    | some st => exact keeps_pure.returns
    | none =>
      apply keeps_removeTarget.bind
      intro result
      cases result with
      | none => exact keeps_updateEntry.returns
      | some result =>
        cases result with
        | inl st => exact keeps_pure.returns
        | inr st => exact keeps_rollback.bind fun st => keeps_pure.returns

/-! ## fsal_posixdb_add -/

/-- The row of the parent. -/
lemma keeps_checkParent : Keeps l (checkParent d parent) := by
  cases parent with
  | none => exact keeps_pure
  | some p =>
    apply safe_dbExecSqlRes
    · exact fun st => keeps_rollback.bind fun st => keeps_pure
    intro res hres
    apply (keeps_mysqlNumRows List.mem_cons_self).bind
    intro n
    split_ifs
    · exact safe_mysqlFreeResult hres (keeps_rollback.bind fun st => keeps_pure)
    · exact safe_mysqlFreeResult hres keeps_pure

/-- An object that is there already is updated. -/
lemma safe_updateFound (hres : res ∉ l) :
    Safe (resources σ) (res :: l) (updateFound d info res) fun _ l' => l' = l := by
  have hmem : res ∈ res :: l := List.mem_cons_self
  apply safe_mysqlFetchRow hmem
  · exact safe_mysqlFreeResult hres (keeps_rollback.bind fun st => keeps_pure)
  rintro row rfl
  apply (keeps_fillFileinfo hmem).bind
  intro found
  apply (keeps_readNum hmem).bind
  intro id
  apply (keeps_readNum hmem).bind
  intro ts
  apply safe_mysqlFreeResult hres
  apply keeps_ite
  · exact keeps_rollback.bind fun st => keeps_pure
  apply keeps_ite
  · exact keeps_dbExecSql.bind fun st => keeps_ite (keeps_rollback.bind fun st => keeps_pure) keeps_pure
  · exact keeps_pure

/-- A new object. -/
lemma keeps_insertNew : Keeps l (insertNew d info) := by
  apply keeps_time.bind
  intro ts
  apply keeps_dbExecSql.bind
  intro st
  apply keeps_ite
  · exact keeps_rollback.bind fun st => keeps_pure
  · exact keeps_mysqlInsertId.bind fun id => keeps_pure

/-- An object is added or updated. -/
lemma keeps_addObject : Keeps l (addObject d info parent) := by
  apply keeps_checkParent.bind
  intro checked
  cases checked with
  | some st => exact keeps_pure
  | none =>
    apply safe_dbExecSqlRes
    · exact fun st => keeps_rollback.bind fun st => keeps_pure
    intro res hres
    apply (keeps_mysqlNumRows List.mem_cons_self).bind
    intro n
    split_ifs
    · exact safe_updateFound hres
    · exact safe_mysqlFreeResult hres keeps_insertNew

lemma keeps_addParentEntry : Keeps l (addParentEntry d p name h) :=
  keeps_dbExecSql.bind fun _ => keeps_ite keeps_rollback keeps_dbExecSql

/-- The parent entry is written anew. -/
lemma keeps_replaceParentEntry : Keeps l (replaceParentEntry d noDeleteCascade p name h id ts) := by
  apply safe_dbExecSqlRes
  · exact fun st => keeps_rollback
  intro res hres
  have hmem : res ∈ res :: l := List.mem_cons_self
  apply (keeps_mysqlNumRows hmem).bind
  intro n
  split_ifs
  · apply safe_mysqlFetchRow hmem
    · exact safe_mysqlFreeResult hres keeps_rollback
    rintro row rfl
    apply (keeps_readNum hmem).bind
    intro nlink
    apply safe_mysqlFreeResult hres
    exact keeps_fsalPosixdbDeleteParent.bind fun st => keeps_ite keeps_rollback keeps_addParentEntry
  · exact safe_mysqlFreeResult hres keeps_addParentEntry

/-- The database answers that the entry is there, with the handle of the object. -/
def Rebound (d : Database σ) (s : σ) (p : Handle) (name : Name) (h : Handle) : Prop :=
  ∃ set row rest, (d.answer s (.selectParent p.id p.ts name)).1 = .ok set ∧ set.numRows = 1 ∧
    set.rows = row :: rest ∧ UInt64.ofInt (row.num 0) = h.id ∧ UInt32.ofInt (row.num 1) = h.ts

/-! ## Runs of one query -/

section Single

variable {w : World σ} {db : σ} {m : ℕ} {set : ResultSet} {r : Row}

lemma bind_some {β : Type} {m : M σ α} {f : α → M σ β} {a : α} {w' : World σ} (h : m w = some (a, w')) :
    (m >>= f) w = f a w' := by
  show (m w).bind (fun q => f q.1 q.2) = f a w'
  rw [h]
  rfl

lemma lookup_single : List.lookup res [(res, set)] = some set := by
  rw [List.lookup_cons, beq_self_eq_true]

lemma dbExecSqlRes_error {err : SqlError} (hanswer : d.answer w.db q = (.error err, db)) :
    dbExecSqlRes d q w = some (.error (mysqlErrorConvert err), { w with db := db }) := by
  simp only [dbExecSqlRes, hanswer]

lemma dbExecSqlRes_ok (hheld : w.held = []) (hanswer : d.answer w.db q = (.ok set, db)) :
    dbExecSqlRes d q w = some (.ok w.nextRes, ⟨db, w.nextRes + 1, [(w.nextRes, set)]⟩) := by
  simp only [dbExecSqlRes, hanswer, hheld]

lemma mysqlNumRows_single :
    (mysqlNumRows res : M σ ℕ) ⟨db, m, [(res, set)]⟩ = some (set.numRows, ⟨db, m, [(res, set)]⟩) := by
  simp only [mysqlNumRows, lookup_single, Option.map_some]

lemma mysqlFreeResult_single : (mysqlFreeResult res : M σ Unit) ⟨db, m, [(res, set)]⟩ = some ((), ⟨db, m, []⟩) := by
  simp only [mysqlFreeResult, lookup_single, Option.map_some]
  simp

lemma mysqlFetchRow_single : (mysqlFetchRow res : M σ (Option MysqlRow)) ⟨db, m, [(res, set)]⟩ =
    some (set.rows.head?.map (⟨res, ·⟩), ⟨db, m, [(res, ⟨set.numRows, set.rows.tail⟩)]⟩) := by
  simp only [mysqlFetchRow, lookup_single, Option.map_some, fetched, List.map_cons, List.map_nil, if_pos]

lemma readNum_single : (readNum ⟨res, r⟩ i : M σ ℤ) ⟨db, m, [(res, set)]⟩ =
    some (r.num i, ⟨db, m, [(res, set)]⟩) := by
  simp only [readNum, lookup_single, Option.map_some]

lemma fillFileinfo_single {devid inode : UInt64} :
    (fillFileinfo ⟨res, r⟩ i devid inode : M σ FileInfo) ⟨db, m, [(res, set)]⟩ =
      some (⟨devid, inode, r.num i, r.num (i + 1), r.num (i + 2)⟩, ⟨db, m, [(res, set)]⟩) := by
  rw [fillFileinfo, bind_some readNum_single, bind_some readNum_single, bind_some readNum_single]
  rfl

end Single

/-- The world after the entry has been looked up. -/
def afterLookup (d : Database σ) (w : World σ) (p : Handle) (name : Name) : World σ :=
  ⟨(d.answer w.db (.selectParent p.id p.ts name)).2, w.nextRes + 1, []⟩

section Lookup

variable {w : World σ} {set : ResultSet}

lemma updateParentEntry_many (hheld : w.held = [])
    (hanswer : (d.answer w.db (.selectParent p.id p.ts name)).1 = .ok set) (hone : set.numRows ≠ 1) :
    updateParentEntry d noDeleteCascade p name h w = addParentEntry d p name h (afterLookup d w p name) := by
  rw [updateParentEntry, bind_some (dbExecSqlRes_ok hheld (Prod.ext hanswer rfl))]
  dsimp only
  rw [bind_some mysqlNumRows_single, if_neg hone, bind_some mysqlFreeResult_single, afterLookup]

lemma updateParentEntry_noRow (hheld : w.held = [])
    (hanswer : (d.answer w.db (.selectParent p.id p.ts name)).1 = .ok set) (hone : set.numRows = 1)
    (hrows : set.rows = []) :
    updateParentEntry d noDeleteCascade p name h w = rollback d (code .noent) (afterLookup d w p name) := by
  rw [updateParentEntry, bind_some (dbExecSqlRes_ok hheld (Prod.ext hanswer rfl))]
  dsimp only
  rw [bind_some mysqlNumRows_single, if_pos hone, bind_some mysqlFetchRow_single, hrows]
  dsimp only [List.head?_nil, Option.map_none]
  rw [bind_some mysqlFreeResult_single, afterLookup]

/-- The entry is there: that of another handle is replaced, and with the same one the set is released again. -/
lemma updateParentEntry_row {r : Row} {rest : List Row} (hheld : w.held = [])
    (hanswer : (d.answer w.db (.selectParent p.id p.ts name)).1 = .ok set) (hone : set.numRows = 1)
    (hrows : set.rows = r :: rest) :
    updateParentEntry d noDeleteCascade p name h w =
      if UInt64.ofInt (r.num 0) ≠ h.id ∨ UInt32.ofInt (r.num 1) ≠ h.ts then
        replaceParentEntry d noDeleteCascade p name h (UInt64.ofInt (r.num 0)) (UInt32.ofInt (r.num 1))
          (afterLookup d w p name)
      else none := by
  rw [updateParentEntry, bind_some (dbExecSqlRes_ok hheld (Prod.ext hanswer rfl))]
  dsimp only
  rw [bind_some mysqlNumRows_single, if_pos hone, bind_some mysqlFetchRow_single, hrows]
  dsimp only [List.head?_cons, Option.map_some, List.tail_cons]
  rw [bind_some readNum_single, bind_some readNum_single, bind_some mysqlFreeResult_single, afterLookup]
  split_ifs
  · rfl
  · rfl

end Lookup

/-- What `Keeps` says from a start with nothing held. -/
lemma Keeps.held {m : M σ α} {w : World σ} (h : Keeps [] m) (hheld : w.held = []) :
    ∃ a w', m w = some (a, w') ∧ w'.held = [] := by
  have hinv : (resources σ).inv w := by
    intro res hres
    rw [hheld] at hres
    cases hres
  have hlive : (resources σ).live w = [] := by
    show w.held.map Prod.fst = []
    rw [hheld]
    rfl
  obtain ⟨a, w', hm, -, hl⟩ := h w hinv hlive
  exact ⟨a, w', hm, List.map_eq_nil_iff.mp hl⟩

/-- The second release happens exactly where the entry is bound again. -/
lemma updateParentEntry_iff {w : World σ} (hheld : w.held = []) :
    (∃ st w', updateParentEntry d noDeleteCascade p name h w = some (st, w') ∧ w'.held = []) ↔
      ¬Rebound d w.db p name h := by
  -- after the lookup nothing is held
  have hafter : (afterLookup d w p name).held = [] := rfl
  cases hanswer : (d.answer w.db (.selectParent p.id p.ts name)).1 with
  | error err =>
    -- the query failed, so nothing was bound again
    have hnot : ¬Rebound d w.db p name h := by
      rintro ⟨set, row, rest, hset, -⟩
      rw [hanswer] at hset
      cases hset
    refine iff_of_true ?_ hnot
    have hrun : updateParentEntry d noDeleteCascade p name h w =
        rollback d (mysqlErrorConvert err) { w with db := (d.answer w.db (.selectParent p.id p.ts name)).2 } := by
      rw [updateParentEntry, bind_some (dbExecSqlRes_error (Prod.ext hanswer rfl))]
    rw [hrun]
    exact keeps_rollback.held hheld
  | ok set =>
    by_cases hone : set.numRows = 1
    swap
    · have hnot : ¬Rebound d w.db p name h := by
        rintro ⟨set', row, rest, hset, hone', -⟩
        rw [hanswer] at hset
        cases hset
        exact hone hone'
      refine iff_of_true ?_ hnot
      rw [updateParentEntry_many hheld hanswer hone]
      exact keeps_addParentEntry.held hafter
    cases hrows : set.rows with
    | nil =>
      have hnot : ¬Rebound d w.db p name h := by
        rintro ⟨set', row, rest, hset, -, hrows', -⟩
        rw [hanswer] at hset
        cases hset
        rw [hrows] at hrows'
        cases hrows'
      refine iff_of_true ?_ hnot
      rw [updateParentEntry_noRow hheld hanswer hone hrows]
      exact keeps_rollback.held hafter
    | cons r rest =>
      rw [updateParentEntry_row hheld hanswer hone hrows]
      by_cases hother : UInt64.ofInt (r.num 0) ≠ h.id ∨ UInt32.ofInt (r.num 1) ≠ h.ts
      · have hnot : ¬Rebound d w.db p name h := by
          rintro ⟨set', row, rest', hset, -, hrows', hid, hts⟩
          rw [hanswer] at hset
          cases hset
          rw [hrows] at hrows'
          cases hrows'
          exact hother.elim (fun hne => hne hid) fun hne => hne hts
        rw [if_pos hother]
        exact iff_of_true (keeps_replaceParentEntry.held hafter) hnot
      · -- the set of the entry is released a second time
        rw [if_neg hother]
        obtain ⟨hid, hts⟩ := not_or.mp hother
        have hrebound : Rebound d w.db p name h :=
          ⟨set, r, rest, hanswer, hone, hrows, not_ne_iff.mp hid, not_ne_iff.mp hts⟩
        refine iff_of_false ?_ (not_not_intro hrebound)
        rintro ⟨st, w', hrun, -⟩
        cases hrun

/-! ## Which object `fsal_posixdb_add` gets from the database -/

/-- The rows that a query is answered with, and the database then. -/
def rowsOf (d : Database σ) (s : σ) (q : Query) : Option (ResultSet × σ) :=
  match d.answer s q with
  | (.ok set, s) => some (set, s)
  | (.error _, _) => none

/-- The database once it has answered that the parent is there; the root has none. -/
def parentAnswer (d : Database σ) (s : σ) : Option Handle → Option σ
  | none => some s
  | some p => (rowsOf d s (.selectHandle p.id p.ts false)).bind fun r =>
    if r.1.numRows < 1 then none else some r.2

/-- The handle in a row that is found for the object, and the database once it has the link count and the time of
the object. -/
def foundAnswer (d : Database σ) (info : FileInfo) (s : σ) (row : Row) : Option (Handle × σ) :=
  let found : FileInfo := ⟨info.devid, info.inode, row.num 2, row.num 3, row.num 4⟩
  let h : Handle := ⟨UInt64.ofInt (row.num 0), UInt32.ofInt (row.num 1), found⟩
  if consistencyCheck found info then none
  else if info.nlink ≠ found.nlink ∨ info.ctime ≠ found.ctime then
    (rowsOf d s (.updateHandle (UInt32.ofInt info.ctime) (UInt32.ofInt info.nlink) h.id h.ts)).map fun r =>
      ({ h with info := info }, r.2)
  else some (h, s)

/-- The handle that a new object gets. -/
def newAnswer (d : Database σ) (info : FileInfo) (s : σ) : Option (Handle × σ) :=
  (rowsOf d (d.time s).2 (.insertHandle (UInt32.ofNat info.devid.toNat) info.inode (d.time s).1
    (UInt32.ofInt info.nlink) (UInt32.ofInt info.ctime) (UInt32.ofInt info.ftype))).map fun r =>
      (⟨d.insertId r.2, (d.time s).1, info⟩, r.2)

/-- The handle of the object according to the database, and the database then. -/
def objectAnswer (d : Database σ) (s : σ) (info : FileInfo) (parent : Option Handle) : Option (Handle × σ) :=
  (parentAnswer d s parent).bind fun s =>
    (rowsOf d s (.selectHandleByInode info.devid info.inode)).bind fun r =>
      if r.1.numRows = 1 then r.1.rows.head?.bind (foundAnswer d info r.2) else newAnswer d info r.2

/-- The database answers `fsal_posixdb_add` that the entry is there already, with the handle of the object. -/
def Registered (d : Database σ) (s : σ) (info : FileInfo) (parent : Option (Handle × Name)) : Prop :=
  ∃ h s', objectAnswer d s info (parent.map Prod.fst) = some (h, s') ∧
    Rebound d s' ((parent.map Prod.fst).getD h) ((parent.map Prod.snd).getD []) h

/-- The computation returns the handle that is told, with the database that is told, or an error. -/
def Tells (m : M σ Object) (w : World σ) (r : Option (Handle × σ)) : Prop :=
  ∃ o w', m w = some (o, w') ∧ o.toOption.map (fun h => (h, w'.db)) = r

section Tells

variable {w w' : World σ} {m m' : M σ Object} {r : Option (Handle × σ)} {e : Option Handle} {set : ResultSet}
  {s : σ} {n : ℕ}

lemma Tells.of_eq (h : Tells m' w' r) (heq : m w = m' w') : Tells m w r := by
  obtain ⟨o, w'', hrun, ho⟩ := h
  exact ⟨o, w'', heq.trans hrun, ho⟩

lemma tells_pure : Tells (pure (.ok h) : M σ Object) w (some (h, w.db)) := ⟨.ok h, w, rfl, rfl⟩

lemma dbExecSql_error {err : SqlError} (hanswer : d.answer w.db q = (.error err, s)) :
    dbExecSql d q w = some (mysqlErrorConvert err, { w with db := s }) := by
  simp only [dbExecSql, hanswer]

lemma dbExecSql_ok (hanswer : d.answer w.db q = (.ok set, s)) :
    dbExecSql d q w = some (code .noerr, { w with db := s }) := by
  simp only [dbExecSql, hanswer]

lemma exists_rollback (d : Database σ) (w : World σ) (st : Status) : ∃ w', rollback d st w = some (st, w') := by
  rcases hanswer : d.answer w.db .rollback with ⟨_ | _, s⟩
  · exact ⟨_, by rw [rollback, bind_some (dbExecSql_error hanswer)]; rfl⟩
  · exact ⟨_, by rw [rollback, bind_some (dbExecSql_ok hanswer)]; rfl⟩

lemma tells_rollback (d : Database σ) (w : World σ) (st : Status) (e : Option Handle) :
    Tells (rollback d st >>= fun st => pure (.error (st, e))) w none := by
  obtain ⟨w', hrun⟩ := exists_rollback d w st
  exact ⟨.error (st, e), w', by rw [bind_some hrun]; rfl, rfl⟩

/-- A change that the database refuses ends the call, and otherwise the call goes on. -/
lemma tells_dbExecSql {k : M σ Object} {f : σ → Option (Handle × σ)} (hk : ∀ s, Tells k { w with db := s } (f s)) :
    Tells (dbExecSql d q >>= fun st =>
      if st.IsError then rollback d st >>= fun st => pure (.error (st, e)) else k) w
      ((rowsOf d w.db q).bind fun r => f r.2) := by
  rcases hanswer : d.answer w.db q with ⟨err | set, s⟩
  · have herror : (mysqlErrorConvert err).IsError := by
      cases err <;> exact fun heq => by cases heq
    rw [rowsOf, hanswer]
    refine (tells_rollback d { w with db := s } (mysqlErrorConvert err) e).of_eq ?_
    rw [bind_some (dbExecSql_error hanswer), if_pos herror]
  · have hok : ¬(code .noerr).IsError := not_not_intro rfl
    rw [rowsOf, hanswer]
    refine (hk s).of_eq ?_
    rw [bind_some (dbExecSql_ok hanswer), if_neg hok]

/-- What is answered for a new object. -/
lemma tells_insertNew : Tells (insertNew d info) w (newAnswer d info w.db) := by
  rw [newAnswer, Option.map_eq_bind]
  have hrest := @tells_dbExecSql σ d
    (.insertHandle (UInt32.ofNat info.devid.toNat) info.inode (d.time w.db).1 (UInt32.ofInt info.nlink)
      (UInt32.ofInt info.ctime) (UInt32.ofInt info.ftype))
    { w with db := (d.time w.db).2 } none
    (mysqlInsertId d >>= fun id => pure (.ok ⟨id, (d.time w.db).1, info⟩))
    (fun s => some (⟨d.insertId s, (d.time w.db).1, info⟩, s)) fun s => tells_pure.of_eq rfl
  exact hrest.of_eq rfl

/-- What is answered for an object that is there. -/
lemma tells_updateFound :
    Tells (updateFound d info res) ⟨s, n, [(res, set)]⟩ (set.rows.head?.bind (foundAnswer d info s)) := by
  unfold Tells
  rw [updateFound, bind_some mysqlFetchRow_single]
  rcases hrows : set.rows with _ | ⟨row, rest⟩
  · dsimp only [List.head?_nil, Option.map_none]
    rw [bind_some mysqlFreeResult_single]
    exact tells_rollback d ⟨s, n, []⟩ (code .noent) none
  · dsimp only [List.head?_cons, Option.map_some, Option.bind_some]
    rw [bind_some fillFileinfo_single, bind_some readNum_single, bind_some readNum_single,
      bind_some mysqlFreeResult_single, foundAnswer]
    dsimp only
    split_ifs with hconsistent hsame
    · exact tells_rollback d ⟨s, n, []⟩ _ _
    · rw [Option.map_eq_bind]
      exact tells_dbExecSql (w := ⟨s, n, []⟩) fun s => tells_pure
    · exact tells_pure (w := ⟨s, n, []⟩)

/-- What is answered by the row of the handle. -/
lemma tells_addHandle (hheld : w.held = []) : Tells (addHandle d info) w
    ((rowsOf d w.db (.selectHandleByInode info.devid info.inode)).bind fun r =>
      if r.1.numRows = 1 then r.1.rows.head?.bind (foundAnswer d info r.2) else newAnswer d info r.2) := by
  unfold Tells
  rcases hanswer : d.answer w.db (.selectHandleByInode info.devid info.inode) with ⟨err | set, s⟩
  · rw [rowsOf, hanswer, addHandle, bind_some (dbExecSqlRes_error hanswer)]
    exact tells_rollback d { w with db := s } (mysqlErrorConvert err) none
  · rw [rowsOf, hanswer, addHandle, bind_some (dbExecSqlRes_ok hheld hanswer)]
    dsimp only [Option.bind_some]
    rw [bind_some mysqlNumRows_single]
    split_ifs with hone
    · exact tells_updateFound
    · rw [bind_some mysqlFreeResult_single]
      exact tells_insertNew (w := ⟨s, w.nextRes + 1, []⟩)

/-- The parent ends the call, or is there. -/
lemma checkParent_run {parent : Option Handle} (hheld : w.held = []) :
    (∀ s, parentAnswer d w.db parent = some s → ∃ n, checkParent d parent w = some (none, ⟨s, n, []⟩)) ∧
      (parentAnswer d w.db parent = none → ∃ st w', checkParent d parent w = some (some st, w')) := by
  cases parent with
  | none =>
    refine ⟨fun s hs => ⟨w.nextRes, ?_⟩, fun hnone => by cases hnone⟩
    cases Option.some.inj hs
    show some ((none : Option Status), w) = _
    rw [← hheld]
  | some p =>
    rcases hanswer : d.answer w.db (.selectHandle p.id p.ts false) with ⟨err | set, s⟩
    · rw [parentAnswer, rowsOf, hanswer]
      refine ⟨fun s hs => (by cases hs), fun _ => ?_⟩
      obtain ⟨w', hrun⟩ := exists_rollback d { w with db := s } (mysqlErrorConvert err)
      rw [checkParent, bind_some (dbExecSqlRes_error hanswer)]
      dsimp only
      exact ⟨_, w', by rw [bind_some hrun]; rfl⟩
    · rw [parentAnswer, rowsOf, hanswer, checkParent, bind_some (dbExecSqlRes_ok hheld hanswer)]
      dsimp only [Option.bind_some]
      rw [bind_some mysqlNumRows_single]
      split_ifs with hfew
      · refine ⟨fun s hs => (by cases hs), fun _ => ?_⟩
        obtain ⟨w', hrun⟩ := exists_rollback d ⟨s, w.nextRes + 1, []⟩ (code .noent)
        exact ⟨_, w', by rw [bind_some mysqlFreeResult_single, bind_some hrun]; rfl⟩
      · refine ⟨fun s' hs => ⟨w.nextRes + 1, ?_⟩, fun hnone => by cases hnone⟩
        cases Option.some.inj hs
        rw [bind_some mysqlFreeResult_single]
        rfl

/-- What is answered for any object. -/
lemma tells_addObject {parent : Option Handle} (hheld : w.held = []) :
    Tells (addObject d info parent) w (objectAnswer d w.db info parent) := by
  obtain ⟨hthere, hfails⟩ := @checkParent_run σ d w parent hheld
  unfold Tells
  rw [objectAnswer, addObject]
  cases hparent : parentAnswer d w.db parent with
  | none =>
    obtain ⟨st, w', hrun⟩ := hfails hparent
    rw [bind_some hrun]
    exact ⟨.error (st, none), w', rfl, rfl⟩
  | some s =>
    obtain ⟨n, hrun⟩ := hthere s hparent
    rw [bind_some hrun]
    exact tells_addHandle rfl

end Tells

/-- A computation that starts with no set of rows ends with none if it returns, and uses none that is not held. -/
def Released (s : σ) (m : M σ α) (returned : α → Prop) : Prop :=
  ∃ a w, m ⟨s, 0, []⟩ = some (a, w) ∧ (returned a → w.held = [])

lemma Returns.released {s : σ} {m : M σ (Option α)} (h : Returns [] m) :
    Released s m fun a => a.isSome = true := by
  obtain ⟨a, w, hm, -, hl⟩ := h ⟨s, 0, []⟩ (fun res hres => by cases hres) rfl
  exact ⟨a, w, hm, fun hsome => List.map_eq_nil_iff.mp (hl hsome)⟩

lemma Keeps.released {s : σ} {m : M σ α} (h : Keeps [] m) : Released s m fun _ => True := by
  obtain ⟨a, w, hm, hheld⟩ := h.held (w := ⟨s, 0, []⟩) rfl
  exact ⟨a, w, hm, fun _ => hheld⟩

/-- Results held are not changed by what is returned. -/
lemma exists_map_iff {β : Type} {m : M σ α} {g : α → β} {w : World σ} :
    (∃ b w', (m >>= fun a => pure (g a)) w = some (b, w') ∧ (True → w'.held = [])) ↔
      ∃ a w', m w = some (a, w') ∧ w'.held = [] := by
  constructor
  · rintro ⟨b, w', hrun, hheld⟩
    cases hm : m w with
    | none =>
      have hnone : (m >>= fun a => pure (g a)) w = none := by
        show (m w).bind (fun q => (pure (g q.1) : M σ β) q.2) = none
        rw [hm]
        rfl
      rw [hnone] at hrun
      cases hrun
    | some q =>
      rw [bind_some (show m w = some (q.1, q.2) from hm)] at hrun
      cases hrun
      exact ⟨q.1, q.2, rfl, hheld trivial⟩
  · rintro ⟨a, w', hm, hheld⟩
    exact ⟨g a, w', by rw [bind_some hm]; rfl, fun _ => hheld⟩

/-- The addition releases once exactly where the object is not registered. -/
lemma fsalPosixdbAdd_released_iff {s : σ} {parent : Option (Handle × Name)} :
    Released s (fsalPosixdbAdd d noDeleteCascade info parent) (fun _ => True) ↔ ¬Registered d s info parent := by
  obtain ⟨object, w, hobject, hheld⟩ : ∃ object w,
      addObject d info (parent.map Prod.fst) ⟨s, 0, []⟩ = some (object, w) ∧ w.held = [] :=
    Keeps.held keeps_addObject rfl
  -- the database has told the same handle
  obtain ⟨o, w', hrun, htold⟩ : Tells (addObject d info (parent.map Prod.fst)) ⟨s, 0, []⟩
      (objectAnswer d s info (parent.map Prod.fst)) := tells_addObject rfl
  rw [hobject] at hrun
  cases hrun
  unfold Released Registered
  rw [fsalPosixdbAdd, bind_some hobject, ← htold]
  cases object with
  | error result =>
    refine iff_of_true ⟨result, w, rfl, fun _ => hheld⟩ ?_
    rintro ⟨h, s', heq, -⟩
    cases heq
  | ok h =>
    have hparent : Rebound d w.db ((parent.map Prod.fst).getD h) ((parent.map Prod.snd).getD []) h ↔
        ∃ h' s', (Except.ok h : Object).toOption.map (fun h => (h, w.db)) = some (h', s') ∧
          Rebound d s' ((parent.map Prod.fst).getD h') ((parent.map Prod.snd).getD []) h' := by
      constructor
      · exact fun hr => ⟨h, w.db, rfl, hr⟩
      · rintro ⟨h', s', heq, hr⟩
        cases heq
        exact hr
    rw [← hparent, ← updateParentEntry_iff hheld]
    cases parent with
    | none => exact exists_map_iff
    | some parent => exact exists_map_iff

/-- The sets of rows are released once, and not used afterwards: by `fsal_posixdb_add` unless the database answers
that the entry is there already with the handle of the object, and by the other functions always. -/
theorem released_iff {σ : Type} (d : Database σ) (s : σ) (noDeleteCascade : Bool) :
    (∀ info parent, Released s (fsalPosixdbAdd d noDeleteCascade info parent) (fun _ => True) ↔
      ¬Registered d s info parent) ∧
    (∀ fuel info old filenameOld new filenameNew,
      Released s (fsalPosixdbReplace d noDeleteCascade fuel info old filenameOld new filenameNew)
        fun st => st.isSome = true) ∧
    (∀ parent name wantPath, Released s (fsalPosixdbGetInfoFromName d parent name wantPath) fun _ => True) ∧
    (∀ h size, Released s (fsalPosixdbGetInfoFromHandle d h size) fun _ => True) ∧
    (∀ fuel idparent tsparent filename info,
      Released s (fsalPosixdbInternalDelete d noDeleteCascade fuel idparent tsparent filename info)
        fun st => st.isSome = true) ∧
    ∀ fuel id ts ftype,
      Released s (fsalPosixdbRecursiveDelete d noDeleteCascade fuel id ts ftype) fun st => st.isSome = true := by
  refine ⟨?_, ?_, ?_, ?_, ?_, ?_⟩
  · exact fun info parent => fsalPosixdbAdd_released_iff
  · exact fun fuel info old filenameOld new filenameNew => returns_fsalPosixdbReplace.released
  · exact fun parent name wantPath => keeps_fsalPosixdbGetInfoFromName.released
  · exact fun h size => keeps_fsalPosixdbGetInfoFromHandle.released
  · exact fun fuel idparent tsparent filename info => returns_fsalPosixdbInternalDelete.released
  · exact fun fuel id ts ftype => ((returns_delete noDeleteCascade fuel).1 [] id ts ftype).released

/-- A database that answers each query with the row of one handle. -/
def oneRow : Database Unit where
  answer _ _ := (.ok ⟨1, [⟨fun _ => 1, fun _ => []⟩]⟩, ())
  insertId _ := 1
  affectedRows _ := 1
  getInodeCache _ _ := (none, ())
  buildOnePath _ _ := (.ok [], ())
  time _ := (1, ())

/-- An entry that is there already: the set of rows is released twice. -/
theorem not_released_of_registered : ¬∀ (noDeleteCascade : Bool) (info : FileInfo) (parent : Option (Handle × Name)),
    Released () (fsalPosixdbAdd oneRow noDeleteCascade info parent) fun _ => True := by
  intro hall
  obtain ⟨a, w, hrun, -⟩ := hall false ⟨1, 1, 1, 1, 1⟩ (some (⟨1, 1, ⟨1, 1, 1, 1, 1⟩⟩, [97]))
  have hnone : fsalPosixdbAdd oneRow false ⟨1, 1, 1, 1, 1⟩ (some (⟨1, 1, ⟨1, 1, 1, 1, 1⟩⟩, [97])) ⟨(), 0, []⟩ =
      none := rfl
  rw [hnone] at hrun
  cases hrun

end Ganesha.PosixDb
