import Mathlib.Data.Int.Basic
import Mathlib.Data.List.Basic

/-!
# The database of POSIX handles

The functions of `FSAL/FSAL_POSIX/DBExt/MYSQL` that change the tables `Handle` and `Parent`, or look something up in
them. They send queries to a database, which is a parameter, and get sets of rows, which they have to release. To use
a set that has been released is an error of the machine (`none`).

The connection and the other pointers that are checked at the beginning are given; the cache of inodes and paths is
part of the database.
-/

namespace Ganesha.PosixDb

/-- The bytes of a name. -/
abbrev Name := List UInt8

/-- The errors of MySQL that are told apart. -/
inductive SqlError
  | noSuchTable
  | dupEntry
  | badFieldError
  | parseError
  | noReferencedRow
  | dupUnique
  | other (errno : ℕ)
  deriving DecidableEq

/-- `ERR_FSAL_POSIXDB_…`. -/
inductive Major
  | noerr
  | noent
  | cmdfailed
  | fault
  | nopath
  | toomanypaths
  | pathtoolong
  | consistency
  deriving DecidableEq

/-- `fsal_posixdb_status_t`; the minor code is an error of MySQL or 0. -/
structure Status where
  major : Major
  minor : Option SqlError
  deriving DecidableEq

/-- `FSAL_POSIXDB_IS_ERROR`. -/
def Status.IsError (st : Status) : Prop := st.major ≠ .noerr

instance (st : Status) : Decidable st.IsError := inferInstanceAs (Decidable (st.major ≠ .noerr))

/-- `ReturnCodeDB`. -/
def code (major : Major) : Status := ⟨major, none⟩

/-- `mysql_error_convert` of an error. -/
def mysqlErrorConvert (err : SqlError) : Status :=
  match err with
  | .noSuchTable => ⟨.noent, some err⟩
  | .dupEntry => ⟨.consistency, some err⟩
  | _ => ⟨.cmdfailed, some err⟩

/-- `fsal_posixdb_fileinfo_t`. -/
structure FileInfo where
  devid : UInt64
  inode : UInt64
  nlink : ℤ
  ctime : ℤ
  ftype : ℤ
  deriving DecidableEq

/-- `posixfsal_handle_t`. -/
structure Handle where
  id : UInt64
  ts : UInt32
  info : FileInfo
  deriving DecidableEq

def fsalTypeDir : ℤ := 4

def fsalMaxPathLen : ℕ := 4096

/-- `fsal_posixdb_consistency_check`. -/
def consistencyCheck (info₁ info₂ : FileInfo) : Bool :=
  (info₁.inode ≠ 0 && info₂.inode ≠ 0 && info₁.inode ≠ info₂.inode) ||
    (info₁.devid ≠ 0 && info₂.devid ≠ 0 && info₁.devid ≠ info₂.devid) ||
    (info₁.ftype ≠ 0 && info₂.ftype ≠ 0 && info₁.ftype ≠ info₂.ftype)

/-! ## Queries -/

/-- The queries, with the numbers that are printed in them. Those on `Parent` begin with the handle of the parent
and the name. -/
inductive Query
  | begin
  | commit
  | rollback
  | selectHandle (id : UInt64) (ts : UInt32) (forUpdate : Bool)
  | selectHandleByInode (devid inode : UInt64)
  | selectParent (idparent : UInt64) (tsparent : UInt32) (name : Name)
  | selectEntry (idparent : UInt64) (tsparent : UInt32) (name : Name) (forUpdate : Bool)
  | selectRoot
  | selectChildren (id : UInt64) (ts : UInt32)
  | selectPaths (id : UInt64) (ts : UInt32)
  | insertHandle (devid : UInt32) (inode : UInt64) (ts nlink ctime ftype : UInt32)
  | updateHandle (ctime nlink : UInt32) (id : UInt64) (ts : UInt32)
  | updateNlink (nlink : UInt32) (id : UInt64) (ts : UInt32)
  | deleteHandle (id : UInt64) (ts : UInt32)
  | insertParent (idparent : UInt64) (tsparent : UInt32) (name : Name) (id : UInt64) (ts : UInt32)
  | updateParent (idparent : UInt64) (tsparent : UInt32) (name : Name) (idold : UInt64) (tsold : UInt32)
      (nameold : Name)
  | deleteParent (idparent : UInt64) (tsparent : UInt32) (name : Name)
  | deleteParentOf (id : UInt64) (ts : UInt32)
  deriving DecidableEq

/-- A row: its columns as numbers (`atoll`, `atoi`) and as texts. -/
structure Row where
  num : ℕ → ℤ
  text : ℕ → Name

/-- `MYSQL_RES`: the number of its rows, and those that `mysql_fetch_row` is going to return. -/
structure ResultSet where
  numRows : ℕ
  rows : List Row

/-- A database: how it answers a query, with the set of rows if there is one; and the path of a handle, or the cached
information about it. `fsal_posixdb_buildOnePath` releases the result of its prepared statement itself. -/
structure Database (σ : Type) where
  answer : σ → Query → Except SqlError ResultSet × σ
  insertId : σ → UInt64
  affectedRows : σ → ℕ
  getInodeCache : σ → Handle → Option FileInfo × σ
  buildOnePath : σ → Handle → Except Status Name × σ
  time : σ → UInt32 × σ

/-! ## The machine -/

/-- The database, and the sets of rows that are held, under their numbers. -/
structure World (σ : Type) where
  db : σ
  nextRes : ℕ
  held : List (ℕ × ResultSet)

/-- A computation; it fails if it uses a set of rows that is not held. -/
abbrev M (σ : Type) := StateT (World σ) Option

/-- `MYSQL_ROW`: a row, and the set that it is part of. -/
structure MysqlRow where
  res : ℕ
  row : Row

variable {σ : Type} (d : Database σ)

/-- `db_exec_sql` without a result. -/
def dbExecSql (q : Query) : M σ Status := fun w =>
  let (answer, db) := d.answer w.db q
  match answer with
  | .error err => some (mysqlErrorConvert err, { w with db := db })
  | .ok _ => some (code .noerr, { w with db := db })

/-- `db_exec_sql` with a result. -/
def dbExecSqlRes (q : Query) : M σ (Except Status ℕ) := fun w =>
  let (answer, db) := d.answer w.db q
  match answer with
  | .error err => some (.error (mysqlErrorConvert err), { w with db := db })
  | .ok set => some (.ok w.nextRes, { db := db, nextRes := w.nextRes + 1, held := (w.nextRes, set) :: w.held })

def mysqlNumRows (res : ℕ) : M σ ℕ := fun w => (w.held.lookup res).map fun set => (set.numRows, w)

/-- The rest of a set after a row has been fetched. -/
def fetched (res : ℕ) (held : List (ℕ × ResultSet)) : List (ℕ × ResultSet) :=
  held.map fun p => if p.1 = res then (p.1, ⟨p.2.numRows, p.2.rows.tail⟩) else p

def mysqlFetchRow (res : ℕ) : M σ (Option MysqlRow) := fun w =>
  (w.held.lookup res).map fun set => (set.rows.head?.map (⟨res, ·⟩), { w with held := fetched res w.held })

/-- Read a column as a number. -/
def readNum (row : MysqlRow) (i : ℕ) : M σ ℤ := fun w => (w.held.lookup row.res).map fun _ => (row.row.num i, w)

/-- Read a column as a text. -/
def readText (row : MysqlRow) (i : ℕ) : M σ Name := fun w => (w.held.lookup row.res).map fun _ => (row.row.text i, w)

def mysqlFreeResult (res : ℕ) : M σ Unit := fun w =>
  (w.held.lookup res).map fun _ => ((), { w with held := w.held.filter fun p => p.1 ≠ res })

def mysqlInsertId : M σ UInt64 := fun w => some (d.insertId w.db, w)

def mysqlAffectedRows : M σ ℕ := fun w => some (d.affectedRows w.db, w)

/-- `fsal_posixdb_GetInodeCache`. -/
def getInodeCache (h : Handle) : M σ (Option FileInfo) := fun w =>
  let (info, db) := d.getInodeCache w.db h
  some (info, { w with db := db })

/-- `fsal_posixdb_buildOnePath`. -/
def buildOnePath (h : Handle) : M σ (Except Status Name) := fun w =>
  let (path, db) := d.buildOnePath w.db h
  some (path, { w with db := db })

/-- `time(NULL)`. -/
def time : M σ UInt32 := fun w =>
  let (now, db) := d.time w.db
  some (now, { w with db := db })

/-- `RollbackTransaction`, and the status that is returned after it. -/
def rollback (st : Status) : M σ Status := do
  let _ ← dbExecSql d .rollback
  return st

/-- `posixdb_internal_fillFileinfoFromStrValues`, from the column of the link count or, with the device and the inode,
from that of the device on. -/
def fillFileinfo (row : MysqlRow) (i : ℕ) (devid inode : UInt64) : M σ FileInfo := do
  let nlink ← readNum row i
  let ctime ← readNum row (i + 1)
  let ftype ← readNum row (i + 2)
  return ⟨devid, inode, nlink, ctime, ftype⟩

def fillFileinfoFrom (row : MysqlRow) (i : ℕ) : M σ FileInfo := do
  let devid ← readNum row i
  let inode ← readNum row (i + 1)
  fillFileinfo row (i + 2) (UInt64.ofInt devid) (UInt64.ofInt inode)

/-! ## fsal_posixdb_deleteParent -/

/-- `fsal_posixdb_deleteParent`. `noDeleteCascade` is whether it is compiled with `_NO_DELETE_CASCADE`. -/
def fsalPosixdbDeleteParent (noDeleteCascade : Bool) (id : UInt64) (ts : UInt32) (idparent : UInt64)
    (tsparent : UInt32) (filename : Name) (nlink : ℤ) : M σ Status := do
  if nlink < 1 then return code .fault
  else
    let st ← dbExecSql d (.deleteParent idparent tsparent filename)
    if st.IsError then return st
    -- delete the handle or update it
    else if nlink = 1 then
      let st ← dbExecSql d (.deleteHandle id ts)
      if st.IsError then return st
      else if noDeleteCascade then
        let st ← dbExecSql d (.deleteParentOf id ts)
        if st.IsError then return st else return code .noerr
      else return code .noerr
    else
      let st ← dbExecSql d (.updateNlink (UInt32.ofInt (nlink - 1)) id ts)
      if st.IsError then return st else return code .noerr

/-! ## fsal_posixdb_add -/

/-- Check that the parent handle exists; a status ends the call. -/
def checkParent (parent : Option Handle) : M σ (Option Status) :=
  match parent with
  -- the root has no parent
  | none => return none
  | some p => do
    match ← dbExecSqlRes d (.selectHandle p.id p.ts false) with
    | .error st => return some (← rollback d st)
    | .ok res =>
      if (← mysqlNumRows res) < 1 then
        mysqlFreeResult res
        return some (← rollback d (code .noent))
      else
        mysqlFreeResult res
        return none

/-- The handle of the object, or the status that ends the call, with the handle if it has been filled. -/
abbrev Object := Except (Status × Option Handle) Handle

/-- Find the handle of the object and update it. -/
def updateFound (info : FileInfo) (res : ℕ) : M σ Object := do
  match ← mysqlFetchRow res with
  | none =>
    mysqlFreeResult res
    return .error (← rollback d (code .noent), none)
  | some row =>
    let found ← fillFileinfo row 2 info.devid info.inode
    let id ← readNum row 0
    let ts ← readNum row 1
    let objectHandle : Handle := ⟨UInt64.ofInt id, UInt32.ofInt ts, found⟩
    mysqlFreeResult res
    if consistencyCheck found info then return .error (← rollback d (code .consistency), some objectHandle)
    -- update nlink & ctime if needed
    else if info.nlink ≠ found.nlink ∨ info.ctime ≠ found.ctime then
      let st ← dbExecSql d
        (.updateHandle (UInt32.ofInt info.ctime) (UInt32.ofInt info.nlink) objectHandle.id objectHandle.ts)
      if st.IsError then return .error (← rollback d st, some { objectHandle with info := info })
      else return .ok { objectHandle with info := info }
    else return .ok objectHandle

/-- Add a new handle. -/
def insertNew (info : FileInfo) : M σ Object := do
  let ts ← time d
  let st ← dbExecSql d (.insertHandle (UInt32.ofNat info.devid.toNat) info.inode ts (UInt32.ofInt info.nlink)
    (UInt32.ofInt info.ctime) (UInt32.ofInt info.ftype))
  if st.IsError then return .error (← rollback d st, none)
  else
    let id ← mysqlInsertId d
    return .ok ⟨id, ts, info⟩

/-- Check if there is a handle for the object, and update it or add one. -/
def addHandle (info : FileInfo) : M σ Object := do
  match ← dbExecSqlRes d (.selectHandleByInode info.devid info.inode) with
  | .error st => return .error (← rollback d st, none)
  | .ok res =>
    if (← mysqlNumRows res) = 1 then updateFound d info res
    else
      mysqlFreeResult res
      insertNew d info

/-- Add an entry to the table `Parent`, and end the transaction. -/
def addParentEntry (p : Handle) (filename : Name) (objectHandle : Handle) : M σ Status := do
  let st ← dbExecSql d (.insertParent p.id p.ts filename objectHandle.id objectHandle.ts)
  if st.IsError then rollback d st else dbExecSql d .commit

/-- The entry is that of another handle: delete it. The link count that decides is that of the row of the parent. -/
def replaceParentEntry (noDeleteCascade : Bool) (p : Handle) (filename : Name) (objectHandle : Handle) (id : UInt64)
    (ts : UInt32) : M σ Status := do
  match ← dbExecSqlRes d (.selectHandle p.id p.ts true) with
  | .error st => rollback d st
  | .ok res =>
    if (← mysqlNumRows res) = 1 then
      match ← mysqlFetchRow res with
      | none =>
        mysqlFreeResult res
        rollback d (code .fault)
      | some row =>
        let nlink ← readNum row 2
        mysqlFreeResult res
        let st ← fsalPosixdbDeleteParent d noDeleteCascade id ts p.id p.ts filename nlink
        if st.IsError then rollback d st else addParentEntry d p filename objectHandle
    else
      mysqlFreeResult res
      addParentEntry d p filename objectHandle

/-- Add or update the entry of the table `Parent`. -/
def updateParentEntry (noDeleteCascade : Bool) (p : Handle) (filename : Name) (objectHandle : Handle) :
    M σ Status := do
  match ← dbExecSqlRes d (.selectParent p.id p.ts filename) with
  | .error st => rollback d st
  | .ok res =>
    if (← mysqlNumRows res) = 1 then
      match ← mysqlFetchRow res with
      | none =>
        mysqlFreeResult res
        rollback d (code .noent)
      | some row =>
        let id ← readNum row 0
        let ts ← readNum row 1
        mysqlFreeResult res
        if UInt64.ofInt id ≠ objectHandle.id ∨ UInt32.ofInt ts ≠ objectHandle.ts then
          replaceParentEntry d noDeleteCascade p filename objectHandle (UInt64.ofInt id) (UInt32.ofInt ts)
        else
          -- the set has been released above
          mysqlFreeResult res
          dbExecSql d .commit
    else
      mysqlFreeResult res
      addParentEntry d p filename objectHandle

/-- The first two parts of `fsal_posixdb_add`. -/
def addObject (info : FileInfo) (parent : Option Handle) : M σ Object := do
  match ← checkParent d parent with
  | some st => return .error (st, none)
  | none => addHandle d info

/-- `fsal_posixdb_add`, with the handle of the object. The parent and the name are given together, or for the root
neither. -/
def fsalPosixdbAdd (noDeleteCascade : Bool) (info : FileInfo) (parent : Option (Handle × Name)) :
    M σ (Status × Option Handle) := do
  match ← addObject d info (parent.map Prod.fst) with
  | .error result => return result
  | .ok objectHandle =>
    let st ← match parent with
      | some (p, filename) => updateParentEntry d noDeleteCascade p filename objectHandle
      | none => updateParentEntry d noDeleteCascade objectHandle [] objectHandle
    return (st, some objectHandle)

/-! ## fsal_posixdb_recursiveDelete -/

/-- Delete the handle, and with `_NO_DELETE_CASCADE` its entries. -/
def deleteHandle (noDeleteCascade : Bool) (id : UInt64) (ts : UInt32) : M σ (Option Status) := do
  let st ← dbExecSql d (.deleteHandle id ts)
  if st.IsError then return some st
  else if noDeleteCascade then
    let st ← dbExecSql d (.deleteParentOf id ts)
    if st.IsError then return some st else return some (code .noerr)
  else return some (code .noerr)

mutual

/-- `fsal_posixdb_recursiveDelete`. With no fuel left it has not returned. -/
def fsalPosixdbRecursiveDelete (noDeleteCascade : Bool) : ℕ → UInt64 → UInt32 → ℤ → M σ (Option Status)
  | 0, _, _, _ => return none
  | fuel + 1, id, ts, ftype => do
    if ftype = fsalTypeDir then
      -- find all the children of the directory in order to delete them
      match ← dbExecSqlRes d (.selectChildren id ts) with
      | .error st => return some st
      | .ok res =>
        match ← deleteChildren noDeleteCascade fuel id ts res with
        | none => return none
        | some st =>
          mysqlFreeResult res
          if st.IsError then return some st else deleteHandle d noDeleteCascade id ts
    else deleteHandle d noDeleteCascade id ts

/-- The loop over the children. -/
def deleteChildren (noDeleteCascade : Bool) : ℕ → UInt64 → UInt32 → ℕ → M σ (Option Status)
  | 0, _, _, _ => return none
  | fuel + 1, id, ts, res => do
    match ← mysqlFetchRow res with
    | none => return some (code .noerr)
    | some row =>
      let ftype ← readNum row 2
      let childId ← readNum row 0
      let childTs ← readNum row 1
      if ftype = fsalTypeDir then
        match ← fsalPosixdbRecursiveDelete noDeleteCascade fuel (UInt64.ofInt childId) (UInt32.ofInt childTs) ftype with
        | none => return none
        | some st =>
          if st.IsError then return some st else deleteChildren noDeleteCascade fuel id ts res
      else
        let name ← readText row 3
        let nlink ← readNum row 4
        let st ← fsalPosixdbDeleteParent d noDeleteCascade (UInt64.ofInt childId) (UInt32.ofInt childTs) id ts name
          nlink
        if st.IsError then return some st else deleteChildren noDeleteCascade fuel id ts res

end

/-! ## fsal_posixdb_internal_delete -/

def fsalPosixdbInternalDelete (noDeleteCascade : Bool) (fuel : ℕ) (idparent : UInt64) (tsparent : UInt32)
    (filename : Name) (objectInfo : Option FileInfo) : M σ (Option Status) := do
  match ← dbExecSqlRes d (.selectEntry idparent tsparent filename true) with
  | .error st => return some st
  | .ok res =>
    if (← mysqlNumRows res) < 1 then
      mysqlFreeResult res
      return some (code .noent)
    else
      match ← mysqlFetchRow res with
      | none =>
        mysqlFreeResult res
        return some (code .noent)
      | some row =>
        let id ← readNum row 0
        let ts ← readNum row 1
        let infodb ← fillFileinfoFrom row 2
        mysqlFreeResult res
        -- an entry that is not consistent is considered as a directory
        let inconsistent := objectInfo.any fun info => consistencyCheck infodb info
        let ftype := if inconsistent then fsalTypeDir else infodb.ftype
        if ftype = fsalTypeDir then
          fsalPosixdbRecursiveDelete d noDeleteCascade fuel (UInt64.ofInt id) (UInt32.ofInt ts) ftype
        else
          let st ← fsalPosixdbDeleteParent d noDeleteCascade (UInt64.ofInt id) (UInt32.ofInt ts) idparent tsparent
            filename infodb.nlink
          return some st

/-! ## fsal_posixdb_getInfoFromName -/

/-- The result of `fsal_posixdb_getInfoFromName`: its status, the handle and the path. -/
structure NameInfo where
  status : Status
  handle : Option Handle
  path : Option Name

/-- The path of the object: that of the parent and the name. -/
def namePath (parent : Handle) (objectname : Name) (handle : Handle) : M σ NameInfo := do
  match ← buildOnePath d parent with
  | .error st => return ⟨← rollback d st, some handle, none⟩
  | .ok path =>
    if path.length + 1 + objectname.length < fsalMaxPathLen then
      return ⟨← dbExecSql d .commit, some handle, some (path ++ 47 :: objectname)⟩
    else return ⟨← rollback d (code .pathtoolong), some handle, none⟩

/-- `fsal_posixdb_getInfoFromName`; the path is asked for with `wantPath`. -/
def fsalPosixdbGetInfoFromName (parent : Option Handle) (objectname : Name) (wantPath : Bool) : M σ NameInfo := do
  let _ ← dbExecSql d .begin
  let query : Query := match parent.filter fun p => p.id ≠ 0 with
    | some p => .selectEntry p.id p.ts objectname false
    | none => .selectRoot
  match ← dbExecSqlRes d query with
  | .error st => return ⟨← rollback d st, none, none⟩
  | .ok res =>
    if (← mysqlNumRows res) ≠ 1 then
      mysqlFreeResult res
      return ⟨← rollback d (code .noent), none, none⟩
    else
      match ← mysqlFetchRow res with
      | none =>
        mysqlFreeResult res
        return ⟨← rollback d (code .noent), none, none⟩
      | some row =>
        let id ← readNum row 0
        let ts ← readNum row 1
        let info ← fillFileinfoFrom row 2
        mysqlFreeResult res
        let handle : Handle := ⟨UInt64.ofInt id, UInt32.ofInt ts, info⟩
        match parent, wantPath with
        | some p, true => namePath d p objectname handle
        -- `fsal_posixdb_buildOnePath` refuses to build the path of no handle
        | none, true => return ⟨← rollback d (code .fault), some handle, none⟩
        | _, false => return ⟨← dbExecSql d .commit, some handle, none⟩

/-! ## fsal_posixdb_getInfoFromHandle -/

/-- The loop that builds `n` paths: the paths, or the status that ends the call. -/
def buildPaths (res : ℕ) : ℕ → M σ (Except Status (List Name))
  | 0 => return .ok []
  | n + 1 => do
    match ← mysqlFetchRow res with
    | none =>
      mysqlFreeResult res
      return .error (← rollback d (code .fault))
    | some row =>
      let id ← readNum row 1
      let ts ← readNum row 2
      match ← buildOnePath d ⟨UInt64.ofInt id, UInt32.ofInt ts, ⟨0, 0, 0, 0, 0⟩⟩ with
      | .error st =>
        mysqlFreeResult res
        return .error (← rollback d st)
      | .ok path =>
        let name ← readText row 0
        let path := if path.getLast? = some 47 then path ++ name else path ++ 47 :: name
        if path.length ≥ fsalMaxPathLen then
          mysqlFreeResult res
          return .error (← rollback d (code .pathtoolong))
        else
          match ← buildPaths res n with
          | .error st => return .error st
          | .ok paths => return .ok (path :: paths)

/-- The information about a handle: from the cache or from its row. -/
def handleInfo (h : Handle) : M σ (Except Status FileInfo) := do
  match ← getInodeCache d h with
  | some info => return .ok info
  | none =>
    match ← dbExecSqlRes d (.selectHandle h.id h.ts false) with
    | .error st => return .error (← rollback d st)
    | .ok res =>
      if (← mysqlNumRows res) ≠ 1 then
        mysqlFreeResult res
        return .error (← rollback d (code .noent))
      else
        match ← mysqlFetchRow res with
        | none =>
          mysqlFreeResult res
          return .error (← rollback d (code .noent))
        | some row =>
          let info ← fillFileinfoFrom row 0
          mysqlFreeResult res
          return .ok info

/-- The paths of a handle, with the number of them that fit and whether there are more. -/
def handlePaths (h : Handle) (pathsSize : ℕ) : M σ (Except Status (List Name × Bool)) := do
  match ← dbExecSqlRes d (.selectPaths h.id h.ts) with
  | .error st => return .error (← rollback d st)
  | .ok res =>
    let count ← mysqlNumRows res
    if count = 0 then
      mysqlFreeResult res
      return .error (← rollback d (code .nopath))
    else
      match ← buildPaths d res (min count pathsSize) with
      | .error st => return .error st
      | .ok paths =>
        mysqlFreeResult res
        return .ok (paths, pathsSize < count)

/-- `fsal_posixdb_getInfoFromHandle`; `pathsSize` is the size of the array of paths, if there is one. -/
def fsalPosixdbGetInfoFromHandle (h : Handle) (pathsSize : Option ℕ) :
    M σ (Status × Option FileInfo × List Name) := do
  let _ ← dbExecSql d .begin
  match ← handleInfo d h with
  | .error st => return (st, none, [])
  | .ok info =>
    match pathsSize with
    | none => return (← dbExecSql d .commit, some info, [])
    | some size =>
      match ← handlePaths d h size with
      | .error st => return (st, some info, [])
      | .ok (paths, toomanypaths) =>
        let st ← dbExecSql d .commit
        return (if toomanypaths then code .toomanypaths else st, some info, paths)

/-! ## fsal_posixdb_replace -/

/-- `FSAL_POSIXDB_IS_NOENT`. -/
def Status.IsNoent (st : Status) : Prop := st.major = .noent

instance (st : Status) : Decidable st.IsNoent := inferInstanceAs (Decidable (st.major = .noent))

/-- Remove the target entry if it exists; a status ends the call (`.inl`), or the loop it is in (`.inr`). -/
def removeTarget (noDeleteCascade : Bool) (p : Handle) (filename : Name) : M σ (Option (Status ⊕ Status)) := do
  match ← dbExecSqlRes d (.selectEntry p.id p.ts filename true) with
  | .error st => return some (.inl (← rollback d st))
  | .ok res =>
    if (← mysqlNumRows res) > 0 then
      match ← mysqlFetchRow res with
      | none =>
        mysqlFreeResult res
        return some (.inl (← rollback d (code .fault)))
      | some row =>
        let id ← readNum row 0
        let ts ← readNum row 1
        let nlink ← readNum row 4
        let st ← fsalPosixdbDeleteParent d noDeleteCascade (UInt64.ofInt id) (UInt32.ofInt ts) p.id p.ts filename
          nlink
        mysqlFreeResult res
        if st.IsError ∧ ¬st.IsNoent then return some (.inr st) else return none
    else
      mysqlFreeResult res
      return none

/-- The loop that updates the entry. With no fuel left it has not ended. -/
def updateEntry (noDeleteCascade : Bool) (old : Handle) (filenameOld : Name) (new : Handle) (filenameNew : Name) :
    ℕ → M σ (Option Status)
  | 0 => return none
  | fuel + 1 => do
    let st ← dbExecSql d (.updateParent new.id new.ts filenameNew old.id old.ts filenameOld)
    if ¬st.IsError then
      -- how many rows updated?
      if (← mysqlAffectedRows d) = 1 then return some (← dbExecSql d .commit)
      else return some (← rollback d (code .noent))
    else if st.minor = some .noReferencedRow then return some (← rollback d ⟨.noent, st.minor⟩)
    else if st.minor = some .dupUnique then
      match ← removeTarget d noDeleteCascade new filenameNew with
      | some (.inl st) => return some st
      | some (.inr st) => return some (← rollback d st)
      -- the entry has been deleted, the update can now be done
      | none => updateEntry noDeleteCascade old filenameOld new filenameNew fuel
    else return some (← rollback d st)

/-- Check that the entry exists and is consistent, unless the cache says so; a status ends the call. -/
def checkOldEntry (noDeleteCascade : Bool) (fuel : ℕ) (info : FileInfo) (old : Handle) (filenameOld : Name) :
    M σ (Option (Option Status)) := do
  let cached ← getInodeCache d old
  if cached.any fun found => !consistencyCheck found info then return some none
  else
    match ← dbExecSqlRes d (.selectEntry old.id old.ts filenameOld false) with
    | .error st => return some (some (← rollback d st))
    | .ok res =>
      if (← mysqlNumRows res) ≠ 1 then
        mysqlFreeResult res
        return some (some (← rollback d (code .noent)))
      else
        match ← mysqlFetchRow res with
        | none =>
          mysqlFreeResult res
          return some (some (← rollback d (code .fault)))
        | some row =>
          let found ← fillFileinfoFrom row 2
          if consistencyCheck found info then
            let id ← readNum row 0
            let ts ← readNum row 1
            match ← fsalPosixdbRecursiveDelete d noDeleteCascade fuel (UInt64.ofInt id) (UInt32.ofInt ts)
              fsalTypeDir with
            | none => return none
            | some _ =>
              mysqlFreeResult res
              return some (some (← dbExecSql d .commit))
          else
            mysqlFreeResult res
            return some none

def fsalPosixdbReplace (noDeleteCascade : Bool) (fuel : ℕ) (info : FileInfo) (old : Handle) (filenameOld : Name)
    (new : Handle) (filenameNew : Name) : M σ (Option Status) := do
  let _ ← dbExecSql d .begin
  match ← checkOldEntry d noDeleteCascade fuel info old filenameOld with
  | none => return none
  | some (some st) => return some st
  | some none =>
    match ← removeTarget d noDeleteCascade new filenameNew with
    | some (.inl st) => return some st
    | some (.inr st) => return some (← rollback d st)
    | none => updateEntry d noDeleteCascade old filenameOld new filenameNew fuel

end Ganesha.PosixDb
