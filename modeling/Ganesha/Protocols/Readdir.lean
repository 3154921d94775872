import Mathlib
import Ganesha.CacheInode.Readdir

/-!
# READDIR

The `READDIR` of the three versions of the protocol, on a directory in the cache: `nfs_Readdir` of
`NFS_Protocols/nfs_Readdir.c` for versions 2 and 3 and `nfs4_op_readdir` of
`NFS_Protocols/nfs4_op_readdir.c`. `UseCookieVerifier` is never set by the code (`exports.c`), so
verifiers are not compared and are left out. A reply is the list that `nextentry` links, and `eof`.
-/

namespace Ganesha.Protocols.Readdir
open CacheInode.Readdir

/-- The errors of the calls. -/
inductive Status
  /-- `NFSERR_IO` of version 2. -/
  | io
  /-- `NFS3ERR_TOOSMALL` and `NFS4ERR_TOOSMALL`. -/
  | tooSmall
  | badCookie
  | serverFault
  deriving DecidableEq

/-- The cookie of the entry whose next dirent is the first of `rest`: its position, or `end_cookie`,
and 2. -/
def nextCookie (endCookie : ℕ) : List (ℕ × DirEntry) → ℕ
  | [] => (endCookie + 2) % 2 ^ 32
  | (pos, _) :: _ => (pos + 2) % 2 ^ 32

/-! ## Versions 2 and 3 -/

/-- `sizeof(entry2)` or `sizeof(entry3)`, `sizeof(READDIR2resok)` or `sizeof(READDIR3resok)`, and the
error for a count that is too small. -/
structure Version where
  sizeofEntry : ℕ
  sizeofResok : ℕ
  tooSmall : Status

/-- `NFS_V2`. -/
def v2 : Version := ⟨32, 16, .io⟩

/-- `NFS_V3`. -/
def v3 : Version := ⟨32, 120, .tooSmall⟩

/-- `entry2` and `entry3`. -/
structure Entry where
  fileid : ℕ
  name : List UInt8
  cookie : ℕ
  deriving DecidableEq

/-- The name `.`. -/
def dot : List UInt8 := [46]

/-- The name `..`. -/
def dotDot : List UInt8 := [46, 46]

/-- `needed`: the size of an entry with its name, rounded up to a multiple of 4. -/
def Version.needed (v : Version) (name : List UInt8) : ℕ :=
  v.sizeofEntry + (name.length + 3) / 4 * 4

/-- The loop that fills the entries. `first` is true for the first dirent, and the flag that is
returned tells whether the loop came to its end. -/
def fillLoop (v : Version) (fileid : ℕ → ℕ) (count endCookie : ℕ) :
    Bool → ℕ → List (ℕ × DirEntry) → Except Status (List Entry × Bool)
  | _, _, [] => .ok ([], true)
  | first, spaceUsed, (_, e) :: rest =>
    let spaceUsed := spaceUsed + v.needed e.name
    if spaceUsed > count then if first then .error v.tooSmall else .ok ([], false)
    else
      let entry := ⟨fileid e.pentry, e.name, nextCookie endCookie rest⟩
      (fillLoop v fileid count endCookie false spaceUsed rest).map fun (entries, done) =>
        (entry :: entries, done)

/-- `nfs_Readdir` on the directory `dir` with the parent `parent`. `fileid` is `FSAL_DigestHandle` of
the handle of an entry of the cache. -/
def nfsReaddir (v : Version) (fileid : ℕ → ℕ) (dir parent : ℕ) (chain : List Extent)
    (argCookie count : ℕ) : Option (Except Status (List Entry × Bool)) :=
  let cookie := argCookie % 2 ^ 32
  let estimated := count / v.sizeofEntry
  if estimated = 0 then some (.error v.tooSmall)
  else
    let asked := if cookie > 1 then estimated
      else if estimated > 2 - cookie then estimated + cookie - 2 else 0
    let cacheInodeCookie := if cookie > 1 then cookie - 2 else 0
    (cacheInodeReaddir chain cacheInodeCookie asked).map fun r =>
      if r.entries = [] ∧ asked ≠ 0 ∧ cookie > 1 then .ok ([], true)
      else
        let dots := if cookie = 0 then [⟨fileid dir, dot, 1⟩] else []
        let dots := if cookie ≤ 1 ∧ estimated > dots.length then
          dots ++ [⟨fileid parent, dotDot, 2⟩] else dots
        (fillLoop v fileid count r.endCookie true v.sizeofResok r.entries).map fun (entries, done) =>
          (dots ++ entries, r.eodMet && done)

/-! ## Version 4 -/

def sizeofEntry4 : ℕ := 64

structure Entry4 (β : Type*) where
  cookie : ℕ
  name : List UInt8
  attrs : β

variable {β : Type*}

/-- The loop that fills the entries. `attrs` is `cache_inode_lookup` of a name with the attributes
asked for. The loop stops after an entry that begins beyond nine tenths of `maxcount`. -/
def fillLoop4 (attrs : List UInt8 → Option β) (maxcount endCookie : ℕ) :
    ℕ → List (ℕ × DirEntry) → Except Status (List (Entry4 β) × Bool)
  | _, [] => .ok ([], true)
  | i, (_, e) :: rest =>
    match attrs e.name with
    | none => .error .serverFault
    | some a =>
      let entry := ⟨nextCookie endCookie rest, e.name, a⟩
      if i * sizeofEntry4 > maxcount * 9 / 10 then .ok ([entry], false)
      else (fillLoop4 attrs maxcount endCookie (i + 1) rest).map fun (entries, done) =>
        (entry :: entries, done)

def nfs4OpReaddir (attrs : List UInt8 → Option β) (chain : List Extent) (argCookie maxcount : ℕ) :
    Option (Except Status (List (Entry4 β) × Bool)) :=
  let cookie := argCookie % 2 ^ 32
  let estimated := maxcount / sizeofEntry4
  if cookie = 1 ∨ cookie = 2 then some (.error .badCookie)
  else
    let cookie := if cookie ≠ 0 then cookie - 2 else cookie
    if maxcount < sizeofEntry4 ∨ estimated = 0 then some (.error .tooSmall)
    else (cacheInodeReaddir chain cookie estimated).map fun r =>
      if r.entries = [] then .ok ([], true)
      else (fillLoop4 attrs maxcount r.endCookie 0 r.entries).map fun (entries, done) =>
        (entries, r.eodMet && done)

end Ganesha.Protocols.Readdir
