import Mathlib
import Ganesha.Fattr.Decode
import Ganesha.Protocols.Readdir
import Ganesha.Pseudo.Common

/-!
# The operations on the pseudo filesystem

`nfs4_op_lookup_pseudo`, `nfs4_op_lookupp_pseudo` and `nfs4_op_readdir_pseudo` of
`NFS_Protocols/nfs4_pseudo.c`. What the other side of a junction answers, and how the attributes of an
entry are encoded, are fields of `Env`. The list of the attributes that are asked for has the places of
the build without `_USE_NFS4_1`. Memory can always be had. `PUTFH` and `PUTROOTFH` set both file
handles of the compound data before.
-/

namespace Ganesha.Pseudo
open Fattr (Bitmap4 nfs4Bitmap4ToList attrmasklistSize)
open Protocols.Readdir (Entry4 sizeofEntry4)

/-- The status of an operation. -/
inductive Nfsstat4
  | ok
  | noEnt
  | badHandle
  | tooSmall
  | wrongSec
  | serverFault
  deriving DecidableEq

/-- `file_handle_v4_t`; `other` is the rest of its fields, `none` when they are zero. -/
structure FileHandle (H : Type*) where
  pseudofsFlag : Bool
  pseudofsId : ℕ
  other : Option H

/-- `compound_data_t`, as far as it is read or written here. No type is `UNASSIGNED`. -/
structure CompoundData (H ε τ : Type*) where
  currentFH : FileHandle H
  mountedOnFH : FileHandle H
  pexport : Option ℕ
  mntPath : Name
  currentEntry : Option ε
  currentFiletype : Option τ

/-- What the functions that are called answer. -/
structure Env (H ε τ β : Type*) where
  /-- `nfs4_MakeCred` for an export. -/
  makeCred : ℕ → Bool
  /-- `FSAL_str2path` of the path of an export. -/
  str2path : ℕ → Bool
  /-- `FSAL_lookupPath` of the path of an export. -/
  lookupPath : ℕ → Option H
  /-- `nfs4_FSALToFhandle` can encode the handle. -/
  fsalToFhandle : H → Bool
  /-- `cache_inode_make_root`. -/
  makeRoot : H → Option ε
  /-- The type that `cache_inode_getattr` finds. -/
  getattr : ε → Option τ
  /-- The encoding of the listed attributes, with the file handle if it has been made. -/
  encode : PseudofsEntry → Option (FileHandle H) → List ℕ → β

variable {H ε τ β : Type*}

/-- `nfs4_FhandleToPseudo`: the entry of a file handle, `some none` for `FALSE`. -/
def nfs4FhandleToPseudo (fs : Pseudofs) (fh : FileHandle H) : Option (Option ℕ) :=
  if fh.pseudofsFlag then (fs.reverseTab fh.pseudofsId).map some else some none

/-- `nfs4_PseudoToFhandle`; the id is kept in an `unsigned short`. -/
def nfs4PseudoToFhandle (H : Type*) (entry : PseudofsEntry) : FileHandle H where
  pseudofsFlag := true
  pseudofsId := entry.pseudoId % 2 ^ 16
  other := none

/-- The traversal of the junction to the export `k`, which is the same in `LOOKUP` and `READDIR`. -/
def crossJunction (env : Env H ε τ β) (k : ℕ) (fullname : Name) (data : CompoundData H ε τ) :
    Nfsstat4 × CompoundData H ε τ :=
  let data := { data with pexport := some k, mntPath := fullname }
  if ¬ env.makeCred k then (.wrongSec, data)
  else if ¬ env.str2path k then (.serverFault, data)
  else match env.lookupPath k with
    | none => (.serverFault, data)
    | some handle =>
      if ¬ env.fsalToFhandle handle then (.serverFault, data)
      else
        let fh := { pseudofsFlag := false, pseudofsId := 0, other := some handle }
        let data := { data with currentFH := fh, mountedOnFH := fh }
        match env.makeRoot handle with
        | none => (.serverFault, data)
        | some pentry =>
          match env.getattr pentry with
          | none => (.serverFault, data)
          | some type =>
            (.ok, { data with currentEntry := some pentry, currentFiletype := some type })

/-! ## LOOKUP and LOOKUPP -/

/-- `nfs4_op_lookup_pseudo`. The name is copied into a buffer of `MAXNAMLEN` bytes. -/
def nfs4OpLookupPseudo (env : Env H ε τ β) (fs : Pseudofs) (objname : Name)
    (data : CompoundData H ε τ) : Option (Nfsstat4 × CompoundData H ε τ) :=
  if objname.length ≥ maxnamlen then none
  else (nfs4FhandleToPseudo fs data.currentFH).bind fun
    | none => some (.badHandle, data)
    | some psfsentry =>
      (findSon fs (objname.takeWhile (· ≠ 0)) (fs.allocated + 2) (fs.mem psfsentry).sons).map fun
        | none => (.noEnt, data)
        | some iter =>
          match (fs.mem iter).junctionExport with
          | none => (.ok, { data with currentFH := nfs4PseudoToFhandle H (fs.mem iter) })
          | some k => crossJunction env k (fs.mem iter).fullname data

/-- `nfs4_op_lookupp_pseudo`. The entry is compared byte by byte with the root. -/
def nfs4OpLookuppPseudo (fs : Pseudofs) (data : CompoundData H ε τ) :
    Option (Nfsstat4 × CompoundData H ε τ) :=
  (nfs4FhandleToPseudo fs data.currentFH).bind fun
    | none => some (.badHandle, data)
    | some psfsentry =>
      (fs.reverseTab 0).map fun root =>
        if fs.mem psfsentry = fs.mem root then (.noEnt, data)
        else
          let fh := nfs4PseudoToFhandle H (fs.mem (fs.mem psfsentry).parent)
          (.ok, { data with
            currentFH := fh, mountedOnFH := fh, currentEntry := none, currentFiletype := none })

/-! ## READDIR -/

/-- `READDIR4args`, without the cookie. -/
structure ReaddirRequest where
  maxcount : ℕ
  attrRequest : Bitmap4

/-- The reply; on the other side of a junction `nfs4_op_readdir` answers. -/
inductive ReaddirReply (H ε τ β : Type*)
  | ok (entries : List (Entry4 (Option β))) (eof : Bool)
  | error (status : Nfsstat4)
  | exported (data : CompoundData H ε τ)

/-- `nfs4_PseudoToFattr`. If no attribute is asked for, it clears the bitmap of the request and sets no
attributes. -/
def nfs4PseudoToFattr (env : Env H ε τ β) (entry : PseudofsEntry) (objFH : Option (FileHandle H))
    (bitmap : Bitmap4) : Option (Option β × Bitmap4) :=
  let attrmasklist := nfs4Bitmap4ToList bitmap
  if attrmasklist.length > attrmasklistSize then none
  else if attrmasklist = [] then some (none, { len := 0, val := [] })
  else some (some (env.encode entry objFH attrmasklist), bitmap)

/-- The loop that looks for the entry with a cookie. -/
def findCookie (fs : Pseudofs) (cookie : ℕ) : ℕ → Option ℕ → Option (Option ℕ)
  | 0, _ => none
  | _ + 1, none => some none
  | fuel + 1, some iter =>
    if (fs.mem iter).pseudoId + 3 = cookie then some (some iter)
    else findCookie fs cookie fuel (fs.mem iter).next

/-- The loop that fills the entries, from the place `i` on, and whether it got to the last son. The
first word of the bitmap is read for each of them; the number of the attribute is taken for a mask. -/
def fillLoop (env : Env H ε τ β) (fs : Pseudofs) (estimated : ℕ) :
    ℕ → ℕ → Option ℕ → Bitmap4 → Option (List (Entry4 (Option β)) × Bool)
  | 0, _, _, _ => none
  | _ + 1, _, none, _ => some ([], true)
  | fuel + 1, i, some iter, bitmap =>
    bitmap.val.head?.bind fun word =>
      let entryFH := if word &&& 19#32 ≠ 0 then some (nfs4PseudoToFhandle H (fs.mem iter)) else none
      (nfs4PseudoToFattr env (fs.mem iter) entryFH bitmap).bind fun (attrs, bitmap) =>
        let entry := ⟨(fs.mem iter).pseudoId + 3, (fs.mem iter).name, attrs⟩
        if i + 1 = estimated then some ([entry], false)
        else (fillLoop env fs estimated fuel (i + 1) (fs.mem iter).next bitmap).map
          fun (entries, eof) => (entry :: entries, eof)

/-- `nfs4_op_readdir_pseudo`. The loop begins with the entry that has the cookie. -/
def nfs4OpReaddirPseudo (env : Env H ε τ β) (fs : Pseudofs) (cookie : ℕ) (args : ReaddirRequest)
    (data : CompoundData H ε τ) : Option (ReaddirReply H ε τ β) :=
  let estimated := args.maxcount / sizeofEntry4
  if args.maxcount < sizeofEntry4 ∨ estimated = 0 then some (.error .tooSmall)
  else (nfs4FhandleToPseudo fs data.currentFH).bind fun
    | none => some (.error .badHandle)
    | some psfsentry =>
      match (fs.mem psfsentry).junctionExport with
      | some k =>
        let (status, data) := crossJunction env k (fs.mem psfsentry).fullname data
        some (if status = .ok then .exported data else .error status)
      | none =>
        let sons := (fs.mem psfsentry).sons
        (if cookie ≠ 0 then findCookie fs cookie (fs.allocated + 2) sons else some sons).bind
          fun iter =>
            (fillLoop env fs estimated (fs.allocated + 2) 0 iter args.attrRequest).map
              fun (entries, eof) => .ok entries eof

end Ganesha.Pseudo
