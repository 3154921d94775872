import Mathlib
import Ganesha.Fattr.Bitmap

/-!
# Attributes of NFSv4

`include/nfs_proto_functions.h`, `include/nfsv40.h` and `include/nfsv41.h`: the table of the attributes,
with the sizes of the types on a machine of 64 bits, and the buffers that hold the values.
-/

namespace Ganesha.Fattr

/-! ## The table -/

@[match_pattern] abbrev fattr4SupportedAttrs : ℕ := 0
@[match_pattern] abbrev fattr4Type : ℕ := 1
@[match_pattern] abbrev fattr4Change : ℕ := 3
@[match_pattern] abbrev fattr4Size : ℕ := 4
@[match_pattern] abbrev fattr4Fsid : ℕ := 8
@[match_pattern] abbrev fattr4RdattrError : ℕ := 11
@[match_pattern] abbrev fattr4Filehandle : ℕ := 19
@[match_pattern] abbrev fattr4Fileid : ℕ := 20
@[match_pattern] abbrev fattr4FsLocations : ℕ := 24
@[match_pattern] abbrev fattr4Mode : ℕ := 33
@[match_pattern] abbrev fattr4Numlinks : ℕ := 35
@[match_pattern] abbrev fattr4Owner : ℕ := 36
@[match_pattern] abbrev fattr4OwnerGroup : ℕ := 37
@[match_pattern] abbrev fattr4Rawdev : ℕ := 41
@[match_pattern] abbrev fattr4SpaceUsed : ℕ := 45
@[match_pattern] abbrev fattr4TimeAccess : ℕ := 47
@[match_pattern] abbrev fattr4TimeAccessSet : ℕ := 48
@[match_pattern] abbrev fattr4TimeMetadata : ℕ := 52
@[match_pattern] abbrev fattr4TimeModify : ℕ := 53
@[match_pattern] abbrev fattr4TimeModifySet : ℕ := 54
@[match_pattern] abbrev fattr4MountedOnFileid : ℕ := 55
@[match_pattern] abbrev fattr4FsLayoutTypes : ℕ := 62
@[match_pattern] abbrev fattr4FsCharsetCap : ℕ := 76

/-- `fattr4_dent_t`: the name, whether the attribute is supported, and the size of its type. -/
structure Fattr4Dent where
  name : String
  supported : Bool
  sizeFattr4 : ℕ

/-- The attributes of both builds. -/
def fattr4tab40 : List Fattr4Dent :=
  [⟨"FATTR4_SUPPORTED_ATTRS", true, 16⟩, ⟨"FATTR4_TYPE", true, 4⟩,
    ⟨"FATTR4_FH_EXPIRE_TYPE", true, 4⟩, ⟨"FATTR4_CHANGE", true, 8⟩, ⟨"FATTR4_SIZE", true, 8⟩,
    ⟨"FATTR4_LINK_SUPPORT", true, 4⟩, ⟨"FATTR4_SYMLINK_SUPPORT", true, 4⟩,
    ⟨"FATTR4_NAMED_ATTR", true, 4⟩, ⟨"FATTR4_FSID", true, 16⟩, ⟨"FATTR4_UNIQUE_HANDLES", true, 4⟩,
    ⟨"FATTR4_LEASE_TIME", true, 4⟩, ⟨"FATTR4_RDATTR_ERROR", true, 4⟩, ⟨"FATTR4_ACL", true, 16⟩,
    ⟨"FATTR4_ACLSUPPORT", true, 4⟩, ⟨"FATTR4_ARCHIVE", true, 4⟩, ⟨"FATTR4_CANSETTIME", true, 4⟩,
    ⟨"FATTR4_CASE_INSENSITIVE", true, 4⟩, ⟨"FATTR4_CASE_PRESERVING", true, 4⟩,
    ⟨"FATTR4_CHOWN_RESTRICTED", true, 4⟩, ⟨"FATTR4_FILEHANDLE", true, 16⟩,
    ⟨"FATTR4_FILEID", true, 8⟩, ⟨"FATTR4_FILES_AVAIL", true, 8⟩, ⟨"FATTR4_FILES_FREE", true, 8⟩,
    ⟨"FATTR4_FILES_TOTAL", true, 8⟩, ⟨"FATTR4_FS_LOCATIONS", true, 32⟩, ⟨"FATTR4_HIDDEN", true, 4⟩,
    ⟨"FATTR4_HOMOGENEOUS", true, 4⟩, ⟨"FATTR4_MAXFILESIZE", true, 8⟩, ⟨"FATTR4_MAXLINK", true, 4⟩,
    ⟨"FATTR4_MAXNAME", true, 4⟩, ⟨"FATTR4_MAXREAD", true, 8⟩, ⟨"FATTR4_MAXWRITE", true, 8⟩,
    ⟨"FATTR4_MIMETYPE", true, 16⟩, ⟨"FATTR4_MODE", true, 4⟩, ⟨"FATTR4_NO_TRUNC", true, 4⟩,
    ⟨"FATTR4_NUMLINKS", true, 4⟩, ⟨"FATTR4_OWNER", true, 16⟩, ⟨"FATTR4_OWNER_GROUP", true, 16⟩,
    ⟨"FATTR4_QUOTA_AVAIL_HARD", false, 8⟩, ⟨"FATTR4_QUOTA_AVAIL_SOFT", false, 8⟩,
    ⟨"FATTR4_QUOTA_USED", false, 8⟩, ⟨"FATTR4_RAWDEV", true, 8⟩, ⟨"FATTR4_SPACE_AVAIL", true, 8⟩,
    ⟨"FATTR4_SPACE_FREE", true, 8⟩, ⟨"FATTR4_SPACE_TOTAL", true, 8⟩,
    ⟨"FATTR4_SPACE_USED", true, 8⟩, ⟨"FATTR4_SYSTEM", true, 4⟩, ⟨"FATTR4_TIME_ACCESS", true, 12⟩,
    ⟨"FATTR4_TIME_ACCESS_SET", true, 24⟩, ⟨"FATTR4_TIME_BACKUP", false, 12⟩,
    ⟨"FATTR4_TIME_CREATE", false, 12⟩, ⟨"FATTR4_TIME_DELTA", true, 12⟩,
    ⟨"FATTR4_TIME_METADATA", true, 12⟩, ⟨"FATTR4_TIME_MODIFY", true, 12⟩,
    ⟨"FATTR4_TIME_MODIFY_SET", true, 24⟩, ⟨"FATTR4_MOUNTED_ON_FILEID", true, 8⟩]

/-- The attributes that `_USE_NFS4_1` adds. -/
def fattr4tab41 : List Fattr4Dent :=
  [⟨"FATTR4_DIR_NOTIF_DELAY", false, 16⟩, ⟨"FATTR4_DIRENT_NOTIF_DELAY", false, 16⟩,
    ⟨"FATTR4_DACL", false, 24⟩, ⟨"FATTR4_SACL", false, 24⟩, ⟨"FATTR4_CHANGE_POLICY", false, 16⟩,
    ⟨"FATTR4_FS_STATUS", false, 64⟩, ⟨"FATTR4_FS_LAYOUT_TYPES", true, 16⟩,
    ⟨"FATTR4_LAYOUT_HINT", false, 24⟩, ⟨"FATTR4_LAYOUT_TYPES", false, 16⟩,
    ⟨"FATTR4_LAYOUT_BLKSIZE", true, 4⟩, ⟨"FATTR4_LAYOUT_ALIGNMENT", false, 4⟩,
    ⟨"FATTR4_FS_LOCATIONS_INFO", false, 40⟩, ⟨"FATTR4_MDSTHRESHOLD", false, 16⟩,
    ⟨"FATTR4_RETENTION_GET", false, 24⟩, ⟨"FATTR4_RETENTION_SET", false, 24⟩,
    ⟨"FATTR4_RETENTEVT_GET", false, 24⟩, ⟨"FATTR4_RETENTEVT_SET", false, 24⟩,
    ⟨"FATTR4_RETENTION_HOLD", false, 8⟩, ⟨"FATTR4_MODE_SET_MASKED", false, 8⟩,
    ⟨"FATTR4_SUPPATTR_EXCLCREAT", true, 16⟩, ⟨"FATTR4_FS_CHARSET_CAP", false, 4⟩]

def fattr4tab : Build → List Fattr4Dent
  | .nfs40 => fattr4tab40
  | .nfs41 => fattr4tab40 ++ fattr4tab41

/-- The last attribute of the table. -/
def Build.last : Build → ℕ
  | .nfs40 => fattr4MountedOnFileid
  | .nfs41 => fattr4FsCharsetCap

/-- The size of an attribute in the table. -/
def Build.sizeOf (build : Build) (a : ℕ) : ℕ :=
  (((fattr4tab build)[a]?).map Fattr4Dent.sizeFattr4).getD 0

/-- The attribute is supported. -/
def Build.supports (build : Build) (a : ℕ) : Bool :=
  (((fattr4tab build)[a]?).map Fattr4Dent.supported).getD false

lemma fattr4tab_length (build : Build) : (fattr4tab build).length = build.last + 1 := by
  cases build <;> rfl

/-! ## Buffers -/

/-- The number that is stored in network order. -/
def be (bytes : List UInt8) : ℕ := bytes.foldl (fun n b => 256 * n + b.toNat) 0

/-- A part of a buffer; `none` when it is not inside. -/
def readAt (bytes : List UInt8) (offset count : ℕ) : Option (List UInt8) :=
  if offset + count ≤ bytes.length then some ((bytes.drop offset).take count) else none

/-- `fattr4`: the bitmap, and the values of the attributes; `none` is the pointer NULL. -/
structure Fattr4 where
  attrmask : Bitmap4
  attrVals : Option (List UInt8)
  length_lt : (attrVals.getD []).length < 2 ^ 32

/-- The bytes of the values. -/
def Fattr4.bytes (f : Fattr4) : List UInt8 := f.attrVals.getD []

/-- The attributes of the bitmap. -/
def Fattr4.attrs (f : Fattr4) : List ℕ := nfs4Bitmap4ToList f.attrmask

lemma readAt_eq_some {bytes v : List UInt8} {offset count : ℕ} :
    readAt bytes offset count = some v ↔
      offset + count ≤ bytes.length ∧ v = (bytes.drop offset).take count := by
  unfold readAt
  split_ifs with h
  · rw [Option.some.injEq]
    exact ⟨fun hv => ⟨h, hv.symm⟩, fun hv => hv.2.symm⟩
  · exact ⟨fun hv => absurd hv (by simp), fun hv => absurd hv.1 h⟩

lemma readAt_of_le {bytes : List UInt8} {offset count : ℕ} (h : offset + count ≤ bytes.length) :
    readAt bytes offset count = some ((bytes.drop offset).take count) := if_pos h

lemma readAt_of_lt {bytes : List UInt8} {offset count : ℕ} (h : bytes.length < offset + count) :
    readAt bytes offset count = none := if_neg (by omega)

end Ganesha.Fattr
