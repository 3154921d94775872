import Mathlib.Logic.Function.Basic
import Mathlib.Data.Nat.Bitwise

/-!
# Digests of SNMP handles

`SNMPFSAL_DigestHandle` and `SNMPFSAL_ExpandHandle` of `FSAL/FSAL_SNMP/fsal_tools.c`. A handle is a
sequence of sub-identifiers (`oid`, 64 bits); its digest leaves out those of the root of the export.
The bit-fields of `fsal_digest_t` are laid out from the lowest bit of a little-endian number, and
`char_tab` follows in the byte after them.
-/

namespace Ganesha.Snmp

/-- `nodetype_t`. -/
inductive NodeType
  | root
  | node
  | leaf
  deriving DecidableEq

/-- `snmpfsal_handle_t`: the first `oid_len` entries of `oid_tab`, and the type. -/
structure Handle where
  oidTab : List ℕ
  objectTypeReminder : NodeType
  deriving DecidableEq

/-- `snmpfsal_export_context_t`. -/
structure ExportContext where
  rootHandle : Handle

/-- `fsal_digesttype_t`. -/
inductive DigestType
  | nfsv2
  | nfsv3
  | nfsv4
  | fileid2
  | fileid3
  | fileid4
  deriving DecidableEq

/-- The types that are digests of handles. -/
def DigestType.IsNfs (t : DigestType) : Prop := t = .nfsv2 ∨ t = .nfsv3 ∨ t = .nfsv4

/-- The status codes. -/
inductive Status
  | noError
  | inval
  | tooSmall
  deriving DecidableEq

/-- `FSAL_DIGEST_SIZE_HDLV2`. -/
def digestSizeHdlv2 : ℕ := 29

def maxCharVal : ℕ := 2 ^ 8 - 1

def maxShortVal : ℕ := 2 ^ 16 - 1

/-! ## Bytes -/

/-- The memory at `out_buff`, by offset, with the offsets that have been written. -/
structure Buffer where
  bytes : ℕ → UInt8
  written : List ℕ := []

namespace Buffer

def store (b : Buffer) (i : ℕ) (x : ℕ) : Buffer :=
  { bytes := Function.update b.bytes i (UInt8.ofNat x), written := i :: b.written }

/-- `memset(out_buff, 0, n)`. -/
def clear (b : Buffer) : ℕ → Buffer
  | 0 => b
  | n + 1 => (b.clear n).store n 0

/-- `memcpy(out_buff, &x, n)`. -/
def copy (b : Buffer) (x : ℕ) : ℕ → Buffer
  | 0 => b
  | n + 1 => (b.copy x n).store n (x >>> (8 * n) &&& 0xFF)

end Buffer

/-! ## Bit-fields -/

/-- A bit-field of `fsal_digest_t`. -/
structure BitField where
  pos : ℕ
  width : ℕ

def typeFlag : BitField := ⟨0, 2⟩

def relativeOidLen : BitField := ⟨2, 5⟩

def nbShortOids : BitField := ⟨7, 5⟩

def nbIntOids : BitField := ⟨12, 4⟩

/-- The offset of `char_tab`. -/
def charTab : ℕ := 2

def BitField.get (f : BitField) (v : ℕ) : ℕ := v / 2 ^ f.pos % 2 ^ f.width

/-- Assign a bit-field; what does not fit is cut off. -/
def BitField.set (f : BitField) (v x : ℕ) : ℕ :=
  v - f.get v * 2 ^ f.pos + x % 2 ^ f.width * 2 ^ f.pos

/-- The bytes of the bit-fields as a number. -/
def header (bytes : ℕ → UInt8) : ℕ := (bytes 0).toNat + 256 * (bytes 1).toNat

def Buffer.setField (b : Buffer) (f : BitField) (x : ℕ) : Buffer :=
  let v := f.set (header b.bytes) x
  (b.store 0 (v % 256)).store 1 (v / 256)

/-! ## SNMPFSAL_DigestHandle -/

/-- `DGST_FLAG_ROOT`, `DGST_FLAG_NODE`, `DGST_FLAG_LEAF`. -/
def NodeType.flag : NodeType → ℕ
  | .root => 1
  | .node => 2
  | .leaf => 3

/-- The loop that collects `short_tab_indexes` and `int_tab_indexes`. -/
def tabIndexes : List ℕ → ℕ → List ℕ × List ℕ
  | [], _ => ([], [])
  | x :: xs, i =>
    let (shorts, ints) := tabIndexes xs (i + 1)
    if x > maxShortVal then (shorts, i :: ints)
    else if x > maxCharVal then (i :: shorts, ints)
    else (shorts, ints)

/-- A loop that stores indexes; it returns `curr_addr`. -/
def storeIndexes (b : Buffer) (curr : ℕ) : List ℕ → Buffer × ℕ
  | [] => (b, curr)
  | i :: is => storeIndexes (b.store curr i) (curr + 1) is

/-- The loop that stores the sub-identifiers. -/
def storeOids (b : Buffer) (curr : ℕ) : List ℕ → Status × Buffer
  | [] => (.noError, b)
  | x :: xs =>
    -- four bytes, the highest first
    if x > maxShortVal then
      if curr + 4 > digestSizeHdlv2 then (.tooSmall, b)
      else
        let b := b.store (curr + 3) (x &&& 0xFF)
        let b := b.store (curr + 2) (x >>> 8 &&& 0xFF)
        let b := b.store (curr + 1) (x >>> 16 &&& 0xFF)
        let b := b.store curr (x >>> 24 &&& 0xFF)
        storeOids b (curr + 4) xs
    -- two bytes
    else if x > maxCharVal then
      if curr + 2 > digestSizeHdlv2 then (.tooSmall, b)
      else
        let b := b.store (curr + 1) (x &&& 0xFF)
        let b := b.store curr (x >>> 8 &&& 0xFF)
        storeOids b (curr + 2) xs
    -- one byte
    else
      if curr + 1 > digestSizeHdlv2 then (.tooSmall, b)
      else storeOids (b.store curr (x &&& 0xFF)) (curr + 1) xs

def buildObjectId (h : Handle) : ℕ :=
  h.oidTab.foldl (fun hash x => (hash <<< 8 % 2 ^ 64 ^^^ x) % 479001599) 1

/-- The case of `SNMPFSAL_DigestHandle` for NFS handles. -/
def digestNfsHandle (expcontext : ExportContext) (h : Handle) (out : Buffer) : Status × Buffer :=
  let out := out.clear digestSizeHdlv2
  let out := out.setField typeFlag h.objectTypeReminder.flag
  let rootLen := expcontext.rootHandle.oidTab.length
  -- the lengths are of type `unsigned int`
  let nbOids := (h.oidTab.length + 2 ^ 32 - rootLen) % 2 ^ 32
  if nbOids > 23 then (.tooSmall, out)
  else
    let out := out.setField relativeOidLen nbOids
    let oids := h.oidTab.drop rootLen
    let (shorts, ints) := tabIndexes oids 0
    if 3 * shorts.length + 5 * ints.length + (nbOids - shorts.length - ints.length) > 23 then
      (.tooSmall, out)
    else
      let out := out.setField nbShortOids shorts.length
      let out := out.setField nbIntOids ints.length
      let (out, curr) := storeIndexes out charTab shorts
      let (out, curr) := storeIndexes out curr ints
      storeOids out curr oids

/-- `SNMPFSAL_DigestHandle`. -/
def digestHandle (expcontext : ExportContext) (outputType : DigestType) (h : Handle) (out : Buffer) :
    Status × Buffer :=
  match outputType with
  | .nfsv2 | .nfsv3 | .nfsv4 => digestNfsHandle expcontext h out
  | .fileid2 => (.noError, out.copy (buildObjectId h % 2 ^ 32) 4)
  | .fileid3 | .fileid4 => (.noError, out.copy (buildObjectId h) 8)

/-! ## SNMPFSAL_ExpandHandle -/

/-- The type of a flag. -/
def nodeTypeOfFlag : ℕ → Option NodeType
  | 1 => some .root
  | 2 => some .node
  | 3 => some .leaf
  | _ => none

/-- A loop that reads `n` indexes. -/
def readIndexes (bytes : ℕ → UInt8) (curr : ℕ) : ℕ → List ℕ
  | 0 => []
  | n + 1 => (bytes curr).toNat :: readIndexes bytes (curr + 1) n

/-- The loop that reads the sub-identifiers from the `i`th on, `n` in number. `ints` and `shorts` are
the indexes from `curr_int_idx` and `curr_short_idx` on. -/
def readOids (bytes : ℕ → UInt8) : ℕ → ℕ → ℕ → List ℕ → List ℕ → List ℕ
  | 0, _, _, _, _ => []
  | n + 1, i, curr, ints, shorts =>
    if ints.head? = some i then
      ((bytes (curr + 3)).toNat + (bytes (curr + 2)).toNat <<< 8 + (bytes (curr + 1)).toNat <<< 16 +
          (bytes curr).toNat <<< 24) ::
        readOids bytes n (i + 1) (curr + 4) ints.tail shorts
    else if shorts.head? = some i then
      ((bytes (curr + 1)).toNat + (bytes curr).toNat <<< 8) ::
        readOids bytes n (i + 1) (curr + 2) ints shorts.tail
    else (bytes curr).toNat :: readOids bytes n (i + 1) (curr + 1) ints shorts

/-- `SNMPFSAL_ExpandHandle`; the handle is given if the status is `ERR_FSAL_NO_ERROR`. -/
def expandHandle (expcontext : ExportContext) (inType : DigestType) (bytes : ℕ → UInt8) :
    Status × Option Handle :=
  match inType with
  | .nfsv2 | .nfsv3 | .nfsv4 =>
    match nodeTypeOfFlag (typeFlag.get (header bytes)) with
    | none => (.inval, none)
    | some type =>
      let nbShort := nbShortOids.get (header bytes)
      let nbInt := nbIntOids.get (header bytes)
      let shorts := readIndexes bytes charTab nbShort
      let ints := readIndexes bytes (charTab + nbShort) nbInt
      let oids := readOids bytes (relativeOidLen.get (header bytes)) 0 (charTab + nbShort + nbInt)
        ints shorts
      (.noError, some ⟨expcontext.rootHandle.oidTab ++ oids, type⟩)
  | .fileid2 | .fileid3 | .fileid4 => (.inval, none)

end Ganesha.Snmp
