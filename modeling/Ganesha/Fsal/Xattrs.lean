import Mathlib.Algebra.GroupWithZero.Nat
import Mathlib.Data.List.Nodup
import Ganesha.Library.Buffer
import Ganesha.Limits

/-!
# The extended attributes of a user

The values of the attributes in `FSAL/FSAL_XFS/fsal_xattrs.c`: how `xattr_format_value` shows a value that was
read, and what `XFSFSAL_SetXAttrValue` stores of what is written. There is no result where memory outside a
buffer is used.
-/

namespace Ganesha.Fsal.Xattrs

open Library.Buffer

/-! ## Values that are shown -/

def isprint (c : UInt8) : Bool := 32 ≤ c && c ≤ 126

def isspace (c : UInt8) : Bool := c = 32 || (9 ≤ c && c ≤ 13)

/-- A newline. -/
def newline : UInt8 := 10

/-- The branch of a text: a newline is added if it is missing, and if it fits. -/
def formatText (buffer : List UInt8) (sizeIn len maxlen : ℕ) : Option (List UInt8 × ℕ) :=
  if sizeIn + 1 < maxlen then
    if len = 0 then none
    else
      (buffer[len - 1]?).bind fun last =>
        if last ≠ newline then (put buffer len [newline, 0]).map fun buffer => (buffer, sizeIn + 2)
        else some (buffer, sizeIn)
  else some (buffer, sizeIn)

/-- The number whose bytes are given, the lowest first. -/
def littleEndian (bytes : List UInt8) : ℕ := bytes.foldr (fun c n => c.toNat + 256 * n) 0

/-- What `%u` prints. -/
def decimal (n : ℕ) : List UInt8 := (Nat.toDigits 10 n).map fun c => c.toNat.toUInt8

/-- The branches of the numbers: `snprintf` cuts what does not fit, but returns the whole length. -/
def formatNumber (buffer : List UInt8) (sizeIn maxlen : ℕ) : Option (List UInt8 × ℕ) :=
  let text := decimal (littleEndian (buffer.take sizeIn)) ++ [newline]
  if maxlen = 0 then some (buffer, 1 + text.length)
  else (put buffer 0 (text.take (maxlen - 1) ++ [0])).map fun buffer => (buffer, 1 + text.length)

/-- A digit of `%X`. -/
def hexDigit (n : UInt8) : UInt8 := if n < 10 then 48 + n else 55 + n

/-- What the loop prints of the bytes from an index on: a dot follows each fourth one but the last. -/
def hexBytes (sizeIn : ℕ) : ℕ → List UInt8 → List UInt8
  | _, [] => []
  | i, c :: cs => hexDigit (c / 16) :: hexDigit (c % 16) ::
      ((if i % 4 = 3 ∧ i + 1 ≠ sizeIn then [46] else []) ++ hexBytes sizeIn (i + 1) cs)

/-- The branch of the bytes. A failure of `Mem_Alloc` leaves the value as it is. -/
def formatHexa (alloc : Bool) (buffer : List UInt8) (sizeIn maxlen : ℕ) : Option (List UInt8 × ℕ) :=
  if alloc = false then some (buffer, sizeIn)
  else
    let text := [48, 120] ++ hexBytes sizeIn 0 (buffer.take sizeIn) ++ [newline]
    (put (List.replicate (3 * sizeIn + 4) 0) 0 (text ++ [0])).bind fun _ =>
      (put buffer 0 (text.take maxlen ++ List.replicate (maxlen - text.length) 0)).map fun buffer =>
        (buffer, min (text.length + 1) maxlen)

/-- `xattr_format_value`: the buffer and `*datalen` after it. -/
def xattrFormatValue (alloc : Bool) (buffer : List UInt8) (sizeIn maxlen : ℕ) : Option (List UInt8 × ℕ) :=
  let len := strnlen buffer sizeIn
  if (len + 1 = sizeIn ∨ len = sizeIn) ∧ (buffer.take len).all (fun c => isprint c || isspace c) = true then
    formatText buffer sizeIn len maxlen
  else if sizeIn = 1 ∨ sizeIn = 2 ∨ sizeIn = 4 ∨ sizeIn = 8 then formatNumber buffer sizeIn maxlen
  else formatHexa alloc buffer sizeIn maxlen

/-! ## Values that are written -/

def chompAttrValue (str : List UInt8) : Option (List UInt8) :=
  if str.length = 0 then none
  else
    let str := str.set (str.length - 1) 0
    let len := strnlen str str.length
    if 0 < len ∧ str[len - 1]? = some newline then some (str.set (len - 1) 0) else some str

/-- The value that is stored for a buffer. -/
def storedValue (buffer : List UInt8) : List UInt8 :=
  let len := strnlen buffer buffer.length
  if len = 0 then [0] else buffer.take len

/-! ## The attributes of an object -/

/-- The statuses. -/
inductive XattrStatus
  | noError
  | perm
  | inval
  | noent
  | posix (errno : ℕ)
  | handle (major : ℕ)
  deriving DecidableEq

/-- The attributes with their values, as `flistxattr` lists them. -/
abbrev XattrList : Type := List (List UInt8 × List UInt8)

/-- Names are compared byte by byte. -/
local instance lawfulNames : LawfulBEq (List UInt8) := inferInstance

/-- What is around an operation: the errors of `XFSFSAL_getattrs` and of `fsal_internal_handle2fd`, that of a
`fsetxattr` that could be made, whether `Mem_Alloc` works, and what `print_xfshandle` gives. -/
structure Env where
  getattrs : Option ℕ
  handle : Option ℕ
  setErrno : Option ℕ
  alloc : Bool
  printXfshandle : List UInt8 × ℕ

def enodata : ℕ := 61

def eexist : ℕ := 17

def erange : ℕ := 34

def xattrCount : ℕ := 1

def fsalMaxNameLen : ℕ := 255

def xattrBuffersize : ℕ := 4096

/-- The name of the attribute that is built in. -/
def xfshandle : List UInt8 := [120, 102, 115, 104, 97, 110, 100, 108, 101]

/-- The size of the list of the names. -/
def listSize (names : List (List UInt8)) : ℕ := (names.map fun name => name.length + 1).sum

/-- `flistxattr`, into a buffer of `MAXPATHLEN` bytes. Its error leaves nothing to look at. -/
def flistxattr (xattrs : XattrList) : List (List UInt8) :=
  if listSize (xattrs.map Prod.fst) ≤ maxpathlen then xattrs.map Prod.fst else []

/-- The value of an attribute. -/
def valueOf (xattrs : XattrList) (name : List UInt8) : Option (List UInt8) :=
  (xattrs.find? fun x => x.1 = name).map Prod.snd

/-- `fgetxattr`: the buffer, and the length of the value. -/
def fgetxattr (xattrs : XattrList) (name buffer : List UInt8) : Except ℕ (List UInt8 × ℕ) :=
  match valueOf xattrs name with
  | none => .error enodata
  | some value =>
    if buffer.length = 0 then .ok (buffer, value.length)
    else if buffer.length < value.length then .error erange
    else .ok (value ++ buffer.drop value.length, value.length)

def fsetxattr (env : Env) (xattrs : XattrList) (name value : List UInt8) (create : Bool) : Except ℕ XattrList :=
  if create = true then
    if name ∈ xattrs.map Prod.fst then .error eexist
    else
      match env.setErrno with
      | some errno => .error errno
      | none => .ok (xattrs ++ [(name, value)])
  else if name ∉ xattrs.map Prod.fst then .error enodata
  else
    match env.setErrno with
    | some errno => .error errno
    | none => .ok (xattrs.map fun x => if x.1 = name then (name, value) else x)

def xattrIdToName (xattrs : XattrList) (id : ℕ) : Except XattrStatus (List UInt8) :=
  if id < xattrCount then .error .inval
  else
    match (flistxattr xattrs)[id - xattrCount]? with
    | some name => .ok name
    | none => .error .noent

def xattrNameToId (xattrs : XattrList) (name : List UInt8) : Option ℕ :=
  ((flistxattr xattrs).idxOf? name).map (· + xattrCount)

/-! ## The operations -/

/-- What a read returns: the status, the buffer and the output size. -/
structure GetResult where
  status : XattrStatus
  buffer : List UInt8
  outputSize : ℕ
  deriving DecidableEq

/-- The read of the value of an attribute of the file system, into a buffer. -/
def getValue (env : Env) (xattrs : XattrList) (name buffer : List UInt8) (outputSize : ℕ) : Option GetResult :=
  match fgetxattr xattrs name buffer with
  | .error errno => some ⟨.posix errno, buffer, outputSize⟩
  | .ok (value, rc) => (xattrFormatValue env.alloc value rc buffer.length).map fun r => ⟨.noError, r.1, r.2⟩

/-- `XFSFSAL_GetXAttrValueById`. -/
def getXAttrValueById (env : Env) (xattrs : XattrList) (id : ℕ) (buffer : List UInt8) (outputSize : ℕ) :
    Option GetResult :=
  match env.getattrs with
  | some major => some ⟨.handle major, buffer, outputSize⟩
  | none =>
    if id < xattrCount then some ⟨.noError, env.printXfshandle.1, env.printXfshandle.2⟩
    else
      match env.handle with
      | some major => some ⟨.handle major, buffer, outputSize⟩
      | none =>
        match xattrIdToName xattrs id with
        | .error status => some ⟨status, buffer, outputSize⟩
        | .ok name => getValue env xattrs name buffer outputSize

/-- `XFSFSAL_GetXAttrValueByName`. -/
def getXAttrValueByName (env : Env) (xattrs : XattrList) (name buffer : List UInt8) (outputSize : ℕ) :
    Option GetResult :=
  match env.getattrs with
  | some major => some ⟨.handle major, buffer, outputSize⟩
  | none =>
    if name = xfshandle then getXAttrValueById env xattrs 0 buffer outputSize
    else
      match env.handle with
      | some major => some ⟨.handle major, buffer, outputSize⟩
      | none => getValue env xattrs name buffer outputSize

/-- What a write returns: the status, and the attributes after it. -/
structure SetResult where
  status : XattrStatus
  xattrs : XattrList
  deriving DecidableEq

/-- `XFSFSAL_SetXAttrValue`. -/
def setXAttrValue (env : Env) (xattrs : XattrList) (name buffer : List UInt8) (create : Bool) : Option SetResult :=
  (chompAttrValue buffer).map fun buffer =>
    match env.handle with
    | some major => ⟨.handle major, xattrs⟩
    | none =>
      match fsetxattr env xattrs name (storedValue buffer) create with
      | .error errno => ⟨.posix errno, xattrs⟩
      | .ok xattrs => ⟨.noError, xattrs⟩

/-- `XFSFSAL_SetXAttrValueById`. The name is copied into a buffer of `FSAL_MAX_NAME_LEN` bytes. -/
def setXAttrValueById (env : Env) (xattrs : XattrList) (id : ℕ) (buffer : List UInt8) : Option SetResult :=
  if id < xattrCount then some ⟨.perm, xattrs⟩
  else
    match env.handle with
    | some major => some ⟨.handle major, xattrs⟩
    | none =>
      match xattrIdToName xattrs id with
      | .error status => some ⟨status, xattrs⟩
      | .ok name => if name.length < fsalMaxNameLen then setXAttrValue env xattrs name buffer false else none

/-! ## What the property is about -/

/-- How an attribute is named. An id is what `xattr_name_to_id` finds. -/
inductive Access
  | byName
  | byId

/-- The read of an attribute. -/
def Access.get (env : Env) (xattrs : XattrList) (name buffer : List UInt8) (outputSize : ℕ) : Access → Option GetResult
  | .byName => getXAttrValueByName env xattrs name buffer outputSize
  | .byId =>
    match xattrNameToId xattrs name with
    | none => some ⟨.noent, buffer, outputSize⟩
    | some id => getXAttrValueById env xattrs id buffer outputSize

/-- The write of an attribute, which exists if it is named by its id. -/
def Access.set (env : Env) (xattrs : XattrList) (name buffer : List UInt8) (create : Bool) : Access → Option SetResult
  | .byName => setXAttrValue env xattrs name buffer create
  | .byId =>
    match xattrNameToId xattrs name with
    | none => some ⟨.noent, xattrs⟩
    | some id => setXAttrValueById env xattrs id buffer

/-- A text of characters that can be printed, without newline at its end, that fits with it. -/
structure Text (w : List UInt8) : Prop where
  nonempty : w ≠ []
  printable : ∀ c ∈ w, isprint c = true ∨ isspace c = true
  last : w.getLast? ≠ some newline
  fits : w.length ≤ xattrBuffersize - 2

/-- What a client sends for a text. -/
def sent (w : List UInt8) (withNewline : Bool) : List UInt8 := if withNewline = true then w ++ [newline] else w

/-- The names once an attribute is there. -/
def namesWith (xattrs : XattrList) (name : List UInt8) : List (List UInt8) :=
  if name ∈ xattrs.map Prod.fst then xattrs.map Prod.fst else xattrs.map Prod.fst ++ [name]

/-- An attribute of a user that can be written, where the system has no error. -/
structure Writable (env : Env) (s g : Access) (create : Bool) (xattrs : XattrList) (name : List UInt8) : Prop where
  getattrs : env.getattrs = none
  handle : env.handle = none
  setErrno : env.setErrno = none
  user : name ≠ xfshandle
  named : s = .byName ∨ g = .byName → name.length < fsalMaxNameLen
  create_iff : create = true ↔ name ∉ xattrs.map Prod.fst
  exists_of_byId : s = .byId → name ∈ xattrs.map Prod.fst
  listed : s = .byId ∨ g = .byId → listSize (namesWith xattrs name) ≤ maxpathlen

/-- A text that was sent is read with its newline and its end, what was read can be written back, and a value
of any kind is shown within the buffer. -/
structure TextLaws (env : Env) (s g : Access) (create : Bool) (xattrs : XattrList)
    (name w data init value : List UInt8) : Prop where
  readBack : ∃ xattrs' buffer, s.set env xattrs name data create = some ⟨.noError, xattrs'⟩ ∧
    g.get env xattrs' name init 0 = some ⟨.noError, buffer, w.length + 2⟩ ∧
    buffer.take (w.length + 2) = w ++ [newline, 0]
  writtenBack : ∀ xattrs' r, s.set env xattrs name data create = some ⟨.noError, xattrs'⟩ →
    g.get env xattrs' name init 0 = some r → r.status = .noError →
    s.set env xattrs' name (r.buffer.take r.outputSize) false = some ⟨.noError, xattrs'⟩
  shown : ∀ xattrs' name', valueOf xattrs' name' = some value → ∃ r, getValue env xattrs' name' init 0 = some r ∧
    r.buffer.length = init.length ∧ r.outputSize ≤ init.length

variable {env : Env} {s g : Access} {create : Bool} {xattrs : XattrList} {name w rest value init buffer : List UInt8}
  {i n sizeIn maxlen : ℕ}

/-! ## What is stored -/

lemma ne_zero_of_printable {c : UInt8} (h : isprint c = true ∨ isspace c = true) : c ≠ 0 := by
  rintro rfl
  rcases h with h | h <;> exact absurd h (by decide)

/-- The value ends at its zero. -/
lemma storedValue_append (hne : w ≠ []) (hw : ∀ c ∈ w, c ≠ 0) : storedValue (w ++ 0 :: rest) = w := by
  have hlen : strnlen (w ++ 0 :: rest) (w ++ 0 :: rest).length = w.length := by
    refine strnlen_append_zero hw ?_
    rw [List.length_append, List.length_cons]
    omega
  have hpos : w.length ≠ 0 := fun h => hne (List.length_eq_zero_iff.mp h)
  unfold storedValue
  rw [hlen]
  dsimp only
  rw [if_neg hpos, List.take_left]

/-- The last byte decides what is cut. -/
lemma chomp_eq (u : List UInt8) (c : UInt8) : chompAttrValue (u ++ [c]) =
    let len := strnlen (u ++ [0]) (u.length + 1)
    if 0 < len ∧ (u ++ [0])[len - 1]? = some newline then some ((u ++ [0]).set (len - 1) 0) else some (u ++ [0]) := by
  have hlength : (u ++ [c]).length = u.length + 1 := List.length_append
  have hset : (u ++ [c]).set u.length 0 = u ++ [0] := by
    rw [List.set_append_right _ _ (Nat.le_refl _), Nat.sub_self]
    rfl
  have hzero : (u ++ [0]).length = u.length + 1 := List.length_append
  unfold chompAttrValue
  rw [if_neg (by omega), hlength, Nat.add_sub_cancel, hset]
  dsimp only
  rw [hzero]

/-- Nothing but the zero is set. -/
lemma chomp_of_last (hw : ∀ c ∈ w, c ≠ 0) (hlast : w.getLast? ≠ some newline) (c : UInt8) :
    chompAttrValue (w ++ [c]) = some (w ++ [0]) := by
  have hlen : strnlen (w ++ [0]) (w.length + 1) = w.length := strnlen_append_zero hw (Nat.lt_succ_self _)
  have hno : ¬ (0 < w.length ∧ (w ++ [0])[w.length - 1]? = some newline) := by
    rintro ⟨hpos, h⟩
    rw [List.getElem?_append_left (by omega), ← List.getLast?_eq_getElem?] at h
    exact hlast h
  rw [chomp_eq, hlen]
  dsimp only
  rw [if_neg hno]

/-- Of a text with a newline and a byte both are cut. -/
lemma chomp_of_newline (hw : ∀ c ∈ w, c ≠ 0) (c : UInt8) :
    chompAttrValue (w ++ [newline, c]) = some (w ++ [0, 0]) := by
  have hall : ∀ c ∈ w ++ [newline], c ≠ 0 := by
    intro c hc
    rcases List.mem_append.mp hc with hc | hc
    · exact hw c hc
    · rw [List.mem_singleton.mp hc]
      decide
  have hlength : (w ++ [newline]).length = w.length + 1 := List.length_append
  have hlen : strnlen (w ++ [newline] ++ [0]) ((w ++ [newline]).length + 1) = w.length + 1 := by
    rw [strnlen_append_zero hall (Nat.lt_succ_self _), hlength]
  have hget : (w ++ [newline] ++ [0])[w.length + 1 - 1]? = some newline := by
    rw [Nat.add_sub_cancel, List.append_assoc, List.getElem?_append_right (Nat.le_refl _), Nat.sub_self]
    rfl
  have hset : (w ++ [newline] ++ [0]).set (w.length + 1 - 1) 0 = w ++ [0, 0] := by
    rw [Nat.add_sub_cancel, List.append_assoc, List.set_append_right _ _ (Nat.le_refl _), Nat.sub_self]
    rfl
  have happend : w ++ [newline, c] = w ++ [newline] ++ [c] := by
    rw [List.append_assoc]
    rfl
  rw [happend, chomp_eq, hlen]
  dsimp only
  rw [if_pos ⟨Nat.succ_pos _, hget⟩, hset]

/-- Of a text without a newline its last byte is cut. -/
lemma chomp_alone (hne : w ≠ []) (hw : ∀ c ∈ w, isprint c = true ∨ isspace c = true) :
    ∃ buffer, chompAttrValue w = some buffer ∧ (storedValue buffer = [0] ∨ storedValue buffer ≠ [] ∧
      (storedValue buffer).length < w.length ∧ ∀ c ∈ storedValue buffer, isprint c = true ∨ isspace c = true) := by
  obtain ⟨u, c, rfl⟩ : ∃ u c, w = u ++ [c] := ⟨_, _, (List.dropLast_append_getLast hne).symm⟩
  have hu : ∀ c ∈ u, isprint c = true ∨ isspace c = true := fun c hc => hw c (List.mem_append_left _ hc)
  have hzero : ∀ c ∈ u, c ≠ 0 := fun c hc => ne_zero_of_printable (hu c hc)
  have hlength : (u ++ [c]).length = u.length + 1 := List.length_append
  by_cases hlast : u.getLast? = some newline
  · obtain ⟨t, rfl⟩ := List.getLast?_eq_some_iff.mp hlast
    have ht : ∀ c ∈ t, isprint c = true ∨ isspace c = true := fun c hc => hu c (List.mem_append_left _ hc)
    refine ⟨t ++ [0, 0], ?_, ?_⟩
    · rw [List.append_assoc]
      exact chomp_of_newline (fun c hc => ne_zero_of_printable (ht c hc)) c
    · by_cases hnil : t = []
      · subst hnil
        exact .inl rfl
      · rw [storedValue_append hnil fun c hc => ne_zero_of_printable (ht c hc)]
        refine .inr ⟨hnil, ?_, ht⟩
        rw [hlength, List.length_append]
        omega
  · refine ⟨u ++ [0], chomp_of_last hzero hlast c, ?_⟩
    by_cases hnil : u = []
    · subst hnil
      exact .inl rfl
    · rw [storedValue_append hnil hzero]
      refine .inr ⟨hnil, ?_, hu⟩
      rw [hlength]
      omega

/-! ## What is shown -/

lemma format_eq_text {len : ℕ} (alloc : Bool) (buffer : List UInt8) (hlen : strnlen buffer sizeIn = len)
    (hsize : len + 1 = sizeIn ∨ len = sizeIn)
    (hall : (buffer.take len).all (fun c => isprint c || isspace c) = true) (maxlen : ℕ) :
    xattrFormatValue alloc buffer sizeIn maxlen = formatText buffer sizeIn len maxlen := by
  unfold xattrFormatValue
  rw [hlen]
  exact if_pos ⟨hsize, hall⟩

/-- A text is shown as it is, with a newline. -/
lemma format_of_text (alloc : Bool) (rest : List UInt8) (hne : w ≠ []) (hw : ∀ c ∈ w, isprint c = true ∨ isspace c = true)
    (hfits : w.length + 1 < (w ++ rest).length) :
    ∃ buffer n, xattrFormatValue alloc (w ++ rest) w.length (w ++ rest).length = some (buffer, n) ∧
      (w.getLast? = some newline → n = w.length) ∧
      (w.getLast? ≠ some newline → n = w.length + 2 ∧ buffer.take n = w ++ [newline, 0]) := by
  have hpos : 0 < w.length := List.length_pos_iff.mpr hne
  have hlen : strnlen (w ++ rest) w.length = w.length := strnlen_append fun c hc => ne_zero_of_printable (hw c hc)
  have hall : ((w ++ rest).take w.length).all (fun c => isprint c || isspace c) = true := by
    rw [List.take_left, List.all_eq_true]
    intro c hc
    rw [Bool.or_eq_true]
    exact hw c hc
  have hget : (w ++ rest)[w.length - 1]? = w.getLast? := by
    rw [List.getElem?_append_left (by omega), List.getLast?_eq_getElem?]
  rw [format_eq_text alloc _ hlen (.inr rfl) hall, formatText, if_pos hfits, if_neg (Nat.ne_of_gt hpos), hget,
    List.getLast?_eq_some_getLast hne, Option.bind_some]
  by_cases hlast : w.getLast hne = newline
  · rw [if_neg (not_not.mpr hlast)]
    exact ⟨_, _, rfl, fun _ => rfl, fun h => absurd (congrArg some hlast) h⟩
  · have hput : w.length + ([newline, 0] : List UInt8).length ≤ (w ++ rest).length := hfits
    rw [if_pos hlast, put_eq hput]
    refine ⟨_, _, rfl, fun h => absurd (Option.some.inj h) hlast, fun _ => ⟨rfl, ?_⟩⟩
    rw [List.take_left]
    exact List.take_left' List.length_append

/-- A number of eight bytes has at most twenty digits. -/
lemma length_decimal {bytes : List UInt8} (h : bytes.length ≤ 8) : (decimal (littleEndian bytes)).length ≤ 20 := by
  have hlt : ∀ cs : List UInt8, littleEndian cs < Nat.pow 256 cs.length := by
    intro cs
    induction cs with
    | nil => decide
    | cons c cs ih =>
      have hc : c.toNat < 256 := c.toNat_lt
      have hpow : Nat.pow 256 (c :: cs).length = Nat.pow 256 cs.length * 256 := rfl
      have hcons : littleEndian (c :: cs) = c.toNat + 256 * littleEndian cs := rfl
      omega
  have hpow : Nat.pow 256 bytes.length ≤ Nat.pow 256 8 := Nat.pow_le_pow_right (by decide) h
  have hbound : littleEndian bytes < Nat.pow 10 20 :=
    Nat.lt_of_lt_of_le (hlt bytes) (Nat.le_trans hpow (by decide))
  rw [decimal, List.length_map]
  exact (Nat.length_toDigits_le_iff (by decide) (by decide)).mpr hbound

/-- A byte is shown by at most three characters. -/
lemma length_hexBytes (sizeIn : ℕ) (bytes : List UInt8) (i : ℕ) :
    (hexBytes sizeIn i bytes).length ≤ 3 * bytes.length := by
  induction bytes generalizing i with
  | nil => exact Nat.le_refl _
  | cons c cs ih =>
    have hcs := ih (i + 1)
    have hdot : (if i % 4 = 3 ∧ i + 1 ≠ sizeIn then [(46 : UInt8)] else []).length ≤ 1 := by
      by_cases h : i % 4 = 3 ∧ i + 1 ≠ sizeIn
      · rw [if_pos h]
        decide
      · rw [if_neg h]
        decide
    rw [hexBytes, List.length_cons, List.length_cons, List.length_append, List.length_cons]
    omega

/-- A number is shown inside the buffer. -/
lemma formatNumber_shown (hsize : sizeIn ≤ 8) (hmax : 22 ≤ maxlen) (hbuffer : buffer.length = maxlen) :
    ∃ after n, formatNumber buffer sizeIn maxlen = some (after, n) ∧ after.length = maxlen ∧ n ≤ maxlen := by
  have htake : (buffer.take sizeIn).length ≤ 8 := by
    rw [List.length_take]
    omega
  have hdecimal := length_decimal htake
  have hlength : (decimal (littleEndian (buffer.take sizeIn)) ++ [newline]).length =
      (decimal (littleEndian (buffer.take sizeIn))).length + 1 := List.length_append
  have hfits : 0 + ((decimal (littleEndian (buffer.take sizeIn)) ++ [newline]).take (maxlen - 1) ++ [0]).length ≤
      buffer.length := by
    rw [List.length_append, List.length_take, List.length_singleton]
    omega
  obtain ⟨after, hput⟩ : ∃ after, put buffer 0
      ((decimal (littleEndian (buffer.take sizeIn)) ++ [newline]).take (maxlen - 1) ++ [0]) = some after :=
    ⟨_, put_eq hfits⟩
  refine ⟨after, 1 + (decimal (littleEndian (buffer.take sizeIn)) ++ [newline]).length, ?_,
    (length_put hput).trans hbuffer, by omega⟩
  unfold formatNumber
  rw [if_neg (by omega), hput]
  rfl

/-- Bytes are shown inside the buffer. -/
lemma formatHexa_shown (alloc : Bool) (hsize : sizeIn ≤ maxlen) (hbuffer : buffer.length = maxlen) :
    ∃ after n, formatHexa alloc buffer sizeIn maxlen = some (after, n) ∧ after.length = maxlen ∧ n ≤ maxlen := by
  unfold formatHexa
  cases alloc with
  | false => exact ⟨_, _, rfl, hbuffer, hsize⟩
  | true =>
    rw [if_neg (by decide)]
    have htake : (buffer.take sizeIn).length = sizeIn := by
      rw [List.length_take]
      omega
    have hhex := length_hexBytes sizeIn (buffer.take sizeIn) 0
    generalize htext : [48, 120] ++ hexBytes sizeIn 0 (buffer.take sizeIn) ++ [newline] = text
    have hlength : text.length = 2 + (hexBytes sizeIn 0 (buffer.take sizeIn)).length + 1 := by
      rw [← htext, List.length_append, List.length_append]
      rfl
    have htmp : 0 + (text ++ [0]).length ≤ (List.replicate (3 * sizeIn + 4) (0 : UInt8)).length := by
      rw [List.length_append, List.length_replicate, List.length_singleton]
      omega
    have hfits : 0 + (text.take maxlen ++ List.replicate (maxlen - text.length) 0).length ≤ buffer.length := by
      rw [List.length_append, List.length_take, List.length_replicate]
      omega
    have hput := put_eq hfits
    refine ⟨_, _, ?_, (length_put hput).trans hbuffer, Nat.min_le_right (text.length + 1) maxlen⟩
    dsimp only
    rw [put_eq htmp, hput]
    rfl

/-- A value without text. -/
lemma format_of_no_text (alloc : Bool) (hmax : 2 < (value ++ rest).length) (hvalue : value = [] ∨ value = [0]) :
    xattrFormatValue alloc (value ++ rest) value.length (value ++ rest).length = none := by
  rcases hvalue with rfl | rfl
  · have hlen : strnlen ([] ++ rest) ([] : List UInt8).length = 0 := rfl
    rw [format_eq_text alloc _ hlen (.inr rfl) rfl, formatText, if_pos (by rw [List.length_nil]; omega), if_pos rfl]
  · have hlen : strnlen ([0] ++ rest) [(0 : UInt8)].length = 0 := rfl
    rw [format_eq_text alloc _ hlen (.inl rfl) rfl, formatText, if_pos (by rw [List.length_singleton]; omega),
      if_pos rfl]

/-- A value is shown within the buffer exactly if it is not empty and not the byte that stands for no text. -/
lemma formats_iff (alloc : Bool) (hmax : 22 ≤ (value ++ rest).length) :
    (∃ after n, xattrFormatValue alloc (value ++ rest) value.length (value ++ rest).length = some (after, n) ∧
      after.length = (value ++ rest).length ∧ n ≤ (value ++ rest).length) ↔ value ≠ [] ∧ value ≠ [0] := by
  constructor
  · rintro ⟨after, n, hformat, -⟩
    rw [← not_or]
    intro hvalue
    rw [format_of_no_text alloc (by omega) hvalue] at hformat
    cases hformat
  · rintro ⟨hnil, hzero⟩
    have hpos : 0 < value.length := List.length_pos_iff.mpr hnil
    have hsize : value.length ≤ (value ++ rest).length := by
      rw [List.length_append]
      omega
    unfold xattrFormatValue
    dsimp only
    generalize hlen : strnlen (value ++ rest) value.length = len
    -- a text takes the whole value, or all but a zero
    by_cases htext : (len + 1 = value.length ∨ len = value.length) ∧
        ((value ++ rest).take len).all (fun c => isprint c || isspace c) = true
    · rw [if_pos htext]
      have hne : len ≠ 0 := by
        rintro rfl
        rcases htext.1 with h | h
        · obtain ⟨c, rfl⟩ := List.length_eq_one_iff.mp h.symm
          by_cases hc : c = 0
          · exact hzero (congrArg (fun c => [c]) hc)
          · have hone : strnlen ([c] ++ rest) [c].length = 1 := strnlen_append fun d hd => by
              rwa [List.mem_singleton.mp hd]
            omega
        · omega
      unfold formatText
      by_cases hfits : value.length + 1 < (value ++ rest).length
      · obtain ⟨last, hlast⟩ : ∃ last, (value ++ rest)[len - 1]? = some last :=
          ⟨_, List.getElem?_eq_getElem (by omega)⟩
        rw [if_pos hfits, if_neg hne, hlast, Option.bind_some]
        by_cases hnew : last ≠ newline
        · have hput : len + ([newline, 0] : List UInt8).length ≤ (value ++ rest).length := by
            show len + 2 ≤ _
            omega
          rw [if_pos hnew, put_eq hput]
          exact ⟨_, _, rfl, length_put (put_eq hput), hfits⟩
        · rw [if_neg hnew]
          exact ⟨_, _, rfl, rfl, hsize⟩
      · rw [if_neg hfits]
        exact ⟨_, _, rfl, rfl, hsize⟩
    · rw [if_neg htext]
      by_cases hnumber : value.length = 1 ∨ value.length = 2 ∨ value.length = 4 ∨ value.length = 8
      · rw [if_pos hnumber]
        exact formatNumber_shown (by omega) hmax rfl
      · rw [if_neg hnumber]
        exact formatHexa_shown alloc hsize rfl

/-! ## The list of the attributes -/

/-- The attributes once one has a value. -/
def withValue (xattrs : XattrList) (name value : List UInt8) : XattrList :=
  if name ∈ xattrs.map Prod.fst then xattrs.map fun x => if x.1 = name then (name, value) else x
  else xattrs ++ [(name, value)]

/-- Setting a value adds at most its name. -/
lemma names_withValue (xattrs : XattrList) (name value : List UInt8) :
    (withValue xattrs name value).map Prod.fst = namesWith xattrs name := by
  unfold withValue namesWith
  by_cases h : name ∈ xattrs.map Prod.fst
  · rw [if_pos h, if_pos h, List.map_map]
    refine List.map_congr_left fun x _ => ?_
    show (if x.1 = name then (name, value) else x).1 = x.1
    by_cases hx : x.1 = name
    · rw [if_pos hx, hx]
    · rw [if_neg hx]
  · rw [if_neg h, if_neg h, List.map_append]
    rfl

lemma mem_namesWith (xattrs : XattrList) (name : List UInt8) : name ∈ namesWith xattrs name := by
  unfold namesWith
  by_cases h : name ∈ xattrs.map Prod.fst
  · rwa [if_pos h]
  · rw [if_neg h]
    exact List.mem_append_right _ (List.mem_singleton.mpr rfl)

/-- The value under the name is the one that was set. -/
lemma eq_of_mem_withValue {x : List UInt8 × List UInt8} (hmem : x ∈ withValue xattrs name value)
    (hname : x.1 = name) : x = (name, value) := by
  unfold withValue at hmem
  by_cases h : name ∈ xattrs.map Prod.fst
  · rw [if_pos h] at hmem
    obtain ⟨y, -, rfl⟩ := List.mem_map.mp hmem
    by_cases hy : y.1 = name
    · exact if_pos hy
    · rw [if_neg hy] at hname
      exact absurd hname hy
  · rw [if_neg h] at hmem
    rcases List.mem_append.mp hmem with hx | hx
    · exact absurd (hname ▸ List.mem_map_of_mem hx) h
    · exact List.mem_singleton.mp hx

/-- The value that was set is found. -/
lemma valueOf_withValue (xattrs : XattrList) (name value : List UInt8) :
    valueOf (withValue xattrs name value) name = some value := by
  unfold valueOf
  cases hfind : (withValue xattrs name value).find? fun x => decide (x.1 = name) with
  | none =>
    have hmem : name ∈ (withValue xattrs name value).map Prod.fst := by
      rw [names_withValue]
      exact mem_namesWith xattrs name
    obtain ⟨x, hx, hname⟩ := List.mem_map.mp hmem
    exact absurd (decide_eq_true hname) (List.find?_eq_none.mp hfind x hx)
  | some x =>
    have hname := List.find?_some hfind
    rw [eq_of_mem_withValue (List.mem_of_find?_eq_some hfind) (of_decide_eq_true hname)]
    rfl

/-- Setting a value again changes nothing. -/
lemma withValue_withValue (xattrs : XattrList) (name value : List UInt8) :
    withValue (withValue xattrs name value) name value = withValue xattrs name value := by
  have hmem : name ∈ (withValue xattrs name value).map Prod.fst := by
    rw [names_withValue]
    exact mem_namesWith xattrs name
  rw [withValue, if_pos hmem]
  refine (List.map_congr_left fun x hx => ?_).trans (List.map_id _)
  by_cases hname : x.1 = name
  · rw [if_pos hname]
    exact (eq_of_mem_withValue hx hname).symm
  · rw [if_neg hname]
    rfl

/-- The call does what its flag says. -/
lemma fsetxattr_eq (herrno : env.setErrno = none) (hcreate : create = true ↔ name ∉ xattrs.map Prod.fst)
    (value : List UInt8) : fsetxattr env xattrs name value create = .ok (withValue xattrs name value) := by
  unfold fsetxattr withValue
  rw [herrno]
  by_cases h : name ∈ xattrs.map Prod.fst
  · have hno : create ≠ true := fun hc => hcreate.mp hc h
    rw [if_neg hno, if_neg (not_not.mpr h), if_pos h]
  · rw [if_pos (hcreate.mpr h), if_neg h, if_neg h]

/-- A name that is listed has an id that leads back to it. -/
lemma xattrNameToId_spec (hmem : name ∈ xattrs.map Prod.fst) (hlist : listSize (xattrs.map Prod.fst) ≤ maxpathlen) :
    ∃ id, xattrNameToId xattrs name = some id ∧ ¬ id < xattrCount ∧ xattrIdToName xattrs id = .ok name := by
  have hnames : flistxattr xattrs = xattrs.map Prod.fst := if_pos hlist
  obtain ⟨i, hi⟩ := Option.isSome_iff_exists.mp (List.isSome_idxOf?.mpr hmem)
  obtain ⟨hlt, hget, -⟩ := List.idxOf?_eq_some_iff.mp hi
  refine ⟨i + xattrCount, ?_, ?_, ?_⟩
  · unfold xattrNameToId
    rw [hnames, hi]
    rfl
  · omega
  · unfold xattrIdToName
    rw [if_neg (by omega), Nat.add_sub_cancel, hnames, List.getElem?_eq_getElem hlt, hget]

/-! ## Reads and writes -/

/-- A value that can be written is stored without its last byte. -/
lemma set_eq {data : List UInt8} (h : Writable env s g create xattrs name)
    (hlen : s = .byId → name.length < fsalMaxNameLen) (hchomp : chompAttrValue data = some buffer) :
    s.set env xattrs name data create = some ⟨.noError, withValue xattrs name (storedValue buffer)⟩ := by
  have hvalue : ∀ c, (c = true ↔ name ∉ xattrs.map Prod.fst) → setXAttrValue env xattrs name data c =
      some ⟨.noError, withValue xattrs name (storedValue buffer)⟩ := by
    intro c hc
    unfold setXAttrValue
    rw [hchomp, Option.map_some, h.handle]
    dsimp only
    rw [fsetxattr_eq h.setErrno hc]
  cases s with
  | byName => exact hvalue create h.create_iff
  | byId =>
    have hmem := h.exists_of_byId rfl
    have hlisted := h.listed (.inl rfl)
    rw [namesWith, if_pos hmem] at hlisted
    obtain ⟨id, hid, hcount, hback⟩ := xattrNameToId_spec hmem hlisted
    unfold Access.set
    rw [hid]
    dsimp only
    unfold setXAttrValueById
    rw [if_neg hcount, h.handle]
    dsimp only
    rw [hback]
    dsimp only
    rw [if_pos (hlen rfl)]
    exact hvalue false ⟨fun hno => absurd hno Bool.false_ne_true, fun hno => absurd hmem hno⟩

/-- A name that is too long is written behind its buffer. -/
lemma set_eq_none {data : List UInt8} (h : Writable env s g create xattrs name) (hs : s = .byId)
    (hlen : ¬ name.length < fsalMaxNameLen) : s.set env xattrs name data create = none := by
  subst hs
  have hmem := h.exists_of_byId rfl
  have hlisted := h.listed (.inl rfl)
  rw [namesWith, if_pos hmem] at hlisted
  obtain ⟨id, hid, hcount, hback⟩ := xattrNameToId_spec hmem hlisted
  unfold Access.set
  rw [hid]
  dsimp only
  unfold setXAttrValueById
  rw [if_neg hcount, h.handle]
  dsimp only
  rw [hback]
  exact if_neg hlen

/-- A second write is allowed. -/
lemma Writable.again (h : Writable env s g create xattrs name) (value : List UInt8) :
    Writable env s g false (withValue xattrs name value) name := by
  have hnames := names_withValue xattrs name value
  have hmem : name ∈ (withValue xattrs name value).map Prod.fst := by
    rw [hnames]
    exact mem_namesWith xattrs name
  refine ⟨h.getattrs, h.handle, h.setErrno, h.user, h.named, ?_, fun _ => hmem, fun hid => ?_⟩
  · exact ⟨fun hno => absurd hno Bool.false_ne_true, fun hno => absurd hmem hno⟩
  · rw [namesWith, if_pos hmem, hnames]
    exact h.listed hid

/-- What is read is the value under the name. -/
lemma get_eq (h : Writable env s g create xattrs name) (value init : List UInt8) :
    g.get env (withValue xattrs name value) name init 0 =
      getValue env (withValue xattrs name value) name init 0 := by
  have hagain := h.again value
  cases g with
  | byName =>
    unfold Access.get getXAttrValueByName
    rw [h.getattrs]
    dsimp only
    rw [if_neg h.user, h.handle]
  | byId =>
    have hmem := not_not.mp (mt hagain.create_iff.mpr Bool.false_ne_true)
    have hlisted := hagain.listed (.inr rfl)
    rw [namesWith, if_pos hmem] at hlisted
    obtain ⟨id, hid, hcount, hback⟩ := xattrNameToId_spec hmem hlisted
    unfold Access.get
    rw [hid]
    dsimp only
    unfold getXAttrValueById
    rw [h.getattrs]
    dsimp only
    rw [if_neg hcount, h.handle]
    dsimp only
    rw [hback]

/-- A value that fits is formatted in the buffer. -/
lemma getValue_eq (hvalue : valueOf xattrs name = some value) (hfits : value.length ≤ init.length)
    (hinit : init.length ≠ 0) : getValue env xattrs name init 0 =
      (xattrFormatValue env.alloc (value ++ init.drop value.length) value.length
        (value ++ init.drop value.length).length).map fun r => ⟨.noError, r.1, r.2⟩ := by
  have hget : fgetxattr xattrs name init = .ok (value ++ init.drop value.length, value.length) := by
    unfold fgetxattr
    rw [hvalue]
    dsimp only
    rw [if_neg hinit, if_neg (Nat.not_lt.mpr hfits)]
  have hlength : (value ++ init.drop value.length).length = init.length := by
    rw [List.length_append, List.length_drop]
    omega
  unfold getValue
  rw [hget, hlength]

/-- The read of a value stays within the buffer exactly if the value is not empty and not the byte that stands
for no text. -/
lemma shown_iff (env : Env) (value : List UInt8) (hinit : init.length = xattrBuffersize) :
    (∀ xattrs name, valueOf xattrs name = some value → ∃ r, getValue env xattrs name init 0 = some r ∧
      r.buffer.length = init.length ∧ r.outputSize ≤ init.length) ↔ value ≠ [] ∧ value ≠ [0] := by
  have hpos : init.length ≠ 0 := by
    rw [hinit]
    decide
  by_cases hfits : value.length ≤ init.length
  · have hlength : (value ++ init.drop value.length).length = init.length := by
      rw [List.length_append, List.length_drop]
      omega
    have hmax : 22 ≤ (value ++ init.drop value.length).length := by
      rw [hlength, hinit]
      decide
    have hiff := formats_iff env.alloc hmax
    constructor
    · intro h
      obtain ⟨r, hr, hbuffer, hsize⟩ := h [([], value)] [] rfl
      rw [getValue_eq rfl hfits hpos] at hr
      obtain ⟨p, hformat, rfl⟩ := Option.map_eq_some_iff.mp hr
      exact hiff.mp ⟨p.1, p.2, hformat, hbuffer.trans hlength.symm, hlength.symm ▸ hsize⟩
    · intro h xattrs name hvalue
      obtain ⟨after, n, hformat, hbuffer, hsize⟩ := hiff.mpr h
      refine ⟨⟨.noError, after, n⟩, ?_, hbuffer.trans hlength, hlength ▸ hsize⟩
      rw [getValue_eq hvalue hfits hpos, hformat]
      rfl
  · have hlarge : 1 < value.length := by
      rw [hinit] at hfits
      have hsize : xattrBuffersize = 4096 := rfl
      omega
    refine ⟨fun _ => ⟨?_, ?_⟩, fun _ xattrs name hvalue => ⟨⟨.posix erange, init, 0⟩, ?_, rfl, Nat.zero_le _⟩⟩
    · rintro rfl
      exact absurd hlarge (by decide)
    · rintro rfl
      exact absurd hlarge (by decide)
    · unfold getValue fgetxattr
      rw [hvalue]
      dsimp only
      rw [if_neg hpos, if_pos (Nat.lt_of_not_le hfits)]

/-- A text with a newline is read back as it was set. -/
lemma readBack_newline (h : Writable env s g create xattrs name) (hw : Text w) (hinit : init.length = xattrBuffersize)
    (hlen : s = .byId → name.length < fsalMaxNameLen) :
    s.set env xattrs name (w ++ [newline]) create = some ⟨.noError, withValue xattrs name w⟩ ∧
    ∃ buffer, g.get env (withValue xattrs name w) name init 0 = some ⟨.noError, buffer, w.length + 2⟩ ∧
      buffer.take (w.length + 2) = w ++ [newline, 0] := by
  have hzero : ∀ c ∈ w, c ≠ 0 := fun c hc => ne_zero_of_printable (hw.printable c hc)
  have hsize : xattrBuffersize = 4096 := rfl
  have hfits := hw.fits
  constructor
  · rw [set_eq h hlen (chomp_of_last hzero hw.last newline), storedValue_append hw.nonempty hzero]
  · have hlength : (w ++ init.drop w.length).length = init.length := by
      rw [List.length_append, List.length_drop]
      omega
    obtain ⟨buffer, n, hformat, -, hn⟩ := format_of_text env.alloc (init.drop w.length) hw.nonempty
      hw.printable (by omega)
    obtain ⟨rfl, htake⟩ := hn hw.last
    refine ⟨buffer, ?_, htake⟩
    rw [get_eq h, getValue_eq (valueOf_withValue xattrs name w) (by omega) (by omega), hformat]
    rfl

/-- One without a newline is not. -/
lemma not_readBack_alone (h : Writable env s g create xattrs name) (hw : Text w)
    (hinit : init.length = xattrBuffersize) (hlen : s = .byId → name.length < fsalMaxNameLen)
    {xattrs' : XattrList} (hset : s.set env xattrs name w create = some ⟨.noError, xattrs'⟩) (buffer : List UInt8) :
    g.get env xattrs' name init 0 ≠ some ⟨.noError, buffer, w.length + 2⟩ := by
  have hsize : xattrBuffersize = 4096 := rfl
  have hfits := hw.fits
  obtain ⟨data, hchomp, hstored⟩ := chomp_alone hw.nonempty hw.printable
  rw [set_eq h hlen hchomp] at hset
  obtain rfl : withValue xattrs name (storedValue data) = xattrs' := by
    injection hset with hset
    injection hset
  rw [get_eq h]
  intro hget
  rcases hstored with hnone | ⟨hne, hshort, hprintable⟩
  · have hmax : 2 < ([0] ++ init.drop [(0 : UInt8)].length).length := by
      rw [List.length_append, List.length_drop, List.length_singleton]
      omega
    rw [hnone, getValue_eq (valueOf_withValue xattrs name [0]) (by rw [List.length_singleton]; omega) (by omega),
      format_of_no_text env.alloc hmax (.inr rfl)] at hget
    cases hget
  · obtain ⟨after, n, hformat, hlast, hnolast⟩ := format_of_text env.alloc
      (init.drop (storedValue data).length) hne hprintable (by rw [List.length_append, List.length_drop]; omega)
    rw [getValue_eq (valueOf_withValue xattrs name _) (by omega) (by omega), hformat] at hget
    have hn : n = w.length + 2 := by
      injection hget with hget
      injection hget
    by_cases hl : (storedValue data).getLast? = some newline
    · have := hlast hl
      omega
    · have := (hnolast hl).1
      omega

/-- A text comes back and values are shown within the buffer exactly if the text is sent with its newline, the
name of the attribute is not too long for a write by its id, and the value shown holds something. -/
theorem textLaws_iff {withNewline : Bool} (h : Writable env s g create xattrs name) (hw : Text w)
    (hinit : init.length = xattrBuffersize) (value : List UInt8) :
    TextLaws env s g create xattrs name w (sent w withNewline) init value ↔
      withNewline = true ∧ (s = .byId → name.length < fsalMaxNameLen) ∧ value ≠ [] ∧ value ≠ [0] := by
  constructor
  · intro hlaws
    obtain ⟨xattrs', buffer, hset, hget, -⟩ := hlaws.readBack
    have hlen : s = .byId → name.length < fsalMaxNameLen := by
      intro hs
      by_contra hlong
      rw [set_eq_none h hs hlong] at hset
      cases hset
    refine ⟨?_, hlen, (shown_iff env value hinit).mp hlaws.shown⟩
    by_contra hno
    rw [sent, if_neg hno] at hset
    exact not_readBack_alone h hw hinit hlen hset buffer hget
  · rintro ⟨rfl, hlen, hvalue⟩
    obtain ⟨hset, buffer, hget, htake⟩ := readBack_newline h hw hinit hlen
    refine ⟨⟨_, buffer, hset, hget, htake⟩, fun xattrs' r hset' hget' _ => ?_,
      (shown_iff env value hinit).mpr hvalue⟩
    have hxattrs : withValue xattrs name w = xattrs' := by
      have heq := hset.symm.trans hset'
      injection heq with heq
      injection heq
    subst hxattrs
    obtain rfl : _ = r := Option.some.inj (hget.symm.trans hget')
    have hzero : ∀ c ∈ w, c ≠ 0 := fun c hc => ne_zero_of_printable (hw.printable c hc)
    rw [htake, set_eq (h.again w) hlen (chomp_of_newline hzero 0), storedValue_append hw.nonempty hzero,
      withValue_withValue]

/-- A system without errors. -/
def sampleEnv : Env := ⟨none, none, none, true, ([], 0)⟩

/-- The sample may be written. -/
lemma sample_writable : Writable sampleEnv .byName .byName true [] [97] where
  getattrs := rfl
  handle := rfl
  setErrno := rfl
  user := by decide
  named := fun _ => by decide
  create_iff := by decide
  exists_of_byId := fun h => by cases h
  listed := fun h => by rcases h with h | h <;> cases h

lemma sample_text : Text [65, 66] :=
  ⟨by decide, List.forall_mem_cons.mpr ⟨.inl rfl, List.forall_mem_singleton.mpr (.inl rfl)⟩, by decide, by decide⟩

theorem textLaws_iff_sample : TextLaws sampleEnv .byName .byName true [] [97] [65, 66] (sent [65, 66] true)
    (List.replicate xattrBuffersize 0) [65] ↔
      true = true ∧ (Access.byName = .byId → [(97 : UInt8)].length < fsalMaxNameLen) ∧
        [(65 : UInt8)] ≠ [] ∧ [(65 : UInt8)] ≠ [0] :=
  textLaws_iff sample_writable sample_text List.length_replicate [65]

/-- A text of two characters that is sent alone loses one. -/
theorem not_textLaws_of_alone : ¬ ∀ (env : Env) (s g : Access) (create : Bool) (xattrs : XattrList)
    (name w init value : List UInt8) (withNewline : Bool), Writable env s g create xattrs name → Text w →
    init.length = xattrBuffersize → TextLaws env s g create xattrs name w (sent w withNewline) init value := by
  intro h
  have hinit : (List.replicate xattrBuffersize (0 : UInt8)).length = xattrBuffersize := List.length_replicate
  obtain ⟨xattrs', buffer, hset, hget, -⟩ :=
    (h sampleEnv .byName .byName true [] [97] [65, 66] _ [65] false sample_writable sample_text hinit).readBack
  exact not_readBack_alone sample_writable sample_text hinit (fun hs => by cases hs) hset buffer hget

end Ganesha.Fsal.Xattrs
