import Mathlib.Data.Nat.Digits.Defs
import Mathlib.Data.Nat.Digits.Lemmas
import Mathlib.Data.List.Perm.Basic
import Ganesha.FileContent.DirIter

/-!
# Names in the data cache

`HashFileID4`, `cache_content_create_name`, `cache_content_get_inum` and `cache_content_get_datapath` of
`File_Content/cache_content_misc.c`.

A function gives `none` where it writes behind the end of a buffer, or reads a string that has no end.
-/

namespace Ganesha.FileContent

/-- The values of `cache_content_status_t` that the functions here give. -/
inductive Status
  | success
  | invalidArgument
  | badCacheInodeEntry
  | entryExists
  | fsalError
  | localCacheError
  | mallocError
  deriving Repr, DecidableEq

/-! ## Formats -/

/-- `snprintf` into a buffer of `size` bytes. -/
def snprintf (size : ℕ) (s : Name) : Name := s.take (size - 1)

/-- A digit of `%X`. -/
def hexUpper (d : UInt8) : UInt8 := if d < 10 then 48 + d else 55 + d

/-- `%02hhX`. -/
def hhX (b : UInt8) : Name := [hexUpper (b / 16), hexUpper (b % 16)]

/-- A digit of `%x`. -/
def hexLower (d : ℕ) : UInt8 := if d < 10 then UInt8.ofNat (48 + d) else UInt8.ofNat (87 + d)

def llx (n : UInt64) : Name :=
  if n = 0 then [48] else (Nat.digits 16 n.toNat).reverse.map hexLower

/-- The value of a digit. -/
def hexValue (c : UInt8) : Option ℕ :=
  if 48 ≤ c ∧ c ≤ 57 then some (c.toNat - 48)
  else if 97 ≤ c ∧ c ≤ 102 then some (c.toNat - 87)
  else if 65 ≤ c ∧ c ≤ 70 then some (c.toNat - 55)
  else none

def isSpace (c : UInt8) : Bool := c = 32 || (9 ≤ c && c ≤ 13)

/-- The sign that may stand before a number. -/
def scanSign : Name → Bool × Name
  | 45 :: s => (true, s)
  | 43 :: s => (false, s)
  | s => (false, s)

/-- The `0x` that may stand before the digits. -/
def scan0x : Name → Name
  | 48 :: x :: s => if x = 120 || x = 88 then s else 48 :: x :: s
  | s => s

/-- `%llx` of `sscanf`. A number that is too large gives the largest one; without a digit it is `0`, which
is what `cache_content_get_inum` returns then. -/
def scanLlx (s : Name) : UInt64 :=
  let (neg, s) := scanSign (s.dropWhile isSpace)
  let digits := (scan0x s).takeWhile fun c => (hexValue c).isSome
  let value := digits.foldl (fun v c => 16 * v + (hexValue c).getD 0) 0
  if 2 ^ 64 ≤ value then UInt64.ofNat (2 ^ 64 - 1)
  else if neg then -UInt64.ofNat value
  else UInt64.ofNat value

/-! ## The functions -/

/-- `HashFileID4`. The sum and the remainder are unsigned, and the remainder is cut to a `short`. -/
def hashFileID4 (fileid4 : UInt64) : Int16 :=
  ([0, 8, 16, 24, 32, 40, 48, 56] : List UInt64).foldl (fun hashVal i =>
    (((hashVal.toInt64 * 16).toUInt64 + ((fileid4 >>> i) &&& 0xFF)) % 65521).toUInt16.toInt16) 0

/-- `(char)((hash_val >> i) & 0xFF)`. -/
def hashByte (hashVal i : Int16) : UInt8 := (hashVal >>> i).toUInt16.toUInt8

/-- `/export_id=0`. -/
def exportId : Name := [47, 101, 120, 112, 111, 114, 116, 95, 105, 100, 61, 48]

/-- `node=`. -/
def nodePrefix : Name := [110, 111, 100, 101, 61]

/-- `index`. -/
def indexSuffix : Name := [105, 110, 100, 101, 120]

/-- `.data`. -/
def dotData : Name := [46, 100, 97, 116, 97]

/-- `.index`. -/
def dotIndex : Name := 46 :: indexSuffix

/-- `cache_content_nametype_t`. -/
inductive NameType
  | unassigned
  | dataFile
  | indexFile
  | dir

/-- What the calls of `cache_content_create_name` give. -/
structure NameEnv where
  /-- `cache_inode_get_fsal_handle` gives a handle. -/
  handle : Bool
  /-- `FSAL_DigestHandle`. -/
  digest : Option UInt64
  /-- `mkdir` makes the directory, or there is one. -/
  mkdir : Name → Bool

/-- The directories of the two levels are appended to `entrydir`, and made. `nb_char` is the length without
the bound of the buffer: behind it, the room that is left is a very large number. -/
def makeEntrydir (env : NameEnv) (hashVal : Int16) : List Int16 → Name → ℕ → Option (Except Status Name)
  | [], entrydir, _ => some (.ok entrydir)
  | i :: is, entrydir, nbChar =>
    if maxpathlen < nbChar then none
    else
      let s := slash :: hhX (hashByte hashVal i)
      let entrydir := entrydir ++ snprintf (maxpathlen - nbChar) s
      if env.mkdir entrydir then makeEntrydir env hashVal is entrydir (nbChar + s.length)
      else some (.error .localCacheError)

def cacheContentCreateName (cacheDir : Name) (type : NameType) (env : NameEnv) :
    Option (Except Status Name) :=
  if !env.handle then some (.error .badCacheInodeEntry)
  else match env.digest with
    | none => some (.error .fsalError)
    | some fileid4 =>
      let root := cacheDir ++ exportId
      (makeEntrydir env (hashFileID4 fileid4) [0, 8] (snprintf maxpathlen root) root.length).map fun r =>
        r.bind fun entrydir => match type with
          | .dataFile =>
            .ok (snprintf maxpathlen (entrydir ++ slash :: nodePrefix ++ llx fileid4 ++ dotData))
          | .indexFile =>
            .ok (snprintf maxpathlen (entrydir ++ slash :: nodePrefix ++ llx fileid4 ++ dotIndex))
          | .dir => .ok (snprintf maxpathlen root)
          | .unassigned => .error .invalidArgument

/-- `basename`, of a path that is not empty. -/
def basename (path : Name) : Name :=
  ((path.reverse.dropWhile (· = slash)).takeWhile (· ≠ slash)).reverse

/-- `cache_content_get_inum`. A name of `MAXNAMLEN` bytes or more leaves no room for the end in `buff`. -/
def cacheContentGetInum (filename : Name) : Option UInt64 :=
  if maxnamlen ≤ filename.length then none
  else
    let bname := basename filename
    if bname.take nodePrefix.length ≠ nodePrefix then some 0
    else if bname.drop (bname.length - 5) ≠ indexSuffix then some 0
    else some (scanLlx (bname.drop nodePrefix.length))

def cacheContentGetDatapath (basepath : Name) (inum : UInt64) : Name :=
  let hashVal := hashFileID4 inum
  snprintf maxpathlen (basepath ++ slash :: hhX (hashByte hashVal 0) ++ slash :: hhX (hashByte hashVal 8) ++
    slash :: nodePrefix ++ llx inum ++ dotData)

/-! ## Numbers -/

lemma hexValue_hexLower : ∀ d < 16, hexValue (hexLower d) = some d := by
  decide

/-- The printed digits are hexadecimal digits. -/
lemma hexValue_of_mem_llx {n : UInt64} {c : UInt8} (hc : c ∈ llx n) : (hexValue c).isSome = true := by
  unfold llx at hc
  by_cases hzero : n = 0
  · rw [if_pos hzero, List.mem_singleton] at hc
    rw [hc]
    rfl
  · rw [if_neg hzero] at hc
    obtain ⟨d, hd, rfl⟩ := List.mem_map.mp hc
    have hd := List.mem_reverse.mp hd
    rw [hexValue_hexLower d (Nat.digits_lt_base (by omega) hd)]
    rfl

/-- The digits printed for a number read back as the number. -/
lemma foldl_llx (n : UInt64) :
    (llx n).foldl (fun v c => 16 * v + (hexValue c).getD 0) 0 = n.toNat := by
  unfold llx
  by_cases hzero : n = 0
  · rw [if_pos hzero, hzero]
    rfl
  rw [if_neg hzero, List.foldl_map, List.foldl_reverse]
  have hstep : ∀ l : List ℕ, (∀ d ∈ l, d < 16) →
      l.foldr (fun d v => 16 * v + (hexValue (hexLower d)).getD 0) 0 = Nat.ofDigits 16 l := by
    intro l hl
    induction l with
    | nil => rfl
    | cons d l ih =>
      rw [List.foldr_cons, ih fun d hd => hl d (List.mem_cons_of_mem _ hd), Nat.ofDigits_cons,
        hexValue_hexLower d (hl d List.mem_cons_self)]
      show 16 * Nat.ofDigits 16 l + d = d + 16 * Nat.ofDigits 16 l
      omega
  rw [hstep _ fun d hd => Nat.digits_lt_base (by omega) hd, Nat.ofDigits_digits]

/-- A number is printed with one digit at least. -/
lemma llx_ne_nil (n : UInt64) : llx n ≠ [] := by
  unfold llx
  by_cases hzero : n = 0
  · rw [if_pos hzero]
    exact List.cons_ne_nil _ _
  · rw [if_neg hzero]
    intro hnil
    have hnil := List.reverse_eq_nil_iff.mp (List.map_eq_nil_iff.mp hnil)
    rw [Nat.digits_eq_nil_iff_eq_zero] at hnil
    exact hzero (UInt64.toNat.inj hnil)

/-- A digit is no blank, no sign and no `x`. -/
lemma digit_plain {c : UInt8} (hc : (hexValue c).isSome = true) :
    isSpace c = false ∧ c ≠ 45 ∧ c ≠ 43 ∧ c ≠ 120 ∧ c ≠ 88 := by
  refine ⟨?_, ?_, ?_, ?_, ?_⟩
  · have hlarge : 48 ≤ c := by
      unfold hexValue at hc
      split_ifs at hc with hdec hlow hup
      · exact hdec.1
      · exact UInt8.le_trans (by decide) hlow.1
      · exact UInt8.le_trans (by decide) hup.1
      · cases hc
    have hlarge : 48 ≤ c.toNat := hlarge
    unfold isSpace
    rw [Bool.or_eq_false_iff, Bool.and_eq_false_iff, decide_eq_false_iff_not, decide_eq_false_iff_not,
      decide_eq_false_iff_not]
    constructor
    · rintro rfl
      exact absurd hlarge (by decide)
    · right
      intro hle
      have hle : c.toNat ≤ 13 := hle
      omega
  all_goals
    rintro rfl
    cases hc

lemma scanSign_of_ne {c : UInt8} {s : Name} (hminus : c ≠ 45) (hplus : c ≠ 43) :
    scanSign (c :: s) = (false, c :: s) := by
  unfold scanSign
  split
  next heq => exact absurd (List.cons.inj heq).1 hminus
  next heq => exact absurd (List.cons.inj heq).1 hplus
  next => rfl

/-- Without an `x` in second place nothing is skipped. -/
lemma scan0x_of_ne {c x : UInt8} {s : Name} (hlow : x ≠ 120) (hup : x ≠ 88) :
    scan0x (c :: x :: s) = c :: x :: s := by
  unfold scan0x
  split
  next x' s' heq =>
    obtain ⟨rfl, hrest⟩ := List.cons.inj heq
    obtain ⟨rfl, rfl⟩ := List.cons.inj hrest
    rw [if_neg]
    rw [Bool.or_eq_true, decide_eq_true_eq, decide_eq_true_eq]
    exact not_or.mpr ⟨hlow, hup⟩
  next => rfl

/-- The scan stops at the dot and returns the number printed. -/
lemma scanLlx_llx (n : UInt64) (rest : Name) : scanLlx (llx n ++ 46 :: rest) = n := by
  have hdigits : ∀ c ∈ llx n, (hexValue c).isSome = true := fun c hc => hexValue_of_mem_llx hc
  have htake : (llx n ++ 46 :: rest).takeWhile (fun c => (hexValue c).isSome) = llx n := by
    rw [List.takeWhile_append_of_pos hdigits]
    exact List.append_nil _
  have hvalue := foldl_llx n
  have hlt : n.toNat < 2 ^ 64 := n.toNat_lt
  have hspace : (llx n ++ 46 :: rest).dropWhile isSpace = llx n ++ 46 :: rest := by
    obtain ⟨c, l, hl⟩ := List.exists_cons_of_ne_nil (llx_ne_nil n)
    rw [hl] at hdigits ⊢
    have hplain := digit_plain (hdigits c List.mem_cons_self)
    rw [List.cons_append, List.dropWhile_cons_of_neg (by rw [hplain.1]; decide)]
  have hsign : scanSign (llx n ++ 46 :: rest) = (false, llx n ++ 46 :: rest) := by
    obtain ⟨c, l, hl⟩ := List.exists_cons_of_ne_nil (llx_ne_nil n)
    rw [hl] at hdigits ⊢
    have hplain := digit_plain (hdigits c List.mem_cons_self)
    exact scanSign_of_ne hplain.2.1 hplain.2.2.1
  have h0x : scan0x (llx n ++ 46 :: rest) = llx n ++ 46 :: rest := by
    obtain ⟨c, l, hl⟩ := List.exists_cons_of_ne_nil (llx_ne_nil n)
    rw [hl] at hdigits ⊢
    cases l with
    | nil => exact scan0x_of_ne (by decide) (by decide)
    | cons x l =>
      have hplain := digit_plain (hdigits x (List.mem_cons_of_mem _ List.mem_cons_self))
      exact scan0x_of_ne hplain.2.2.2.1 hplain.2.2.2.2
  unfold scanLlx
  rw [hspace, hsign]
  show (if 2 ^ 64 ≤ ((scan0x (llx n ++ 46 :: rest)).takeWhile _).foldl _ 0 then _ else _) = n
  rw [h0x, htake, hvalue, if_neg (by omega)]
  exact UInt64.ofNat_toNat

/-! ## Paths -/

/-- The path of a file in the directory of an export. -/
def relName (fileid : UInt64) (suffix : Name) : Name :=
  hhX (hashByte (hashFileID4 fileid) 0) ++ slash :: hhX (hashByte (hashFileID4 fileid) 8) ++
    slash :: nodePrefix ++ llx fileid ++ suffix

/-- The path of the index file. -/
def relIndex (fileid : UInt64) : Name := relName fileid dotIndex

/-- The path of the data file. -/
def relData (fileid : UInt64) : Name := relName fileid dotData

/-- At most sixteen digits. -/
lemma length_llx_le (n : UInt64) : (llx n).length ≤ 16 := by
  unfold llx
  by_cases hzero : n = 0
  · rw [if_pos hzero]
    show 1 ≤ 16
    omega
  · rw [if_neg hzero, List.length_map, List.length_reverse]
    have hlt : n.toNat < 16 ^ 16 := n.toNat_lt
    exact (Nat.digits_length_le_iff (by omega) _).mpr hlt

lemma length_relName (fileid : UInt64) (suffix : Name) :
    (relName fileid suffix).length = 11 + (llx fileid).length + suffix.length := by
  unfold relName
  simp only [List.length_append, List.length_cons]
  show 2 + (2 + 1) + (5 + 1) + _ + _ = _
  omega

/-- A file name has no slash. -/
lemma slash_notMem_node (fileid : UInt64) {suffix : Name} (hsuffix : slash ∉ suffix) :
    slash ∉ nodePrefix ++ llx fileid ++ suffix := by
  rw [List.mem_append, List.mem_append]
  rintro ((hmem | hmem) | hmem)
  · revert hmem
    decide
  · exact absurd (hexValue_of_mem_llx hmem) (by decide)
  · exact hsuffix hmem

/-- The last part of a path. -/
lemma basename_append {path name : Name} (hne : name ≠ []) (hname : slash ∉ name) :
    basename (path ++ slash :: name) = name := by
  have hsplit : (path ++ slash :: name).reverse = name.reverse ++ slash :: path.reverse := by
    rw [List.reverse_append, List.reverse_cons, List.append_assoc]
    rfl
  have hslash : ∀ c ∈ name.reverse, decide (c ≠ slash) = true := by
    intro c hc
    rw [decide_eq_true_eq]
    rintro rfl
    exact hname (List.mem_reverse.mp hc)
  have hdrop : (name.reverse ++ slash :: path.reverse).dropWhile (fun c => decide (c = slash)) =
      name.reverse ++ slash :: path.reverse := by
    obtain ⟨c, l, hl⟩ := List.exists_cons_of_ne_nil (List.reverse_ne_nil_iff.mpr hne)
    rw [hl] at hslash ⊢
    have hc := of_decide_eq_true (hslash c List.mem_cons_self)
    rw [List.cons_append, List.dropWhile_cons_of_neg (by rw [decide_eq_true_eq]; exact hc)]
  unfold basename
  rw [hsplit, hdrop, List.takeWhile_append_of_pos hslash, List.takeWhile_cons_of_neg (by decide),
    List.append_nil, List.reverse_reverse]

/-- The fileid is read back from the path of an index file. -/
lemma getInum_index (path : Name) (fileid : UInt64)
    (hlen : (path ++ slash :: nodePrefix ++ llx fileid ++ dotIndex).length < maxnamlen) :
    cacheContentGetInum (path ++ slash :: nodePrefix ++ llx fileid ++ dotIndex) = some fileid := by
  have hsplit : path ++ slash :: nodePrefix ++ llx fileid ++ dotIndex =
      path ++ slash :: (nodePrefix ++ llx fileid ++ dotIndex) := by
    simp only [List.append_assoc, List.cons_append]
  have hbase : basename (path ++ slash :: nodePrefix ++ llx fileid ++ dotIndex) =
      nodePrefix ++ llx fileid ++ dotIndex := by
    rw [hsplit]
    exact basename_append (List.cons_ne_nil _ _) (slash_notMem_node fileid (by decide))
  have htake : (nodePrefix ++ llx fileid ++ dotIndex).take nodePrefix.length = nodePrefix := by
    rw [List.append_assoc, List.take_left]
  have hlast : (nodePrefix ++ llx fileid ++ dotIndex).drop
      ((nodePrefix ++ llx fileid ++ dotIndex).length - 5) = indexSuffix := by
    have hcut : nodePrefix ++ llx fileid ++ dotIndex = (nodePrefix ++ llx fileid ++ [46]) ++ indexSuffix := by
      rw [List.append_assoc, List.append_assoc, List.append_assoc]
      rfl
    rw [hcut, List.length_append]
    exact List.drop_left
  have hdrop : (nodePrefix ++ llx fileid ++ dotIndex).drop nodePrefix.length = llx fileid ++ dotIndex := by
    rw [List.append_assoc, List.drop_left]
  unfold cacheContentGetInum
  rw [if_neg (by omega)]
  show (if (basename _).take _ ≠ _ then _ else _) = _
  rw [hbase, htake, if_neg (not_not_intro rfl), hlast, if_neg (not_not_intro rfl), hdrop]
  exact congrArg some (scanLlx_llx fileid indexSuffix)

/-- The fileid from the relative path. -/
lemma getInum_relIndex (fileid : UInt64) : cacheContentGetInum (relIndex fileid) = some fileid := by
  have hlen := length_relName fileid dotIndex
  have hle := length_llx_le fileid
  apply getInum_index
  show (relName fileid dotIndex).length < 255
  rw [hlen]
  show 11 + _ + 6 < 255
  omega

lemma relIndex_inj {fileid fileid' : UInt64} (h : relIndex fileid = relIndex fileid') : fileid = fileid' := by
  have hinum := getInum_relIndex fileid
  rw [h, getInum_relIndex] at hinum
  exact (Option.some.inj hinum).symm

lemma relName_inj {fileid fileid' : UInt64} {suffix : Name} (h : relName fileid suffix = relName fileid' suffix) :
    fileid = fileid' :=
  relIndex_inj (congrArg (· ++ dotIndex) (List.append_cancel_right h))

/-! ## What `cache_content_create_name` makes -/

/-- Nothing fails, and the file has this number. -/
structure NameEnv.Works (env : NameEnv) (fileid : UInt64) : Prop where
  handle : env.handle = true
  digest : env.digest = some fileid
  mkdir : ∀ path, env.mkdir path = true

variable {env : NameEnv} {fileid fileid' : UInt64} {cacheDir : Name} {type : NameType}

/-- The directories made one below the other, as long as they fit. -/
lemma makeEntrydir_of_short (hmkdir : ∀ path, env.mkdir path = true) (hashVal : Int16) (is : List Int16)
    (entrydir : Name) (nbChar : ℕ) (hlen : nbChar + 3 * is.length < maxpathlen) :
    makeEntrydir env hashVal is entrydir nbChar =
      some (.ok (entrydir ++ is.flatMap fun i => slash :: hhX (hashByte hashVal i))) := by
  induction is generalizing entrydir nbChar with
  | nil => rw [makeEntrydir, List.flatMap_nil, List.append_nil]
  | cons i is ih =>
    rw [List.length_cons] at hlen
    have hfits : snprintf (maxpathlen - nbChar) (slash :: hhX (hashByte hashVal i)) =
        slash :: hhX (hashByte hashVal i) := by
      apply List.take_of_length_le
      show 3 ≤ maxpathlen - nbChar - 1
      omega
    rw [makeEntrydir, if_neg (by omega)]
    show (if env.mkdir (entrydir ++ snprintf (maxpathlen - nbChar) _) = true then _ else _) = _
    have hnext := ih (entrydir ++ slash :: hhX (hashByte hashVal i))
      (nbChar + (slash :: hhX (hashByte hashVal i)).length) (show nbChar + 3 + 3 * is.length < maxpathlen by omega)
    rw [if_pos (hmkdir _), hfits, hnext, List.flatMap_cons, List.append_assoc]

/-- With room for the name the path is the one the tree expects. -/
lemma createName_of_short (hworks : env.Works fileid) (hshort : cacheDir.length ≤ 208) :
    cacheContentCreateName cacheDir .indexFile env =
        some (.ok (cacheDir ++ exportId ++ slash :: relIndex fileid)) ∧
      cacheContentCreateName cacheDir .dataFile env =
        some (.ok (cacheDir ++ exportId ++ slash :: relData fileid)) := by
  have hroot : (cacheDir ++ exportId).length = cacheDir.length + 12 := List.length_append
  have hdirs := makeEntrydir_of_short hworks.mkdir (hashFileID4 fileid) [0, 8] (cacheDir ++ exportId)
    (cacheDir ++ exportId).length (by rw [hroot]; show _ + 12 + 6 < 4096; omega)
  have hcut : snprintf maxpathlen (cacheDir ++ exportId) = cacheDir ++ exportId := by
    apply List.take_of_length_le
    rw [hroot]
    show _ ≤ 4095
    omega
  have hname : ∀ suffix : Name, suffix.length ≤ 6 →
      snprintf maxpathlen (cacheDir ++ exportId ++ ([0, 8].flatMap fun i =>
        slash :: hhX (hashByte (hashFileID4 fileid) i)) ++ slash :: nodePrefix ++ llx fileid ++ suffix) =
      cacheDir ++ exportId ++ slash :: relName fileid suffix := by
    intro suffix hsuffix
    have heq : cacheDir ++ exportId ++ ([0, 8].flatMap fun i =>
        slash :: hhX (hashByte (hashFileID4 fileid) i)) ++ slash :: nodePrefix ++ llx fileid ++ suffix =
        cacheDir ++ exportId ++ slash :: relName fileid suffix := by
      unfold relName
      simp only [List.flatMap_cons, List.flatMap_nil, List.append_nil, List.append_assoc, List.cons_append]
    have hle := length_llx_le fileid
    rw [heq]
    apply List.take_of_length_le
    rw [List.length_append, List.length_cons, length_relName, hroot]
    show _ ≤ 4095
    omega
  unfold cacheContentCreateName
  simp only [hworks.handle, hworks.digest, Bool.not_true, Bool.false_eq_true, if_false, hcut, hdirs,
    Option.map_some]
  exact ⟨congrArg (some ∘ Except.ok) (hname dotIndex (by decide)),
    congrArg (some ∘ Except.ok) (hname dotData (by decide))⟩

/-- The length printed so far, cut to the buffer. -/
lemma length_makeEntrydir {hashVal : Int16} {is : List Int16} {entrydir entrydir' : Name} {nbChar : ℕ}
    (hlen : entrydir.length = min (maxpathlen - 1) nbChar)
    (hmade : makeEntrydir env hashVal is entrydir nbChar = some (.ok entrydir')) :
    entrydir'.length = min (maxpathlen - 1) (nbChar + 3 * is.length) := by
  induction is generalizing entrydir nbChar with
  | nil =>
    cases hmade
    exact hlen
  | cons i is ih =>
    rw [makeEntrydir] at hmade
    by_cases hover : maxpathlen < nbChar
    · rw [if_pos hover] at hmade
      cases hmade
    rw [if_neg hover] at hmade
    have hcut : (snprintf (maxpathlen - nbChar) (slash :: hhX (hashByte hashVal i))).length =
        min (maxpathlen - nbChar - 1) 3 := List.length_take
    by_cases hmkdir : env.mkdir (entrydir ++ snprintf (maxpathlen - nbChar)
        (slash :: hhX (hashByte hashVal i))) = true
    · have hmade : makeEntrydir env hashVal is (entrydir ++ snprintf (maxpathlen - nbChar)
          (slash :: hhX (hashByte hashVal i))) (nbChar + 3) = some (.ok entrydir') := by
        rw [← hmade]
        exact (if_pos hmkdir).symm
      rw [ih (by rw [List.length_append, hcut, hlen]; omega) hmade, List.length_cons]
      omega
    · have hmade : some (Except.error Status.localCacheError) = some (Except.ok entrydir') := by
        rw [← hmade]
        exact (if_neg hmkdir).symm
      cases hmade

/-- A name that was made is at least as long as its parts. -/
lemma length_createName {index : Name} (hdigest : env.digest = some fileid)
    (hmade : cacheContentCreateName cacheDir .indexFile env = some (.ok index)) :
    min (maxpathlen - 1) (cacheDir.length + 30 + (llx fileid).length) ≤ index.length := by
  unfold cacheContentCreateName at hmade
  by_cases hhandle : (!env.handle) = true
  · rw [if_pos hhandle] at hmade
    cases hmade
  rw [if_neg hhandle, hdigest] at hmade
  obtain ⟨r, hdirs, hindex⟩ := Option.map_eq_some_iff.mp hmade
  cases r with
  | error e => cases hindex
  | ok entrydir =>
    have hroot : (cacheDir ++ exportId).length = cacheDir.length + 12 := List.length_append
    have hlen := length_makeEntrydir (by
      show (List.take (4096 - 1) _).length = _
      rw [List.length_take]) hdirs
    have hcut : (snprintf maxpathlen (entrydir ++ slash :: nodePrefix ++ llx fileid ++ dotIndex)).length =
        min (maxpathlen - 1) (entrydir ++ slash :: nodePrefix ++ llx fileid ++ dotIndex).length :=
      List.length_take
    have hlong : (entrydir ++ slash :: nodePrefix ++ llx fileid ++ dotIndex).length =
        entrydir.length + 6 + (llx fileid).length + 6 := by
      rw [List.length_append, List.length_append, List.length_append]
      rfl
    cases hindex
    rw [hcut, hlong, hlen, hroot]
    show min 4095 _ ≤ min 4095 (min 4095 (cacheDir.length + 12 + 3 * 2) + 6 + _ + 6)
    omega

/-- What is made can be read back and made again, and two files have different names. -/
structure NamingLaw (cacheDir : Name) : Prop where
  inum : ∀ fileid env, env.Works fileid → ∃ index,
    cacheContentCreateName cacheDir .indexFile env = some (.ok index) ∧
      cacheContentGetInum index = some fileid
  datapath : ∀ fileid env, env.Works fileid → cacheContentCreateName cacheDir .dataFile env =
    some (.ok (cacheContentGetDatapath (cacheDir ++ exportId) fileid))
  distinct : ∀ fileid fileid' env env', env.Works fileid → env'.Works fileid' → fileid ≠ fileid' →
    cacheContentCreateName cacheDir .indexFile env ≠ cacheContentCreateName cacheDir .indexFile env' ∧
      cacheContentCreateName cacheDir .dataFile env ≠ cacheContentCreateName cacheDir .dataFile env'

/-- The data path beside an index path. -/
lemma getDatapath_eq {basepath : Name} (hshort : basepath.length ≤ 220) (fileid : UInt64) :
    cacheContentGetDatapath basepath fileid = basepath ++ slash :: relData fileid := by
  have hle := length_llx_le fileid
  unfold cacheContentGetDatapath relData relName
  simp only [List.append_assoc, List.cons_append]
  apply List.take_of_length_le
  have hlen := length_relName fileid dotData
  unfold relName at hlen
  simp only [List.append_assoc, List.cons_append] at hlen
  rw [List.length_append, List.length_cons, hlen]
  show _ + (_ + 5 + 1) ≤ 4095
  omega

/-- Names lead back to their fileid exactly for cache directories of at most 208 bytes. -/
theorem namingLaw_iff (cacheDir : Name) : NamingLaw cacheDir ↔ cacheDir.length ≤ 208 := by
  constructor
  · intro h
    -- the number with the longest name
    obtain ⟨index, hindex, hinum⟩ := h.inum 0xFFFFFFFFFFFFFFFF ⟨true, some 0xFFFFFFFFFFFFFFFF, fun _ => true⟩
      ⟨rfl, rfl, fun _ => rfl⟩
    have hlen := length_createName rfl hindex
    have hdigits : (llx 0xFFFFFFFFFFFFFFFF).length = 16 := by decide +kernel
    unfold cacheContentGetInum at hinum
    by_cases hlong : maxnamlen ≤ index.length
    · rw [if_pos hlong] at hinum
      cases hinum
    · rw [hdigits] at hlen
      change min 4095 _ ≤ _ at hlen
      change ¬ 255 ≤ _ at hlong
      omega
  · intro hshort
    have hroot : (cacheDir ++ exportId).length = cacheDir.length + 12 := List.length_append
    refine ⟨fun fileid env hworks => ?_, fun fileid env hworks => ?_, ?_⟩
    · refine ⟨_, (createName_of_short hworks hshort).1, ?_⟩
      have hle := length_llx_le fileid
      have hsplit : cacheDir ++ exportId ++ slash :: relIndex fileid =
          (cacheDir ++ exportId ++ slash :: (hhX (hashByte (hashFileID4 fileid) 0) ++
            slash :: hhX (hashByte (hashFileID4 fileid) 8))) ++
            slash :: nodePrefix ++ llx fileid ++ dotIndex := by
        unfold relIndex relName
        simp only [List.append_assoc, List.cons_append]
      have hlen := length_relName fileid dotIndex
      rw [hsplit]
      apply getInum_index
      rw [← hsplit, List.length_append, List.length_cons, hroot]
      show _ + ((relName fileid dotIndex).length + 1) < 255
      rw [hlen]
      show _ + (11 + _ + 6 + 1) < 255
      omega
    · rw [getDatapath_eq (by omega)]
      exact (createName_of_short hworks hshort).2
    · intro fileid fileid' env env' hworks hworks' hne
      obtain ⟨hindex, hdata⟩ := createName_of_short hworks hshort
      obtain ⟨hindex', hdata'⟩ := createName_of_short hworks' hshort
      rw [hindex, hdata, hindex', hdata']
      constructor
      · intro heq
        have heq := List.append_cancel_left (Except.ok.inj (Option.some.inj heq))
        exact hne (relName_inj (List.cons.inj heq).2)
      · intro heq
        have heq := List.append_cancel_left (Except.ok.inj (Option.some.inj heq))
        exact hne (relName_inj (List.cons.inj heq).2)

end Ganesha.FileContent
