import Mathlib.Data.Int.Basic
import Mathlib.Data.List.Basic

/-!
# Digests and comparisons of handles

`fsal_tools.c` of the back ends for POSIX, LUSTRE, XFS and GPFS. A handle is the memory from its address on,
with what lies behind it, and so is a digest. The digests of file ids are left out.
-/

namespace Ganesha.Fsal.Tools

/-! ## Memory -/

/-- The bytes from an address on. -/
abbrev Mem := ℕ → UInt8

/-- A number of 32 bits. -/
def at32 (m : Mem) (off : ℕ) : UInt32 :=
  (m off).toUInt32 ||| (m (off + 1)).toUInt32 <<< 8 ||| (m (off + 2)).toUInt32 <<< 16 |||
    (m (off + 3)).toUInt32 <<< 24

/-- A number of 64 bits. -/
def at64 (m : Mem) (off : ℕ) : UInt64 := (at32 m off).toUInt64 ||| (at32 m (off + 4)).toUInt64 <<< 32

/-- `memset` of `size` bytes to zero, and `memcpy` of `n` bytes. -/
def copyOver (n size : ℕ) (src old : Mem) : Mem := fun i => if i < n then src i else if i < size then 0 else old i

def memcmp : ℕ → Mem → Mem → ℤ
  | 0, _, _ => 0
  | n + 1, a, b =>
    if a 0 = b 0 then memcmp n (fun i => a (i + 1)) fun i => b (i + 1) else if a 0 < b 0 then -1 else 1

/-- The versions of NFS. -/
inductive Version
  | v2
  | v3
  | v4

/-- `FSAL_DIGEST_SIZE_HDLV2`, `FSAL_DIGEST_SIZE_HDLV3` and `FSAL_DIGEST_SIZE_HDLV4`. -/
def Version.digestSize : Version → ℕ
  | .v2 => 29
  | .v3 => 61
  | .v4 => 93

def fsalHandleTSize : ℕ := 148

/-! ## POSIX -/

/-- `sizeof(posixfsal_handle_t)`. -/
def posixHandleSize (shared : Bool) : ℕ := if shared then fsalHandleTSize else 56

/-- `data.id`. -/
def posixId (h : Mem) : UInt64 := at64 h 0

/-- `data.ts`. -/
def posixTs (h : Mem) : UInt32 := at32 h 8

/-- `POSIXFSAL_handlecmp`. -/
def posixHandlecmp (a b : Mem) : ℤ := if posixId a ≠ posixId b ∨ posixTs a ≠ posixTs b then 1 else 0

/-- `POSIXFSAL_Handle_to_HashIndex`. -/
def posixHandleToHashIndex (h : Mem) (cookie alphabetLen indexSize : UInt32) : UInt32 :=
  (3 * (cookie * alphabetLen + ((posixId h).toUInt32 ^^^ posixTs h)) + 1999) % indexSize

/-- `POSIXFSAL_Handle_to_RBTIndex`. -/
def posixHandleToRBTIndex (h : Mem) (cookie : UInt32) : UInt32 :=
  cookie ^^^ (posixId h).toUInt32 ^^^ posixTs h ^^^ 0xABCD1234

/-- `POSIXFSAL_DigestHandle`. -/
def posixDigestHandle (v : Version) (h old : Mem) : Option Mem :=
  if 12 > v.digestSize then none else some (copyOver 12 v.digestSize h old)

/-- `POSIXFSAL_ExpandHandle`. -/
def posixExpandHandle (shared : Bool) (d old : Mem) : Option Mem := some (copyOver 12 (posixHandleSize shared) d old)

/-! ## LUSTRE -/

/-- `sizeof(p_in_fsal_handle->data)`. -/
def lustreDataSize : ℕ := 24

/-- `sizeof(lustrefsal_handle_t)`. -/
def lustreHandleSize (shared : Bool) : ℕ := if shared then fsalHandleTSize else lustreDataSize

/-- `data.fid.f_seq`. -/
def fSeq (h : Mem) : UInt64 := at64 h 0

/-- `data.fid.f_oid`. -/
def fOid (h : Mem) : UInt32 := at32 h 8

/-- `data.fid.f_ver`. -/
def fVer (h : Mem) : UInt32 := at32 h 12

/-- `LUSTREFSAL_handlecmp`. -/
def lustreHandlecmp (a b : Mem) : ℤ := if fSeq a ≠ fSeq b ∨ fOid a ≠ fOid b ∨ fVer a ≠ fVer b then 1 else 0

/-- `LUSTREFSAL_Handle_to_HashIndex`. -/
def lustreHandleToHashIndex (h : Mem) (cookie alphabetLen indexSize : UInt32) : UInt32 :=
  (((3 * cookie * alphabetLen).toUInt64 + 1873 * fSeq h + (3511 * fOid h).toUInt64 + (2999 * fVer h).toUInt64 +
    10267) % indexSize.toUInt64).toUInt32

/-- `LUSTREFSAL_Handle_to_RBTIndex`. -/
def lustreHandleToRBTIndex (h : Mem) (cookie : UInt32) : UInt32 :=
  let lval := (2239 * cookie).toUInt64 + 3559 * fSeq h + (5 * fOid h).toUInt64 + (1409 * fVer h).toUInt64 + 20011
  (lval >>> 32).toUInt32 ^^^ lval.toUInt32

/-- `LUSTREFSAL_DigestHandle`. For version 2 the whole handle is copied. -/
def lustreDigestHandle (shared : Bool) (v : Version) (h old : Mem) : Option Mem :=
  if lustreDataSize > v.digestSize then none
  else
    match v with
    | .v2 => some (copyOver (lustreHandleSize shared) v.digestSize h old)
    | _ => some (copyOver lustreDataSize v.digestSize h old)

/-- `LUSTREFSAL_ExpandHandle`. -/
def lustreExpandHandle (shared : Bool) (d old : Mem) : Option Mem :=
  some (copyOver 12 (lustreHandleSize shared) d old)

/-! ## Opaque handles -/

/-- The numbers that the loops of XFS and GPFS extract from an opaque part. -/
def extracts (byte : UInt8 → UInt32) (val : Mem) (len : ℕ) : List UInt32 :=
  let mod := len % 4
  let words := (List.range ((len - mod) / 4)).map fun k => at32 val (4 * k)
  if mod = 0 then words
  else words ++ [(List.range mod).foldl (fun (extract : UInt32) k => extract <<< 8 ||| byte (val (len - mod + k))) 0]

/-- `Handle_to_HashIndex` of XFS and GPFS. -/
def opaqueHashIndex (l : List UInt32) (cookie indexSize : UInt32) : UInt32 :=
  l.foldl (fun sum extract => (3 * sum + 5 * extract + 1999) % indexSize) cookie

/-- `Handle_to_RBTIndex` of XFS and GPFS. -/
def opaqueRBTIndex (l : List UInt32) (cookie : UInt32) : UInt32 :=
  l.foldl (fun h extract => (857 * h ^^^ extract) % 715827883) cookie

/-! ## XFS -/

/-- `sizeof(p_in_fsal_handle->data)`. -/
def xfsDataSize : ℕ := 44

/-- `sizeof(xfsfsal_handle_t)`. -/
def xfsHandleSize (shared : Bool) : ℕ := if shared then fsalHandleTSize else xfsDataSize

/-- `data.handle_len`. -/
def xfsHandleLen (h : Mem) : ℕ := (at32 h 32).toNat

/-- The bytes of `data.handle_val` are signed. -/
def signedByte (b : UInt8) : UInt32 := b.toInt8.toInt32.toUInt32

/-- `XFSFSAL_handlecmp`. -/
def xfsHandlecmp (a b : Mem) : ℤ := if xfsHandleLen a ≠ xfsHandleLen b then 1 else memcmp (xfsHandleLen b) a b

/-- `XFSFSAL_Handle_to_HashIndex`. -/
def xfsHandleToHashIndex (h : Mem) (cookie _alphabetLen indexSize : UInt32) : UInt32 :=
  opaqueHashIndex (extracts signedByte h (xfsHandleLen h)) cookie indexSize

/-- `XFSFSAL_Handle_to_RBTIndex`. -/
def xfsHandleToRBTIndex (h : Mem) (cookie : UInt32) : UInt32 :=
  opaqueRBTIndex (extracts signedByte h (xfsHandleLen h)) cookie

/-- `XFSFSAL_DigestHandle`, which fills the digest from the memory at the handle. -/
def xfsDigestHandle (v : Version) (h old : Mem) : Option Mem :=
  if xfsDataSize > v.digestSize then none else some (copyOver v.digestSize v.digestSize h old)

/-- `XFSFSAL_ExpandHandle`. -/
def xfsExpandHandle (shared : Bool) (v : Version) (d old : Mem) : Option Mem :=
  match v with
  | .v2 => some (copyOver 12 (xfsHandleSize shared) d old)
  | _ => some (copyOver (xfsHandleSize shared) (xfsHandleSize shared) d old)

/-! ## GPFS -/

/-- `sizeof(fsal_handle_t)`. -/
def gpfsHandleSize (shared : Bool) : ℕ := if shared then fsalHandleTSize else 28

/-- `handle.handle_size`, as an unsigned number. -/
def gpfsSize (h : Mem) : ℕ := (at32 h 0).toNat

/-- `handle.handle_size` as the size of a `memcmp`: it is signed, and a negative one becomes huge. -/
def gpfsMemcmpSize (h : Mem) : ℕ := if gpfsSize h < 0x80000000 then gpfsSize h else 0xFFFFFFFF00000000 + gpfsSize h

/-- `handle.f_handle`. -/
def fHandle (h : Mem) : Mem := fun i => h (8 + i)

/-- `GPFSFSAL_handlecmp`. -/
def gpfsHandlecmp (a b : Mem) : ℤ :=
  if gpfsSize a ≠ gpfsSize b then -2 else if memcmp (gpfsMemcmpSize a) (fHandle a) (fHandle b) ≠ 0 then -3 else 0

/-- `GPFSFSAL_Handle_to_HashIndex`. -/
def gpfsHandleToHashIndex (h : Mem) (cookie _alphabetLen indexSize : UInt32) : UInt32 :=
  opaqueHashIndex (extracts UInt8.toUInt32 (fHandle h) (gpfsSize h)) cookie indexSize

/-- `GPFSFSAL_Handle_to_RBTIndex`. -/
def gpfsHandleToRBTIndex (h : Mem) (cookie : UInt32) : UInt32 :=
  opaqueRBTIndex (extracts UInt8.toUInt32 (fHandle h) (gpfsSize h)) cookie

/-- `GPFSFSAL_DigestHandle`. -/
def gpfsDigestHandle (shared : Bool) (v : Version) (h old : Mem) : Option Mem :=
  if gpfsHandleSize shared > v.digestSize then none else some (copyOver (gpfsHandleSize shared) v.digestSize h old)

/-- `GPFSFSAL_ExpandHandle`. -/
def gpfsExpandHandle (shared : Bool) (d old : Mem) : Option Mem :=
  some (copyOver (gpfsHandleSize shared) (gpfsHandleSize shared) d old)

/-! ## What the property is about -/

/-- The back ends. -/
inductive FileSystem
  | posix
  | lustre
  | xfs
  | gpfs

def FileSystem.handlecmp : FileSystem → Mem → Mem → ℤ
  | .posix => posixHandlecmp
  | .lustre => lustreHandlecmp
  | .xfs => xfsHandlecmp
  | .gpfs => gpfsHandlecmp

def FileSystem.handleToHashIndex : FileSystem → Mem → UInt32 → UInt32 → UInt32 → UInt32
  | .posix => posixHandleToHashIndex
  | .lustre => lustreHandleToHashIndex
  | .xfs => xfsHandleToHashIndex
  | .gpfs => gpfsHandleToHashIndex

def FileSystem.handleToRBTIndex : FileSystem → Mem → UInt32 → UInt32
  | .posix => posixHandleToRBTIndex
  | .lustre => lustreHandleToRBTIndex
  | .xfs => xfsHandleToRBTIndex
  | .gpfs => gpfsHandleToRBTIndex

/-- `DigestHandle`, in the build with shared back ends or without. -/
def FileSystem.digestHandle (shared : Bool) : FileSystem → Version → Mem → Mem → Option Mem
  | .posix => posixDigestHandle
  | .lustre => lustreDigestHandle shared
  | .xfs => xfsDigestHandle
  | .gpfs => gpfsDigestHandle shared

def FileSystem.expandHandle (shared : Bool) : FileSystem → Version → Mem → Mem → Option Mem
  | .posix, _ => posixExpandHandle shared
  | .lustre, _ => lustreExpandHandle shared
  | .xfs, v => xfsExpandHandle shared v
  | .gpfs, _ => gpfsExpandHandle shared

/-- The handle comes back from its digests, whatever lies in and behind the buffers, and handles that are equal to
it have its hash values, which are in range. -/
structure Agrees (b : FileSystem) (shared : Bool) (h : Mem) (cookie alphabetLen indexSize : UInt32) : Prop where
  expands : ∀ v old old' d, b.digestHandle shared v h old = some d →
    ∃ r, b.expandHandle shared v d old' = some r ∧ b.handlecmp r h = 0
  hashes : ∀ h', b.handlecmp h h' = 0 →
    b.handleToHashIndex h cookie alphabetLen indexSize = b.handleToHashIndex h' cookie alphabetLen indexSize ∧
      b.handleToRBTIndex h cookie = b.handleToRBTIndex h' cookie
  below : b.handleToHashIndex h cookie alphabetLen indexSize < indexSize

/-- LUSTRE: the version is zero, as only 12 bytes are expanded. XFS and GPFS: the opaque part lies in what is
expanded, and is not empty unless the cookie is an index. -/
def Fits (shared : Bool) (h : Mem) (cookie indexSize : UInt32) : FileSystem → Prop
  | .posix => True
  | .lustre => fVer h = 0
  | .xfs => xfsHandleLen h ≤ (if shared then Version.v3.digestSize else xfsDataSize) ∧
      (xfsHandleLen h = 0 → cookie < indexSize)
  | .gpfs => (shared = false → gpfsSize h ≤ 20) ∧ (gpfsSize h = 0 → cookie < indexSize)

variable {a b h old d : Mem} {shared : Bool} {cookie alphabetLen indexSize : UInt32} {n size len off : ℕ}

/-! ## Memory -/

lemma at32_congr (heq : ∀ i, off ≤ i → i < off + 4 → a i = b i) : at32 a off = at32 b off := by
  unfold at32
  rw [heq off (by omega) (by omega), heq (off + 1) (by omega) (by omega), heq (off + 2) (by omega) (by omega),
    heq (off + 3) (by omega) (by omega)]

lemma at64_congr (heq : ∀ i, off ≤ i → i < off + 8 → a i = b i) : at64 a off = at64 b off := by
  unfold at64
  rw [at32_congr fun i hi hi' => heq i (by omega) (by omega),
    at32_congr fun i hi hi' => heq i (by omega) (by omega)]

lemma copyOver_of_lt {i : ℕ} (hi : i < n) : copyOver n size a old i = a i := if_pos hi

lemma copyOver_of_size {i : ℕ} (hi : n ≤ i) (hsize : i < size) : copyOver n size a old i = 0 := by
  rw [copyOver, if_neg (by omega), if_pos hsize]

lemma copyOver_of_ge {i : ℕ} (hi : n ≤ i) (hsize : size ≤ i) : copyOver n size a old i = old i := by
  rw [copyOver, if_neg (by omega), if_neg (by omega)]

/-- `memcmp` gives 0 for equal bytes only. -/
lemma memcmp_eq_zero : memcmp n a b = 0 ↔ ∀ i < n, a i = b i := by
  induction n generalizing a b with
  | zero => exact iff_of_true rfl fun i hi => absurd hi (Nat.not_lt_zero i)
  | succ n ih =>
    by_cases hzero : a 0 = b 0
    · rw [memcmp, if_pos hzero, ih]
      constructor
      · intro heq i hi
        cases i with
        | zero => exact hzero
        | succ i => exact heq i (by omega)
      · intro heq i hi
        exact heq (i + 1) (by omega)
    · have hne : memcmp (n + 1) a b ≠ 0 := by
        rw [memcmp, if_neg hzero]
        by_cases hlt : a 0 < b 0
        · rw [if_pos hlt]
          decide
        · rw [if_neg hlt]
          decide
      refine iff_of_false hne fun heq => hzero (heq 0 (by omega))

lemma add_one_ne (x : UInt8) : x + 1 ≠ x := by
  intro heq
  have hzero : (1 : UInt8) = 0 := by
    calc (1 : UInt8) = x + 1 - x := by rw [UInt8.add_comm, UInt8.add_sub_cancel]
      _ = 0 := by rw [heq, UInt8.sub_self]
  exact absurd hzero (by decide)

/-! ## Opaque parts -/

/-- The words that are hashed depend on these bytes only. -/
lemma extracts_congr {byte : UInt8 → UInt32} (heq : ∀ i < len, a i = b i) :
    extracts byte a len = extracts byte b len := by
  have hwords : ((List.range ((len - len % 4) / 4)).map fun k => at32 a (4 * k)) =
      (List.range ((len - len % 4) / 4)).map fun k => at32 b (4 * k) := by
    apply List.map_congr_left
    intro k hk
    have hk := List.mem_range.mp hk
    exact at32_congr fun i _ hi => heq i (by omega)
  have htail : ∀ l : List ℕ, (∀ k ∈ l, len - len % 4 + k < len) → ∀ e : UInt32,
      l.foldl (fun (extract : UInt32) k => extract <<< 8 ||| byte (a (len - len % 4 + k))) e =
        l.foldl (fun (extract : UInt32) k => extract <<< 8 ||| byte (b (len - len % 4 + k))) e := by
    intro l hl
    induction l with
    | nil => exact fun _ => rfl
    | cons k l ih =>
      intro e
      rw [List.foldl_cons, List.foldl_cons, heq _ (hl k List.mem_cons_self)]
      exact ih (fun k hk => hl k (List.mem_cons_of_mem _ hk)) _
  unfold extracts
  dsimp only
  rw [hwords, htail]
  intro k hk
  have hk := List.mem_range.mp hk
  omega

/-- Some bytes are read. -/
lemma extracts_ne_nil {byte : UInt8 → UInt32} (hlen : len ≠ 0) : extracts byte a len ≠ [] := by
  unfold extracts
  dsimp only
  by_cases hmod : len % 4 = 0
  · rw [if_pos hmod]
    intro hnil
    have hrange := List.range_eq_nil.mp (List.map_eq_nil_iff.mp hnil)
    omega
  · rw [if_neg hmod]
    exact List.append_ne_nil_of_right_ne_nil _ (List.cons_ne_nil _ _)

/-- When the index is below the size. -/
lemma opaqueHashIndex_lt_iff (hindex : 0 < indexSize) (l : List UInt32) :
    opaqueHashIndex l cookie indexSize < indexSize ↔ (l = [] → cookie < indexSize) := by
  rcases List.eq_nil_or_concat l with rfl | ⟨l', x, rfl⟩
  · exact ⟨fun hlt _ => hlt, fun hlt => hlt rfl⟩
  · have hne : l'.concat x ≠ [] := by
      rw [List.concat_eq_append]
      exact List.append_ne_nil_of_right_ne_nil _ (List.cons_ne_nil _ _)
    refine iff_of_true ?_ fun hnil => absurd hnil hne
    rw [opaqueHashIndex, List.concat_eq_append, List.foldl_append, List.foldl_cons, List.foldl_nil]
    exact UInt32.mod_lt _ hindex

/-! ## The back ends -/

/-- The functions of POSIX agree. -/
lemma posix_agrees (hindex : 0 < indexSize) : Agrees .posix shared h cookie alphabetLen indexSize := by
  refine ⟨fun v old old' d hd => ?_, fun h' hcmp => ?_, UInt32.mod_lt _ hindex⟩
  · have hd : posixDigestHandle v h old = some d := hd
    have hsize : ¬ 12 > v.digestSize := by cases v <;> decide
    rw [posixDigestHandle, if_neg hsize] at hd
    cases hd
    refine ⟨_, rfl, ?_⟩
    have hlt : ∀ i < 12, copyOver 12 (posixHandleSize shared) (copyOver 12 v.digestSize h old) old' i = h i := by
      intro i hi
      rw [copyOver_of_lt hi, copyOver_of_lt hi]
    have hid : posixId (copyOver 12 (posixHandleSize shared) (copyOver 12 v.digestSize h old) old') = posixId h :=
      at64_congr fun i _ hi => hlt i (by omega)
    have hts : posixTs (copyOver 12 (posixHandleSize shared) (copyOver 12 v.digestSize h old) old') = posixTs h :=
      at32_congr fun i _ hi => hlt i (by omega)
    show posixHandlecmp _ h = 0
    rw [posixHandlecmp, hid, hts]
    exact if_neg fun hne => hne.elim (fun hne => hne rfl) fun hne => hne rfl
  · have hcmp : posixHandlecmp h h' = 0 := hcmp
    have hsame : posixId h = posixId h' ∧ posixTs h = posixTs h' := by
      by_contra hne
      rw [posixHandlecmp, if_pos (not_and_or.mp hne)] at hcmp
      exact absurd hcmp (by decide)
    show posixHandleToHashIndex h cookie alphabetLen _ = posixHandleToHashIndex h' cookie alphabetLen _ ∧
      posixHandleToRBTIndex h _ = posixHandleToRBTIndex h' _
    unfold posixHandleToHashIndex posixHandleToRBTIndex
    rw [hsame.1, hsame.2]
    exact ⟨rfl, rfl⟩

/-- Those of Lustre leave the version out of the digest. -/
lemma lustre_agrees_iff (hindex : 0 < indexSize) :
    Agrees .lustre shared h cookie alphabetLen indexSize ↔ fVer h = 0 := by
  have hhashes : ∀ h', lustreHandlecmp h h' = 0 → fSeq h = fSeq h' ∧ fOid h = fOid h' ∧ fVer h = fVer h' := by
    intro h' hcmp
    by_contra hne
    rw [not_and_or, not_and_or] at hne
    rw [lustreHandlecmp, if_pos hne] at hcmp
    exact absurd hcmp (by decide)
  have hsize : 24 ≤ lustreHandleSize shared := by cases shared <;> decide
  -- what the digest holds of the handle, and what is expanded from it
  have hdigest : ∀ v old d, lustreDigestHandle shared v h old = some d → ∀ i < 12, d i = h i := by
    intro v old d hd i hi
    have hfit : ¬ lustreDataSize > v.digestSize := by cases v <;> decide
    have hdata : i < lustreDataSize := Nat.lt_trans hi (by decide)
    unfold lustreDigestHandle at hd
    rw [if_neg hfit] at hd
    cases v with
    | v2 =>
      cases hd
      exact copyOver_of_lt (by omega)
    | v3 =>
      cases hd
      exact copyOver_of_lt hdata
    | v4 =>
      cases hd
      exact copyOver_of_lt hdata
  have hexpand : ∀ v old old' d, lustreDigestHandle shared v h old = some d →
      fSeq (copyOver 12 (lustreHandleSize shared) d old') = fSeq h ∧
        fOid (copyOver 12 (lustreHandleSize shared) d old') = fOid h ∧
        fVer (copyOver 12 (lustreHandleSize shared) d old') = 0 := by
    intro v old old' d hd
    have hlt := hdigest v old d hd
    refine ⟨at64_congr fun i _ hi => ?_, at32_congr fun i _ hi => ?_, ?_⟩
    · rw [copyOver_of_lt (by omega), hlt i (by omega)]
    · rw [copyOver_of_lt (by omega), hlt i (by omega)]
    · have hzero : fVer (copyOver 12 (lustreHandleSize shared) d old') = at32 (fun _ => 0) 12 :=
        at32_congr fun i hi hi' => copyOver_of_size hi (by omega)
      rw [hzero]
      decide
  constructor
  · intro hagrees
    obtain ⟨r, hr, hcmp⟩ := hagrees.expands .v3 h h _ rfl
    cases hr
    have hver := (hexpand .v3 h h _ rfl).2.2
    by_contra hne
    have hcmp : lustreHandlecmp _ h = 0 := hcmp
    rw [lustreHandlecmp, if_pos] at hcmp
    · exact absurd hcmp (by decide)
    · refine .inr (.inr ?_)
      intro heq
      exact hne (heq.symm.trans hver)
  · intro hzero
    refine ⟨fun v old old' d hd => ⟨_, rfl, ?_⟩, fun h' hcmp => ?_, ?_⟩
    · obtain ⟨hseq, hoid, hver⟩ := hexpand v old old' d hd
      show lustreHandlecmp _ h = 0
      rw [lustreHandlecmp, hseq, hoid, hver, hzero]
      exact if_neg fun hne => hne.elim (fun hne => hne rfl) fun hne => hne.elim (fun hne => hne rfl) fun hne => hne rfl
    · obtain ⟨hseq, hoid, hver⟩ := hhashes h' hcmp
      show lustreHandleToHashIndex h cookie alphabetLen _ = lustreHandleToHashIndex h' cookie alphabetLen _ ∧
        lustreHandleToRBTIndex h _ = lustreHandleToRBTIndex h' _
      unfold lustreHandleToHashIndex lustreHandleToRBTIndex
      rw [hseq, hoid, hver]
      exact ⟨rfl, rfl⟩
    · show lustreHandleToHashIndex h _ _ _ < _
      have hpos : (0 : UInt64) < indexSize.toUInt64 := by
        rw [UInt64.lt_iff_toNat_lt, UInt32.toNat_toUInt64]
        exact UInt32.lt_iff_toNat_lt.mp hindex
      have hmod : ∀ x : UInt64, (x % indexSize.toUInt64).toUInt32 < indexSize := by
        intro x
        have hlt := UInt64.lt_iff_toNat_lt.mp (UInt64.mod_lt x hpos)
        rw [UInt32.toNat_toUInt64] at hlt
        rw [UInt32.lt_iff_toNat_lt, UInt64.toNat_toUInt32]
        exact Nat.lt_of_le_of_lt (Nat.mod_le _ _) hlt
      exact hmod _

/-- Handles that compare equal have the same bytes. -/
lemma xfs_hashes {h' : Mem} (hcmp : xfsHandlecmp h h' = 0) :
    xfsHandleLen h = xfsHandleLen h' ∧ ∀ i < xfsHandleLen h, h i = h' i := by
  unfold xfsHandlecmp at hcmp
  by_cases hlen : xfsHandleLen h = xfsHandleLen h'
  · rw [if_neg fun hne => hne hlen] at hcmp
    exact ⟨hlen, hlen ▸ memcmp_eq_zero.mp hcmp⟩
  · rw [if_pos hlen] at hcmp
    exact absurd hcmp (by decide)

/-- The digest of XFS has room for the fields, and the opaque part is compared as far as its length says. -/
lemma xfs_agrees_iff (hindex : 0 < indexSize) :
    Agrees .xfs shared h cookie alphabetLen indexSize ↔ Fits shared h cookie indexSize .xfs := by
  have hbelow : xfsHandleToHashIndex h cookie alphabetLen indexSize < indexSize ↔
      (xfsHandleLen h = 0 → cookie < indexSize) := by
    rw [xfsHandleToHashIndex, opaqueHashIndex_lt_iff hindex]
    constructor
    · intro hlt hzero
      exact hlt (by rw [hzero]; rfl)
    · intro hlt hnil
      by_cases hzero : xfsHandleLen h = 0
      · exact hlt hzero
      · exact absurd hnil (extracts_ne_nil hzero)
  -- as far as it is the same as the handle
  have hexpand : ∀ v old old' d, xfsDigestHandle v h old = some d →
      ∃ r, xfsExpandHandle shared v d old' = some r ∧
        ∀ i, i < (if shared then Version.v3.digestSize else xfsDataSize) → r i = h i := by
    intro v old old' d hd
    cases v with
    | v2 => cases hd
    | v3 =>
      cases hd
      refine ⟨_, rfl, fun i hi => ?_⟩
      cases shared with
      | true =>
        have hi : i < Version.v3.digestSize := hi
        rw [copyOver_of_lt (Nat.lt_trans hi (by decide)), copyOver_of_lt hi]
      | false =>
        have hi : i < xfsHandleSize false := hi
        rw [copyOver_of_lt hi, copyOver_of_lt (Nat.lt_trans hi (by decide))]
    | v4 =>
      cases hd
      refine ⟨_, rfl, fun i hi => ?_⟩
      cases shared with
      | true =>
        have hi : i < Version.v3.digestSize := hi
        rw [copyOver_of_lt (Nat.lt_trans hi (by decide)), copyOver_of_lt (Nat.lt_trans hi (by decide))]
      | false =>
        have hi : i < xfsHandleSize false := hi
        rw [copyOver_of_lt hi, copyOver_of_lt (Nat.lt_trans hi (by decide))]
  have hdata : xfsDataSize ≤ if shared then Version.v3.digestSize else xfsDataSize := by cases shared <;> decide
  constructor
  · intro hagrees
    refine ⟨?_, hbelow.mp hagrees.below⟩
    by_contra hlong
    -- the first byte that is not in the digest, or not expanded
    obtain ⟨r, hr, hcmp⟩ := hagrees.expands .v3 (fun i => h i + 1) (fun i => h i + 1) _ rfl
    obtain ⟨hlen, hbytes⟩ := xfs_hashes hcmp
    cases shared with
    | true =>
      cases hr
      have hbyte := hbytes Version.v3.digestSize (by rw [hlen]; exact Nat.lt_of_not_le hlong)
      rw [copyOver_of_lt (by decide), copyOver_of_ge (Nat.le_refl _) (Nat.le_refl _)] at hbyte
      exact add_one_ne _ hbyte
    | false =>
      cases hr
      have hbyte := hbytes xfsDataSize (by rw [hlen]; exact Nat.lt_of_not_le hlong)
      rw [copyOver_of_ge (by decide) (by decide)] at hbyte
      exact add_one_ne _ hbyte
  · rintro ⟨hfits, hcookie⟩
    refine ⟨fun v old old' d hd => ?_, fun h' hcmp => ?_, hbelow.mpr hcookie⟩
    · obtain ⟨r, hr, hsame⟩ := hexpand v old old' d hd
      have hlen : xfsHandleLen r = xfsHandleLen h := by
        refine congrArg UInt32.toNat (at32_congr fun i _ hi => hsame i ?_)
        have hfield : 32 + 4 ≤ xfsDataSize := by decide
        omega
      refine ⟨r, hr, ?_⟩
      show xfsHandlecmp r h = 0
      rw [xfsHandlecmp, if_neg fun hne => hne hlen, memcmp_eq_zero]
      exact fun i hi => hsame i (by omega)
    · obtain ⟨hlen, hbytes⟩ := xfs_hashes hcmp
      have hextracts : extracts signedByte h (xfsHandleLen h) = extracts signedByte h' (xfsHandleLen h') := by
        rw [← hlen]
        exact extracts_congr hbytes
      show xfsHandleToHashIndex h cookie alphabetLen _ = xfsHandleToHashIndex h' cookie alphabetLen _ ∧
        xfsHandleToRBTIndex h _ = xfsHandleToRBTIndex h' _
      rw [xfsHandleToHashIndex, xfsHandleToRBTIndex, hextracts]
      exact ⟨rfl, rfl⟩

lemma gpfsSize_le : gpfsSize h ≤ gpfsMemcmpSize h := by
  unfold gpfsMemcmpSize
  split_ifs
  · exact Nat.le_refl _
  · exact Nat.le_add_left _ _

/-- Handles that compare equal hash the same bytes. -/
lemma gpfs_hashes {h' : Mem} (hcmp : gpfsHandlecmp h h' = 0) :
    gpfsSize h = gpfsSize h' ∧ ∀ i < gpfsMemcmpSize h, fHandle h i = fHandle h' i := by
  unfold gpfsHandlecmp at hcmp
  by_cases hlen : gpfsSize h = gpfsSize h'
  · rw [if_neg fun hne => hne hlen] at hcmp
    by_cases hbytes : memcmp (gpfsMemcmpSize h) (fHandle h) (fHandle h') = 0
    · exact ⟨hlen, memcmp_eq_zero.mp hbytes⟩
    · rw [if_pos hbytes] at hcmp
      exact absurd hcmp (by decide)
  · rw [if_pos hlen] at hcmp
    exact absurd hcmp (by decide)

/-- Those of GPFS agree for a handle that fits. -/
lemma gpfs_agrees_iff (hindex : 0 < indexSize) :
    Agrees .gpfs shared h cookie alphabetLen indexSize ↔ Fits shared h cookie indexSize .gpfs := by
  have hbelow : gpfsHandleToHashIndex h cookie alphabetLen indexSize < indexSize ↔
      (gpfsSize h = 0 → cookie < indexSize) := by
    rw [gpfsHandleToHashIndex, opaqueHashIndex_lt_iff hindex]
    constructor
    · intro hlt hzero
      exact hlt (by rw [hzero]; rfl)
    · intro hlt hnil
      by_cases hzero : gpfsSize h = 0
      · exact hlt hzero
      · exact absurd hnil (extracts_ne_nil hzero)
  constructor
  · intro hagrees
    refine ⟨?_, hbelow.mp hagrees.below⟩
    rintro rfl
    by_contra hlong
    obtain ⟨r, hr, hcmp⟩ := hagrees.expands .v3 h (fun i => h i + 1) _ rfl
    cases hr
    obtain ⟨hlen, hbytes⟩ := gpfs_hashes hcmp
    have hbyte := hbytes 20 (Nat.lt_of_lt_of_le (by rw [hlen]; omega) gpfsSize_le)
    -- the first byte behind the handle
    have hbyte : copyOver (gpfsHandleSize false) (gpfsHandleSize false)
        (copyOver (gpfsHandleSize false) Version.v3.digestSize h h) (fun i => h i + 1) 28 = h 28 := hbyte
    rw [copyOver_of_ge (by decide) (by decide)] at hbyte
    exact add_one_ne _ hbyte
  · rintro ⟨hfits, hcookie⟩
    refine ⟨fun v old old' d hd => ?_, fun h' hcmp => ?_, hbelow.mpr hcookie⟩
    · have hd : gpfsDigestHandle shared v h old = some d := hd
      unfold gpfsDigestHandle at hd
      by_cases hsize : gpfsHandleSize shared > v.digestSize
      · rw [if_pos hsize] at hd
        cases hd
      rw [if_neg hsize] at hd
      cases hd
      have hshared : shared = false := by
        cases shared with
        | true => exact absurd (show gpfsHandleSize true > v.digestSize by cases v <;> decide) hsize
        | false => rfl
      subst hshared
      have hsame : ∀ i < 28, copyOver (gpfsHandleSize false) (gpfsHandleSize false)
          (copyOver (gpfsHandleSize false) v.digestSize h old) old' i = h i := by
        intro i hi
        have hi : i < gpfsHandleSize false := hi
        rw [copyOver_of_lt hi, copyOver_of_lt hi]
      have hlen : gpfsSize (copyOver (gpfsHandleSize false) (gpfsHandleSize false)
          (copyOver (gpfsHandleSize false) v.digestSize h old) old') = gpfsSize h :=
        congrArg UInt32.toNat (at32_congr fun i _ hi => hsame i (by omega))
      have hshort := hfits rfl
      refine ⟨_, rfl, ?_⟩
      show gpfsHandlecmp _ h = 0
      rw [gpfsHandlecmp, if_neg fun hne => hne hlen, if_neg]
      refine fun hne => hne (memcmp_eq_zero.mpr fun i hi => ?_)
      rw [gpfsMemcmpSize, hlen, if_pos (by omega)] at hi
      exact hsame (8 + i) (by omega)
    · obtain ⟨hlen, hbytes⟩ := gpfs_hashes hcmp
      have hextracts : extracts UInt8.toUInt32 (fHandle h) (gpfsSize h) =
          extracts UInt8.toUInt32 (fHandle h') (gpfsSize h') := by
        rw [← hlen]
        exact extracts_congr fun i hi => hbytes i (Nat.lt_of_lt_of_le hi gpfsSize_le)
      show gpfsHandleToHashIndex h cookie alphabetLen _ = gpfsHandleToHashIndex h' cookie alphabetLen _ ∧
        gpfsHandleToRBTIndex h _ = gpfsHandleToRBTIndex h' _
      rw [gpfsHandleToHashIndex, gpfsHandleToRBTIndex, hextracts]
      exact ⟨rfl, rfl⟩

/-- For which handles the four functions of a back end agree. -/
theorem agrees_iff (b : FileSystem) (hindex : 0 < indexSize) :
    Agrees b shared h cookie alphabetLen indexSize ↔ Fits shared h cookie indexSize b := by
  cases b with
  | posix => exact iff_of_true (posix_agrees hindex) trivial
  | lustre => exact lustre_agrees_iff hindex
  | xfs => exact xfs_agrees_iff hindex
  | gpfs => exact gpfs_agrees_iff hindex

theorem agrees_iff_xfs : Agrees .xfs false (fun i => if i = 32 then 24 else 0) 0 1 7 ↔
    Fits false (fun i => if i = 32 then 24 else 0) 0 7 .xfs :=
  agrees_iff .xfs (by decide)

/-- The version of a LUSTRE handle does not come back. -/
theorem not_agrees_of_version : ¬ ∀ b shared h cookie alphabetLen indexSize, 0 < indexSize →
    Agrees b shared h cookie alphabetLen indexSize := by
  intro h
  have hagrees := h .lustre false (fun i => if i = 12 then 1 else 0) 0 1 7 (by decide)
  exact absurd ((lustre_agrees_iff (by decide)).mp hagrees) (by decide +kernel)

end Ganesha.Fsal.Tools
