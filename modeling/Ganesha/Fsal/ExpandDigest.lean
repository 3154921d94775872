import Ganesha.Fsal.HandleTools
import Ganesha.HandleMapping.Common
import Ganesha.Snmp.Digest
import Mathlib.Tactic.IntervalCases

/-!
# What the decoders of digests touch

`SNMPFSAL_ExpandHandle` and `PROXYFSAL_ExpandHandle` of the `fsal_tools.c` of these back ends, with the accesses
they make. A digest is the memory from its address on; the log is left out.
-/

namespace Ganesha.Fsal.Expand

open Ganesha.Fsal.Tools
open Ganesha.HandleMapping (Digest HashMap handleMapGetFH)
open Ganesha.Snmp (BitField DigestType ExportContext NodeType charTab expandHandle header nbIntOids nbShortOids
  nodeTypeOfFlag readIndexes readOids relativeOidLen typeFlag)

/-- An access to a byte of the digest, to an entry of the array of a handle (`oid_tab` or `srv_handle_val`), or to
an entry of `short_tab_indexes` or `int_tab_indexes`. -/
inductive Access
  | digest (off : ℕ)
  | handle (entry : ℕ)
  | index (entry : ℕ)

/-- The size of the digest and of the array of a handle. -/
structure Bounds where
  digest : ℕ
  handle : ℕ

/-- The tables of indexes have 32 entries. -/
def Access.InBounds (b : Bounds) : Access → Prop
  | .digest off => off < b.digest
  | .handle entry => entry < b.handle
  | .index entry => entry < 32

/-- `FSAL_DIGEST_SIZE_HDLV2` and so on. -/
def digestSize : DigestType → ℕ
  | .nfsv2 => 29
  | .nfsv3 => 61
  | .nfsv4 => 93
  | .fileid2 => 4
  | .fileid3 | .fileid4 => 8

/-! ## SNMPFSAL_ExpandHandle -/

/-- The loop that retrieves `n` indexes, from the entry `j` of a table on. -/
def retrieveIndexes (bytes : Mem) (j curr : ℕ) : ℕ → List ℕ × List Access
  | 0 => ([], [])
  | n + 1 =>
    let (indexes, accesses) := retrieveIndexes bytes (j + 1) (curr + 1) n
    ((bytes curr).toNat :: indexes, .digest curr :: .index j :: accesses)

/-- `*curr_int_idx` and `*curr_short_idx` are read if they are entries of their tables. -/
def look (indexes : List ℕ) (j : ℕ) : List Access := if j < indexes.length then [.index j] else []

/-- The loop that reads the values of `n` sub-identifiers. -/
def retrieveOids (bytes : Mem) (rootLen : ℕ) (ints shorts : List ℕ) :
    ℕ → ℕ → ℕ → ℕ → ℕ → List ℕ × List Access
  | 0, _, _, _, _ => ([], [])
  | n + 1, i, curr, j, k =>
    -- is the current oid on 32 bits?
    if ints[j]? = some i then
      let (oids, accesses) := retrieveOids bytes rootLen ints shorts n (i + 1) (curr + 4) (j + 1) k
      (((bytes (curr + 3)).toNat + (bytes (curr + 2)).toNat <<< 8 + (bytes (curr + 1)).toNat <<< 16 +
          (bytes curr).toNat <<< 24) :: oids,
        look ints j ++ [.digest (curr + 3), .digest (curr + 2), .digest (curr + 1), .digest curr,
          .handle (i + rootLen)] ++ accesses)
    else if shorts[k]? = some i then
      let (oids, accesses) := retrieveOids bytes rootLen ints shorts n (i + 1) (curr + 2) j (k + 1)
      (((bytes (curr + 1)).toNat + (bytes curr).toNat <<< 8) :: oids,
        look ints j ++ look shorts k ++ [.digest (curr + 1), .digest curr, .handle (i + rootLen)] ++ accesses)
    else
      let (oids, accesses) := retrieveOids bytes rootLen ints shorts n (i + 1) (curr + 1) j k
      ((bytes curr).toNat :: oids,
        look ints j ++ look shorts k ++ [.digest curr, .handle (i + rootLen)] ++ accesses)

/-- The accesses to the bit-fields. -/
def fields : List Access := [.digest 0, .digest 1]

/-- `SNMPFSAL_ExpandHandle` after the type is set. -/
def expandOids (expcontext : ExportContext) (type : NodeType) (bytes : Mem) :
    Snmp.Status × Option Snmp.Handle × List Access :=
  let rootLen := expcontext.rootHandle.oidTab.length
  let nbShort := nbShortOids.get (header bytes)
  let nbInt := nbIntOids.get (header bytes)
  let (shorts, shortAccesses) := retrieveIndexes bytes 0 charTab nbShort
  let (ints, intAccesses) := retrieveIndexes bytes 0 (charTab + nbShort) nbInt
  let (oids, oidAccesses) := retrieveOids bytes rootLen ints shorts (relativeOidLen.get (header bytes)) 0
    (charTab + nbShort + nbInt) 0 0
  (.noError, some ⟨expcontext.rootHandle.oidTab ++ oids, type⟩,
    fields ++ (List.range rootLen).map .handle ++ shortAccesses ++ intAccesses ++ oidAccesses)

/-- `SNMPFSAL_ExpandHandle`. -/
def snmpExpandHandle (expcontext : ExportContext) (inType : DigestType) (bytes : Mem) :
    Snmp.Status × Option Snmp.Handle × List Access :=
  match inType with
  | .nfsv2 | .nfsv3 | .nfsv4 =>
    match nodeTypeOfFlag (typeFlag.get (header bytes)) with
    | none => (.inval, none, fields)
    | some type => expandOids expcontext type bytes
  | .fileid2 | .fileid3 | .fileid4 => (.inval, none, [])

/-! ## PROXYFSAL_ExpandHandle -/

/-- `proxyfsal_handle_t`; `srv_handle_val` with what lies behind it. -/
structure ProxyHandle where
  objectTypeReminder : UInt32
  fileid4 : UInt64
  timestamp : UInt32
  srvHandleLen : UInt32
  srvHandleVal : Mem

/-- `FSAL_PROXY_FILEHANDLE_MAX_LEN`. -/
def proxyFilehandleMaxLen : ℕ := 128

/-- The major codes. -/
inductive ProxyStatus
  | noError
  | fault
  | inval
  | notsupp
  | stale
  | serverfault
  deriving DecidableEq

/-- `_HANDLE_MAPPING`, and `enable_handle_mapping` of `global_fsal_proxy_specific_info`. -/
structure ProxyConfig where
  handleMapping : Bool
  enableHandleMapping : Bool

/-- `nfs_fh4`; `access i` is an access to the byte `i` of its value. -/
structure NfsFh4 where
  len : UInt32
  val : Mem
  access : ℕ → Access

/-- `fsal_internal_proxy_create_fh`. -/
def createFh (nfs4Handle : NfsFh4) (type : UInt32) (fileid : UInt64) : Bool × ProxyHandle × List Access :=
  (true,
    { objectTypeReminder := type
      fileid4 := fileid
      timestamp := 0
      srvHandleLen := nfs4Handle.len
      srvHandleVal := fun i => if i < nfs4Handle.len.toNat then nfs4Handle.val i else 0 },
    (List.range proxyFilehandleMaxLen).map .handle ++
      (List.range nfs4Handle.len.toNat).flatMap fun i => [nfs4Handle.access i, .handle i])

/-- `fsal_internal_proxy_extract_fh`. -/
def extractFh (handle : ProxyHandle) : NfsFh4 := ⟨handle.srvHandleLen, handle.srvHandleVal, .handle⟩

/-- The bytes of `nfs23_map_handle_t`, its padding included, as a digest. -/
def mapHdl (bytes : Mem) : Digest := ⟨at64 bytes 0, at32 bytes 8⟩

/-- The call of `fsal_internal_proxy_create_fh` after some accesses. -/
def finish (before : List Access) (nfs4fh : NfsFh4) (type : UInt32) (fileid : UInt64) :
    ProxyStatus × Option ProxyHandle × List Access :=
  let (ok, handle, accesses) := createFh nfs4fh type fileid
  if ok then (.noError, some handle, before ++ accesses) else (.fault, none, before ++ accesses)

/-- `PROXYFSAL_ExpandHandle`. -/
def proxyExpandHandle (cfg : ProxyConfig) (hash : HashMap ProxyHandle) (inType : DigestType) (bytes : Mem) :
    ProxyStatus × Option ProxyHandle × List Access :=
  let reads := (List.range 16).map .digest
  match inType with
  | .nfsv2 | .nfsv3 =>
    if cfg.handleMapping then
      if ¬cfg.enableHandleMapping then (.notsupp, none, [])
      else
        match handleMapGetFH hash (mapHdl bytes) with
        | .error .stale => (.stale, none, reads)
        | .error _ => (.serverfault, none, reads)
        | .ok tmpHdl => finish reads (extractFh tmpHdl) tmpHdl.objectTypeReminder tmpHdl.fileid4
    else (.notsupp, none, [])
  | .nfsv4 =>
    -- the file id, the type and the length of the handle, and where it begins
    finish reads ⟨at32 bytes 12, fun i => bytes (16 + i), fun i => .digest (16 + i)⟩ (at32 bytes 8) (at64 bytes 0)
  | .fileid2 | .fileid3 | .fileid4 => (.inval, none, [])

/-! ## What is announced -/

/-- The indexes of a table that the loop meets, from the `i`th sub-identifier on: those up to the first one that
it has passed or that is not met for another reason. -/
def met (p : ℕ → Prop) [DecidablePred p] : ℕ → List ℕ → List ℕ
  | _, [] => []
  | i, x :: xs => if i ≤ x ∧ p x then x :: met p (x + 1) xs else []

/-- The sub-identifiers of 32 bits from the `i`th on, of `n` in all. -/
def wide (n i : ℕ) (ints : List ℕ) : List ℕ := met (· < n) i ints

/-- Those of 16 bits. -/
def narrow (n i : ℕ) (ints shorts : List ℕ) : List ℕ := met (fun x => x < n ∧ x ∉ wide n i ints) i shorts

/-- The bytes of the sub-identifiers from the `i`th on. -/
def oidsSize (n i : ℕ) (ints shorts : List ℕ) : ℕ :=
  n - i + 3 * (wide n i ints).length + (narrow n i ints shorts).length

/-- The bytes that a digest of an SNMP handle announces: its fields, its tables and its sub-identifiers. -/
def snmpSize (bytes : Mem) : ℕ :=
  let nbShort := nbShortOids.get (header bytes)
  let nbInt := nbIntOids.get (header bytes)
  charTab + nbShort + nbInt + oidsSize (relativeOidLen.get (header bytes)) 0
    (readIndexes bytes (charTab + nbShort) nbInt) (readIndexes bytes charTab nbShort)

/-- A digest of an SNMP handle announces no more than the digest and the handle hold. -/
def SnmpFits (maxOidLen : ℕ) (expcontext : ExportContext) (t : DigestType) (bytes : Mem) : Prop :=
  snmpSize bytes ≤ digestSize t ∧
    expcontext.rootHandle.oidTab.length + relativeOidLen.get (header bytes) ≤ maxOidLen

/-- A digest of a handle of the proxy announces no more than the digest and the handle hold: it has the length of
the handle in it, or it names a handle of the map. -/
def ProxyFits (hash : HashMap ProxyHandle) (t : DigestType) (bytes : Mem) : Prop :=
  if t = .nfsv4 then
    16 + (at32 bytes 12).toNat ≤ digestSize t ∧ (at32 bytes 12).toNat ≤ proxyFilehandleMaxLen
  else ∀ h, hash (mapHdl bytes) = some h → h.srvHandleLen.toNat ≤ proxyFilehandleMaxLen

/-- `SNMPFSAL_ExpandHandle` stays in bounds, and refuses a digest that announces too much. -/
def SnmpLawful (maxOidLen : ℕ) (expcontext : ExportContext) (t : DigestType) (bytes : Mem) : Prop :=
  (∀ a ∈ (snmpExpandHandle expcontext t bytes).2.2, a.InBounds ⟨digestSize t, maxOidLen⟩) ∧
    (¬SnmpFits maxOidLen expcontext t bytes → (snmpExpandHandle expcontext t bytes).1 ≠ .noError)

/-- `PROXYFSAL_ExpandHandle` does. -/
def ProxyLawful (cfg : ProxyConfig) (hash : HashMap ProxyHandle) (t : DigestType) (bytes : Mem) : Prop :=
  (∀ a ∈ (proxyExpandHandle cfg hash t bytes).2.2, a.InBounds ⟨digestSize t, proxyFilehandleMaxLen⟩) ∧
    (¬ProxyFits hash t bytes → (proxyExpandHandle cfg hash t bytes).1 ≠ .noError)

/-! ## Indexes -/

variable {p q : ℕ → Prop} [DecidablePred p] [DecidablePred q] {b : Bounds} {bytes : Mem} {n i j k curr rootLen : ℕ}
  {ints shorts : List ℕ} {x : ℕ} {l : List ℕ}

/-- The indexes that are met are not behind the place where the search begins. -/
lemma le_of_mem_met (h : x ∈ met p i l) : i ≤ x := by
  induction l generalizing i with
  | nil => cases h
  | cons y ys ih =>
    rw [met] at h
    split_ifs at h with hy
    · obtain rfl | h := List.mem_cons.mp h
      · exact hy.1
      · have := ih h
        omega
    · cases h

/-- Tests that agree from an index on. -/
lemma met_congr (h : ∀ x, i ≤ x → (p x ↔ q x)) : met p i l = met q i l := by
  induction l generalizing i with
  | nil => rfl
  | cons y ys ih =>
    rw [met, met]
    by_cases hy : i ≤ y ∧ p y
    · rw [if_pos hy, if_pos ⟨hy.1, (h y hy.1).mp hy.2⟩]
      rw [ih fun x hx => h x (by omega)]
    · rw [if_neg hy, if_neg fun hq => hy ⟨hq.1, (h y hq.1).mpr hq.2⟩]

/-- An index that is not the next. -/
lemma met_succ (h : l.head? ≠ some i) : met p i l = met p (i + 1) l := by
  cases l with
  | nil => rfl
  | cons y ys =>
    have hne : y ≠ i := fun hy => h (by rw [hy]; rfl)
    have hle : i ≤ y ↔ i + 1 ≤ y := by omega
    simp only [met, hle]

lemma met_eq_nil (h : l.head? = some i) : met p (i + 1) l = [] := by
  cases l with
  | nil => rfl
  | cons y ys =>
    obtain rfl : y = i := Option.some_inj.mp h
    rw [met, if_neg (by omega)]

lemma met_eq_cons (h : l.head? = some i) (hp : p i) : met p i l = i :: met p (i + 1) l.tail := by
  cases l with
  | nil => cases h
  | cons y ys =>
    obtain rfl : y = i := Option.some_inj.mp h
    rw [met, if_pos ⟨le_rfl, hp⟩, List.tail_cons]

lemma met_of_not (h : ∀ x, i ≤ x → ¬p x) : met p i l = [] := by
  cases l with
  | nil => rfl
  | cons y ys => rw [met, if_neg fun hy => h y hy.1 hy.2]

/-! ## Sizes -/

lemma oidsSize_self : oidsSize n n ints shorts = 0 := by
  have hwide : wide n n ints = [] := met_of_not fun x hx => by omega
  have hnarrow : narrow n n ints shorts = [] := met_of_not fun x hx => by omega
  rw [oidsSize, hwide, hnarrow, Nat.sub_self]
  rfl

/-- A sub-identifier of the 32-bit table takes four bytes. -/
lemma oidsSize_wide (hi : i < n) (h : ints.head? = some i) :
    oidsSize n i ints shorts = 4 + oidsSize n (i + 1) ints.tail shorts := by
  have hwide : wide n i ints = i :: wide n (i + 1) ints.tail := met_eq_cons h hi
  have hnarrow : narrow n i ints shorts = narrow n (i + 1) ints.tail shorts := by
    by_cases hk : shorts.head? = some i
    · -- the index is in both tables: the second one is never passed
      have hstuck : narrow n (i + 1) ints.tail shorts = [] := met_eq_nil hk
      rw [hstuck, narrow]
      cases shorts with
      | nil => rfl
      | cons y ys =>
        obtain rfl : y = i := Option.some_inj.mp hk
        rw [met, if_neg]
        rintro ⟨-, -, hnot⟩
        exact hnot (by rw [hwide]; exact List.mem_cons_self)
    · rw [narrow, met_succ hk, narrow]
      apply met_congr
      intro x hx
      have hne : x ≠ i := by omega
      rw [hwide, List.mem_cons, or_iff_right hne]
  rw [oidsSize, hwide, hnarrow, oidsSize, List.length_cons]
  omega

/-- One of the 16-bit table takes two. -/
lemma oidsSize_narrow (hi : i < n) (h : ints.head? ≠ some i) (hk : shorts.head? = some i) :
    oidsSize n i ints shorts = 2 + oidsSize n (i + 1) ints shorts.tail := by
  have hwide : wide n i ints = wide n (i + 1) ints := met_succ h
  have hnot : i ∉ wide n i ints := by
    rw [hwide]
    intro hmem
    have := le_of_mem_met hmem
    omega
  have hnarrow : narrow n i ints shorts = i :: narrow n (i + 1) ints shorts.tail := by
    rw [narrow, met_eq_cons hk ⟨hi, hnot⟩, narrow, hwide]
  rw [oidsSize, hnarrow, hwide, oidsSize, List.length_cons]
  omega

lemma oidsSize_byte (hi : i < n) (h : ints.head? ≠ some i) (hk : shorts.head? ≠ some i) :
    oidsSize n i ints shorts = 1 + oidsSize n (i + 1) ints shorts := by
  have hwide : wide n i ints = wide n (i + 1) ints := met_succ h
  have hnarrow : narrow n i ints shorts = narrow n (i + 1) ints shorts := by
    rw [narrow, met_succ hk, narrow, hwide]
  rw [oidsSize, hnarrow, hwide, oidsSize]
  omega

/-! ## The loops -/

lemma retrieveIndexes_fst : (retrieveIndexes bytes j curr n).1 = readIndexes bytes curr n := by
  induction n generalizing j curr with
  | zero => rfl
  | succ n ih =>
    show _ :: (retrieveIndexes bytes (j + 1) (curr + 1) n).1 = _
    rw [ih, readIndexes]

lemma length_readIndexes : (readIndexes bytes curr n).length = n := by
  induction n generalizing curr with
  | zero => rfl
  | succ n ih => rw [readIndexes, List.length_cons, ih]

/-- The indexes are read in bounds if they end in the digest. -/
lemma retrieveIndexes_inBounds (hj : j + n ≤ 32) (hcurr : curr ≤ b.digest) :
    (∀ a ∈ (retrieveIndexes bytes j curr n).2, a.InBounds b) ↔ curr + n ≤ b.digest := by
  induction n generalizing j curr with
  | zero => exact ⟨fun _ => hcurr, fun _ a ha => by cases ha⟩
  | succ n ih =>
    show (∀ a ∈ Access.digest curr :: .index j :: (retrieveIndexes bytes (j + 1) (curr + 1) n).2,
      a.InBounds b) ↔ _
    rw [List.forall_mem_cons, List.forall_mem_cons]
    constructor
    · rintro ⟨hread, -, hrest⟩
      have hlt : curr < b.digest := hread
      have := (ih (by omega) (by omega)).mp hrest
      omega
    · intro hle
      have hlt : curr < b.digest := by omega
      have hindex : j < 32 := by omega
      exact ⟨hlt, hindex, (ih (by omega) (by omega)).mpr (by omega)⟩

/-- The first indexes lie in the table. -/
lemma look_inBounds (h : l.length ≤ 32) : ∀ a ∈ look l j, a.InBounds b := by
  intro a ha
  rw [look] at ha
  split_ifs at ha with hj
  · rw [List.mem_singleton.mp ha]
    show j < 32
    omega
  · cases ha

/-- The values are read in bounds if the size that is announced is. -/
lemma retrieveOids_inBounds (hints : ints.length ≤ 32) (hshorts : shorts.length ≤ 32) (hn : i + n = x)
    (hcurr : curr ≤ b.digest) (hi : i + rootLen ≤ b.handle) :
    (∀ a ∈ (retrieveOids bytes rootLen ints shorts n i curr j k).2, a.InBounds b) ↔
      curr + oidsSize x i (ints.drop j) (shorts.drop k) ≤ b.digest ∧ x + rootLen ≤ b.handle := by
  induction n generalizing i curr j k with
  | zero =>
    obtain rfl : i = x := hn
    rw [oidsSize_self]
    exact ⟨fun _ => ⟨hcurr, hi⟩, fun _ a ha => by cases ha⟩
  | succ n ih =>
    have hix : i < x := by omega
    have hlook : ∀ l : List ℕ, ∀ j, l.length ≤ 32 → ∀ a ∈ look l j, a.InBounds b := fun l j h => look_inBounds h
    rw [retrieveOids]
    by_cases hint : ints[j]? = some i
    · rw [if_pos hint, oidsSize_wide hix (by rw [List.head?_drop]; exact hint), List.tail_drop]
      dsimp only
      rw [List.forall_mem_append, List.forall_mem_append]
      constructor
      · rintro ⟨⟨-, hmine⟩, hrest⟩
        have hread : curr + 3 < b.digest := hmine (.digest (curr + 3)) (by simp)
        have hstore : i + rootLen < b.handle := hmine (.handle (i + rootLen)) (by simp)
        have := (ih (by omega) (by omega) (by omega)).mp hrest
        omega
      · rintro ⟨hread, hstore⟩
        refine ⟨⟨hlook _ _ hints, ?_⟩, (ih (by omega) (by omega) (by omega)).mpr (by omega)⟩
        intro a ha
        simp only [List.mem_cons, List.not_mem_nil, or_false] at ha
        obtain rfl | rfl | rfl | rfl | rfl := ha <;> simp only [Access.InBounds] <;> omega
    · rw [if_neg hint]
      have hhead : (ints.drop j).head? ≠ some i := by rwa [List.head?_drop]
      by_cases hshort : shorts[k]? = some i
      · rw [if_pos hshort, oidsSize_narrow hix hhead (by rw [List.head?_drop]; exact hshort), List.tail_drop]
        dsimp only
        rw [List.forall_mem_append, List.forall_mem_append, List.forall_mem_append]
        constructor
        · rintro ⟨⟨-, hmine⟩, hrest⟩
          have hread : curr + 1 < b.digest := hmine (.digest (curr + 1)) (by simp)
          have hstore : i + rootLen < b.handle := hmine (.handle (i + rootLen)) (by simp)
          have := (ih (by omega) (by omega) (by omega)).mp hrest
          omega
        · rintro ⟨hread, hstore⟩
          refine ⟨⟨⟨hlook _ _ hints, hlook _ _ hshorts⟩, ?_⟩, (ih (by omega) (by omega) (by omega)).mpr (by omega)⟩
          intro a ha
          simp only [List.mem_cons, List.not_mem_nil, or_false] at ha
          obtain rfl | rfl | rfl := ha <;> simp only [Access.InBounds] <;> omega
      · rw [if_neg hshort, oidsSize_byte hix hhead (by rwa [List.head?_drop])]
        dsimp only
        rw [List.forall_mem_append, List.forall_mem_append, List.forall_mem_append]
        constructor
        · rintro ⟨⟨-, hmine⟩, hrest⟩
          have hread : curr < b.digest := hmine (.digest curr) (by simp)
          have hstore : i + rootLen < b.handle := hmine (.handle (i + rootLen)) (by simp)
          have := (ih (by omega) (by omega) (by omega)).mp hrest
          omega
        · rintro ⟨hread, hstore⟩
          refine ⟨⟨⟨hlook _ _ hints, hlook _ _ hshorts⟩, ?_⟩, (ih (by omega) (by omega) (by omega)).mpr (by omega)⟩
          intro a ha
          simp only [List.mem_cons, List.not_mem_nil, or_false] at ha
          obtain rfl | rfl := ha <;> simp only [Access.InBounds] <;> omega

/-! ## The decoders -/

variable {maxOidLen : ℕ} {expcontext : ExportContext} {cfg : ProxyConfig} {hash : HashMap ProxyHandle}
  {t : DigestType}

lemma get_lt {f : BitField} {v m : ℕ} (hm : 2 ^ f.width = m) : f.get v < m := by
  rw [← hm]
  exact Nat.mod_lt _ (Nat.two_pow_pos _)

lemma nodeTypeOfFlag_eq_none_iff : nodeTypeOfFlag (typeFlag.get (header bytes)) = none ↔
    typeFlag.get (header bytes) = 0 := by
  have hlt : typeFlag.get (header bytes) < 4 := get_lt rfl
  generalize typeFlag.get (header bytes) = flag at hlt ⊢
  interval_cases flag <;> simp [nodeTypeOfFlag]

lemma snmpExpandHandle_none (ht : t.IsNfs) (hflag : nodeTypeOfFlag (typeFlag.get (header bytes)) = none) :
    snmpExpandHandle expcontext t bytes = (.inval, none, fields) := by
  rcases ht with rfl | rfl | rfl <;> simp only [snmpExpandHandle, hflag]

lemma snmpExpandHandle_some {type : NodeType} (ht : t.IsNfs)
    (hflag : nodeTypeOfFlag (typeFlag.get (header bytes)) = some type) :
    snmpExpandHandle expcontext t bytes = expandOids expcontext type bytes := by
  rcases ht with rfl | rfl | rfl <;> simp only [snmpExpandHandle, hflag]

/-- The places in the two tables are the tables from there on. -/
lemma retrieveOids_fst : (retrieveOids bytes rootLen ints shorts n i curr j k).1 =
    readOids bytes n i curr (ints.drop j) (shorts.drop k) := by
  induction n generalizing i curr j k with
  | zero => rfl
  | succ n ih =>
    rw [retrieveOids, readOids, List.head?_drop, List.head?_drop, List.tail_drop, List.tail_drop]
    split_ifs
    · show _ :: (retrieveOids bytes rootLen ints shorts n (i + 1) (curr + 4) (j + 1) k).1 = _
      rw [ih]
    · show _ :: (retrieveOids bytes rootLen ints shorts n (i + 1) (curr + 2) j (k + 1)).1 = _
      rw [ih]
    · show _ :: (retrieveOids bytes rootLen ints shorts n (i + 1) (curr + 1) j k).1 = _
      rw [ih]

/-- Without its accesses the function is the one of the digests of handles. -/
theorem snmpExpandHandle_eq (expcontext : ExportContext) (t : DigestType) (bytes : Mem) :
    ((snmpExpandHandle expcontext t bytes).1, (snmpExpandHandle expcontext t bytes).2.1) =
      expandHandle expcontext t bytes := by
  have hnfs (ht : t.IsNfs) : ((snmpExpandHandle expcontext t bytes).1,
      (snmpExpandHandle expcontext t bytes).2.1) = expandHandle expcontext .nfsv2 bytes := by
    cases hflag : nodeTypeOfFlag (typeFlag.get (header bytes)) with
    | none =>
      rw [snmpExpandHandle_none ht hflag]
      simp only [expandHandle, hflag]
    | some type =>
      rw [snmpExpandHandle_some ht hflag]
      simp only [expandHandle, hflag, expandOids, retrieveOids_fst, retrieveIndexes_fst, List.drop_zero]
  cases t with
  | nfsv2 => exact hnfs (by simp [DigestType.IsNfs])
  | nfsv3 => exact hnfs (by simp [DigestType.IsNfs])
  | nfsv4 => exact hnfs (by simp [DigestType.IsNfs])
  | fileid2 => rfl
  | fileid3 => rfl
  | fileid4 => rfl

/-- All accesses are in bounds if the digest announces no more than there is. -/
lemma expandOids_inBounds (hroot : expcontext.rootHandle.oidTab.length ≤ maxOidLen) (hdigest : 2 ≤ b.digest)
    (hb : b.handle = maxOidLen) {type : NodeType} :
    (∀ a ∈ (expandOids expcontext type bytes).2.2, a.InBounds b) ↔ snmpSize bytes ≤ b.digest ∧
      expcontext.rootHandle.oidTab.length + relativeOidLen.get (header bytes) ≤ maxOidLen := by
  have hshort : nbShortOids.get (header bytes) < 32 := get_lt rfl
  have hint : nbIntOids.get (header bytes) < 16 := get_lt rfl
  have hfields : ∀ a ∈ fields, a.InBounds b := by
    intro a ha
    simp only [fields, List.mem_cons, List.not_mem_nil, or_false] at ha
    obtain rfl | rfl := ha <;> simp only [Access.InBounds] <;> omega
  have hcopied : ∀ a ∈ (List.range expcontext.rootHandle.oidTab.length).map Access.handle, a.InBounds b := by
    intro a ha
    obtain ⟨entry, hentry, rfl⟩ := List.mem_map.mp ha
    have := List.mem_range.mp hentry
    show entry < b.handle
    omega
  have hcharTab : charTab = 2 := rfl
  unfold expandOids snmpSize
  dsimp only
  simp only [List.forall_mem_append, retrieveIndexes_fst]
  constructor
  · rintro ⟨⟨⟨-, hshorts⟩, hints⟩, hoids⟩
    have h₁ := (retrieveIndexes_inBounds (by omega) (by omega)).mp hshorts
    have h₂ := (retrieveIndexes_inBounds (by omega) (by omega)).mp hints
    have h₃ := (retrieveOids_inBounds (by rw [length_readIndexes]; omega) (by rw [length_readIndexes]; omega)
      (Nat.zero_add _) (by omega) (by omega)).mp hoids
    rw [List.drop_zero, List.drop_zero] at h₃
    omega
  · rintro ⟨hsize, hlen⟩
    refine ⟨⟨⟨⟨hfields, hcopied⟩, ?_⟩, ?_⟩, ?_⟩
    · exact (retrieveIndexes_inBounds (by omega) (by omega)).mpr (by omega)
    · exact (retrieveIndexes_inBounds (by omega) (by omega)).mpr (by omega)
    · apply (retrieveOids_inBounds (by rw [length_readIndexes]; omega) (by rw [length_readIndexes]; omega)
        (Nat.zero_add _) (by omega) (by omega)).mpr
      rw [List.drop_zero, List.drop_zero]
      omega

lemma two_le_digestSize : 2 ≤ digestSize t := by
  cases t <;> decide

/-- The decoder of SNMP has no check, so it is right only where nothing is to be refused. -/
lemma snmpLawful_iff (hroot : expcontext.rootHandle.oidTab.length ≤ maxOidLen) (ht : t.IsNfs) :
    SnmpLawful maxOidLen expcontext t bytes ↔
      typeFlag.get (header bytes) = 0 ∨ SnmpFits maxOidLen expcontext t bytes := by
  have hsize := two_le_digestSize (t := t)
  unfold SnmpLawful
  cases hflag : nodeTypeOfFlag (typeFlag.get (header bytes)) with
  | none =>
    rw [snmpExpandHandle_none ht hflag]
    refine ⟨fun _ => .inl (nodeTypeOfFlag_eq_none_iff.mp hflag), fun _ => ⟨?_, fun _ => by decide⟩⟩
    intro a ha
    simp only [fields, List.mem_cons, List.not_mem_nil, or_false] at ha
    obtain rfl | rfl := ha <;> simp only [Access.InBounds] <;> omega
  | some type =>
    have hzero : typeFlag.get (header bytes) ≠ 0 := by
      intro hzero
      rw [nodeTypeOfFlag_eq_none_iff.mpr hzero] at hflag
      cases hflag
    rw [snmpExpandHandle_some ht hflag, expandOids_inBounds hroot hsize rfl, or_iff_right hzero]
    exact ⟨fun h => h.1, fun h => ⟨h, fun hnot => absurd h hnot⟩⟩

/-! ## The proxy -/

/-- The copy is in bounds if every byte of the handle is. -/
lemma finish_inBounds {before : List Access} {nfs4fh : NfsFh4} {type : UInt32} {fileid : UInt64} :
    (∀ a ∈ (finish before nfs4fh type fileid).2.2, a.InBounds b) ↔
      (∀ a ∈ before, a.InBounds b) ∧ proxyFilehandleMaxLen ≤ b.handle ∧
        ∀ i < nfs4fh.len.toNat, (nfs4fh.access i).InBounds b ∧ i < b.handle := by
  show (∀ a ∈ before ++ (List.map Access.handle (List.range proxyFilehandleMaxLen) ++
    List.flatMap (fun i => [nfs4fh.access i, .handle i]) (List.range nfs4fh.len.toNat)), a.InBounds b) ↔ _
  rw [List.forall_mem_append, List.forall_mem_append]
  apply and_congr_right'
  apply and_congr
  · constructor
    · intro h
      have hlast : proxyFilehandleMaxLen - 1 < b.handle :=
        h (.handle (proxyFilehandleMaxLen - 1)) (List.mem_map.mpr ⟨_, by decide, rfl⟩)
      have hmax : proxyFilehandleMaxLen = 128 := rfl
      omega
    · intro h a ha
      obtain ⟨entry, hentry, rfl⟩ := List.mem_map.mp ha
      have := List.mem_range.mp hentry
      show entry < b.handle
      omega
  · simp only [List.mem_flatMap, List.mem_range, forall_exists_index, and_imp]
    constructor
    · intro h i hi
      exact ⟨h _ i hi (by simp), h (.handle i) i hi (by simp)⟩
    · intro h a i hi ha
      simp only [List.mem_cons, List.not_mem_nil, or_false] at ha
      obtain rfl | rfl := ha
      · exact (h i hi).1
      · exact (h i hi).2

/-- The handles of NFSv2 and NFSv3 are mapped. -/
def Mapped (cfg : ProxyConfig) : Prop := cfg.handleMapping = true ∧ cfg.enableHandleMapping = true

/-- Without the mapping nothing is expanded. -/
lemma proxyExpandHandle_unmapped (ht : t = .nfsv2 ∨ t = .nfsv3) (hmapped : ¬Mapped cfg) :
    proxyExpandHandle cfg hash t bytes = (.notsupp, none, []) := by
  have hcfg : cfg.handleMapping = false ∨ cfg.enableHandleMapping = false := by
    cases hm : cfg.handleMapping with
    | false => exact .inl rfl
    | true =>
      cases he : cfg.enableHandleMapping with
      | false => exact .inr rfl
      | true => exact absurd ⟨hm, he⟩ hmapped
  rcases ht with rfl | rfl <;> rcases hcfg with h | h <;> simp [proxyExpandHandle, h]

variable (hash bytes) in
/-- With the mapping the table answers. -/
lemma proxyExpandHandle_mapped (ht : t = .nfsv2 ∨ t = .nfsv3) (hmapped : Mapped cfg) :
    (hash (mapHdl bytes) = none →
      proxyExpandHandle cfg hash t bytes = (.stale, none, (List.range 16).map .digest)) ∧
    ∀ h, hash (mapHdl bytes) = some h → proxyExpandHandle cfg hash t bytes =
      finish ((List.range 16).map .digest) (extractFh h) h.objectTypeReminder h.fileid4 := by
  constructor
  · intro hnone
    rcases ht with rfl | rfl <;>
      simp [proxyExpandHandle, hmapped.1, hmapped.2, handleMapGetFH, hnone]
  · intro h hsome
    rcases ht with rfl | rfl <;>
      simp [proxyExpandHandle, hmapped.1, hmapped.2, handleMapGetFH, hsome]

lemma reads_inBounds (hb : 16 ≤ b.digest) : ∀ a ∈ (List.range 16).map Access.digest, a.InBounds b := by
  intro a ha
  obtain ⟨off, hoff, rfl⟩ := List.mem_map.mp ha
  have := List.mem_range.mp hoff
  show off < b.digest
  omega

/-- The handle of the map has to fit. -/
lemma proxyLawful_map_iff (ht : t = .nfsv2 ∨ t = .nfsv3) :
    ProxyLawful cfg hash t bytes ↔ ¬Mapped cfg ∨ ProxyFits hash t bytes := by
  have hv4 : t ≠ .nfsv4 := by
    rcases ht with rfl | rfl <;> decide
  have hdigest : 16 ≤ digestSize t := by
    rcases ht with rfl | rfl <;> decide
  have hreads : ∀ a ∈ (List.range 16).map Access.digest, a.InBounds ⟨digestSize t, proxyFilehandleMaxLen⟩ :=
    reads_inBounds hdigest
  unfold ProxyLawful ProxyFits
  rw [if_neg hv4]
  by_cases hmapped : Mapped cfg
  swap
  · rw [proxyExpandHandle_unmapped ht hmapped]
    exact ⟨fun _ => .inl hmapped, fun _ => ⟨fun a ha => (by cases ha), fun _ => by decide⟩⟩
  obtain ⟨hstale, hfound⟩ := proxyExpandHandle_mapped bytes hash ht hmapped
  rw [or_iff_right (not_not_intro hmapped)]
  cases hlookup : hash (mapHdl bytes) with
  | none =>
    rw [hstale hlookup]
    refine ⟨fun _ h hh => (by cases hh), fun _ => ⟨hreads, fun _ => by decide⟩⟩
  | some h =>
    rw [hfound h hlookup, finish_inBounds]
    constructor
    · rintro ⟨⟨-, -, hentries⟩, -⟩ h' hh'
      obtain rfl := Option.some_inj.mp hh'
      by_contra hlong
      -- the byte behind the array
      have := (hentries proxyFilehandleMaxLen (by show _ < h.srvHandleLen.toNat; omega)).2
      exact absurd this (lt_irrefl _)
    · intro hfits
      have hlen : h.srvHandleLen.toNat ≤ proxyFilehandleMaxLen := hfits h rfl
      refine ⟨⟨hreads, le_rfl, fun i hi => ?_⟩, fun hnot => absurd hfits hnot⟩
      have hlt : i < proxyFilehandleMaxLen := lt_of_lt_of_le hi hlen
      exact ⟨hlt, hlt⟩

/-- The length in the digest has to fit. -/
lemma proxyLawful_v4_iff : ProxyLawful cfg hash .nfsv4 bytes ↔ ProxyFits hash .nfsv4 bytes := by
  unfold ProxyLawful ProxyFits proxyExpandHandle
  rw [if_pos rfl, finish_inBounds]
  dsimp only
  have hsize : digestSize .nfsv4 = 93 := rfl
  constructor
  · rintro ⟨⟨-, -, hbytes⟩, -⟩
    constructor
    · by_contra hlong
      -- the byte behind the digest
      have hlt : 16 + (digestSize .nfsv4 - 16) < digestSize .nfsv4 :=
        (hbytes (digestSize .nfsv4 - 16) (by omega)).1
      omega
    · by_contra hlong
      have := (hbytes proxyFilehandleMaxLen (by omega)).2
      exact absurd this (lt_irrefl _)
  · rintro hfits
    refine ⟨⟨reads_inBounds (by decide), le_rfl, fun i hi => ⟨?_, ?_⟩⟩, fun hnot => absurd hfits hnot⟩
    · show 16 + i < digestSize .nfsv4
      omega
    · omega

/-- A digest is expanded within the bounds, or refused, exactly if it has no type or announces no more than fits;
for the proxy, if it is of NFSv2 or NFSv3 and these are not mapped, or if the handle fits. -/
theorem lawful_iff (maxOidLen : ℕ) (expcontext : ExportContext)
    (hroot : expcontext.rootHandle.oidTab.length ≤ maxOidLen) (cfg : ProxyConfig) (hash : HashMap ProxyHandle)
    (t : DigestType) (ht : t.IsNfs) (bytes : Mem) :
    (SnmpLawful maxOidLen expcontext t bytes ↔
      typeFlag.get (header bytes) = 0 ∨ SnmpFits maxOidLen expcontext t bytes) ∧
    (ProxyLawful cfg hash t bytes ↔ (t ≠ .nfsv4 ∧ ¬Mapped cfg) ∨ ProxyFits hash t bytes) := by
  refine ⟨snmpLawful_iff hroot ht, ?_⟩
  rcases ht with rfl | rfl | rfl
  · rw [proxyLawful_map_iff (.inl rfl), ne_eq, eq_false (show ¬DigestType.nfsv2 = .nfsv4 by decide), not_false_eq_true,
      true_and]
  · rw [proxyLawful_map_iff (.inr rfl), ne_eq, eq_false (show ¬DigestType.nfsv3 = .nfsv4 by decide), not_false_eq_true,
      true_and]
  · rw [proxyLawful_v4_iff]
    exact ⟨.inr, fun h => h.resolve_left fun hne => hne.1 rfl⟩

/-- A leaf with 31 sub-identifiers, of which a digest of NFSv2 holds 27; for the proxy, a handle of no bytes. -/
def longDigest : Mem := fun off => if off = 0 then 127 else 0

theorem lawful_iff_long :
    (SnmpLawful 128 ⟨⟨[1, 3, 6], .root⟩⟩ .nfsv2 longDigest ↔
      typeFlag.get (header longDigest) = 0 ∨ SnmpFits 128 ⟨⟨[1, 3, 6], .root⟩⟩ .nfsv2 longDigest) ∧
    (ProxyLawful ⟨true, true⟩ (fun _ => none) .nfsv2 longDigest ↔
      (DigestType.nfsv2 ≠ .nfsv4 ∧ ¬Mapped ⟨true, true⟩) ∨ ProxyFits (fun _ => none) .nfsv2 longDigest) :=
  lawful_iff 128 ⟨⟨[1, 3, 6], .root⟩⟩ (by decide) ⟨true, true⟩ (fun _ => none) .nfsv2 (.inl rfl) longDigest

/-- A digest that announces a handle of 78 bytes behind the first 16 of its 93. -/
def longProxyDigest : Mem := fun off => if off = 12 then 78 else 0

/-- Neither decoder stays within the bounds. -/
theorem not_lawful_of_long :
    (¬∀ maxOidLen expcontext, expcontext.rootHandle.oidTab.length ≤ maxOidLen → ∀ t : DigestType, t.IsNfs →
      ∀ bytes, SnmpLawful maxOidLen expcontext t bytes) ∧
    ¬∀ cfg hash, ∀ t : DigestType, t.IsNfs → ∀ bytes, ProxyLawful cfg hash t bytes := by
  constructor
  · intro h
    have hlawful := h 128 ⟨⟨[1, 3, 6], .root⟩⟩ (by decide) .nfsv2 (.inl rfl) longDigest
    rw [snmpLawful_iff (by decide) (.inl rfl)] at hlawful
    revert hlawful
    unfold SnmpFits
    decide
  · intro h
    have hlawful := h ⟨true, true⟩ (fun _ => none) .nfsv4 (.inr (.inr rfl)) longProxyDigest
    rw [proxyLawful_v4_iff] at hlawful
    revert hlawful
    unfold ProxyFits
    decide

end Ganesha.Fsal.Expand
