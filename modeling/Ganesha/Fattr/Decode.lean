import Ganesha.Fattr.Common
import Ganesha.Limits

/-!
# From values to attributes of a file

`NFS_Protocols/nfs_proto_tools.c`: `nfs4_Fattr_To_FSAL_attr`. Memory that is read or written outside of
its bounds is the result `none`. The server runs on a little endian machine.
-/

namespace Ganesha.Fattr

/-- `fsal_nodetype_t`; `unset` is the 0 that is no type. -/
inductive FsalType
  | unset
  | fifo
  | chr
  | dir
  | blk
  | file
  | lnk
  | sock
  | xattr
  | junction
  deriving DecidableEq

/-- `fsal_time_t`. -/
structure FsalTime where
  seconds : ℕ
  nseconds : ℕ
  deriving DecidableEq

/-- The attributes of `fsal_attrib_list_t` that are set; `asked` are the bits of
`asked_attributes`. -/
structure FsalAttrib where
  asked : ℕ
  type : FsalType
  fileid : ℕ
  fsid : ℕ × ℕ
  numlinks : ℕ
  filesize : ℕ
  mode : ℕ
  owner : ℕ
  group : ℕ
  chgtime : FsalTime
  rawdev : ℕ × ℕ
  spaceused : ℕ
  atime : FsalTime
  ctime : FsalTime
  mtime : FsalTime
  deriving DecidableEq

def fsalAttrType : ℕ := 0x2
def fsalAttrSize : ℕ := 0x4
def fsalAttrFsid : ℕ := 0x8
def fsalAttrFileid : ℕ := 0x40
def fsalAttrMode : ℕ := 0x80
def fsalAttrOwner : ℕ := 0x200
def fsalAttrGroup : ℕ := 0x400
def fsalAttrRawdev : ℕ := 0x800
def fsalAttrAtime : ℕ := 0x1000
def fsalAttrCtime : ℕ := 0x4000
def fsalAttrMtime : ℕ := 0x8000
def fsalAttrSpaceused : ℕ := 0x10000
def fsalAttrChgtime : ℕ := 0x40000

/-- The size of `nfstime4`. -/
def sizeofNfstime4 : ℕ := 16

/-- The places of the list of attributes. -/
def attrmasklistSize : ℕ := fattr4MountedOnFileid

/-- What is outside of the function: the names of users and groups, and the time. -/
structure Env where
  utf82uid : List UInt8 → ℕ
  utf82gid : List UInt8 → ℕ
  now : ℕ

/-- The switch on the type of a file. -/
def fsalTypeOf : ℕ → FsalType
  | 1 => .file
  | 2 => .dir
  | 3 => .blk
  | 4 => .chr
  | 5 => .lnk
  | 6 => .sock
  | 7 => .fifo
  | _ => .unset

/-- A time that was read; the seconds are cut to 32 bits. -/
def timeOf (v : List UInt8) : FsalTime where
  seconds := be (v.take 8) % 2 ^ 32
  nseconds := be ((v.drop 8).take 4)

/-- An offset of 32 bits goes on. -/
def advance (offset n : ℕ) : ℕ := (offset + n) % 2 ^ 32

/-- The length of an opaque with its padding. -/
def padded (len : ℕ) : ℕ := (len + 3) / 4 * 4

variable (env : Env) (build : Build) (bytes : List UInt8)

/-- A value of a fixed size: `count` bytes are copied, and the offset goes on by the size of the table. -/
def decodeFixed (a count offset : ℕ) (set : List UInt8 → FsalAttrib) : Option (ℕ × FsalAttrib) :=
  (readAt bytes offset count).map fun v => (advance offset (build.sizeOf a), set v)

/-- The name of an owner or a group, which is copied to `buffer` with a 0 behind it. -/
def decodeName (offset : ℕ) (set : List UInt8 → FsalAttrib) : Option (ℕ × FsalAttrib) := do
  let len := be (← readAt bytes offset 4)
  let name ← readAt bytes (advance offset 4) len
  if len < maxnamlen then
    some (advance (advance offset 4) (padded len), set (name.takeWhile (· ≠ 0)))
  else none

/-- A time that is to be set: the one of the server, or the one that follows. -/
def decodeTimeSet (offset : ℕ) (set : FsalTime → FsalAttrib) : Option (ℕ × FsalAttrib) := do
  let setIt := be (← readAt bytes offset 4)
  if setIt = 0 then some (advance offset 4, set { seconds := env.now, nseconds := 0 })
  else
    let time ← readAt bytes (advance offset 4) sizeofNfstime4
    some (advance (advance offset 4) 12, set (timeOf time))

/-- One attribute in the loop of `nfs4_Fattr_To_FSAL_attr`: the new offset, and the attributes. -/
def decodeAttr (offset : ℕ) (attr : FsalAttrib) (a : ℕ) : Option (ℕ × FsalAttrib) :=
  match a with
  | fattr4Type => decodeFixed build bytes a 4 offset fun v =>
      { attr with type := fsalTypeOf (be v), asked := attr.asked ||| fsalAttrType }
  | fattr4Fileid => decodeFixed build bytes a 8 offset fun v =>
      { attr with fileid := be v, asked := attr.asked ||| fsalAttrFileid }
  | fattr4Fsid => decodeFixed build bytes a 16 offset fun v =>
      { attr with fsid := (be (v.take 8), be (v.drop 8)), asked := attr.asked ||| fsalAttrFsid }
  -- the flag is the one of the file id
  | fattr4Numlinks => decodeFixed build bytes a 4 offset fun v =>
      { attr with numlinks := be v, asked := attr.asked ||| fsalAttrFileid }
  | fattr4Size => decodeFixed build bytes a 8 offset fun v =>
      { attr with filesize := be v, asked := attr.asked ||| fsalAttrSize }
  | fattr4Mode => decodeFixed build bytes a 4 offset fun v =>
      { attr with mode := be v, asked := attr.asked ||| fsalAttrMode }
  | fattr4Owner => decodeName bytes offset fun name =>
      { attr with owner := env.utf82uid name, asked := attr.asked ||| fsalAttrOwner }
  | fattr4OwnerGroup => decodeName bytes offset fun name =>
      { attr with group := env.utf82gid name, asked := attr.asked ||| fsalAttrGroup }
  | fattr4Change => decodeFixed build bytes a 8 offset fun v =>
      { attr with
        chgtime := { seconds := be v % 2 ^ 32, nseconds := 0 }
        asked := attr.asked ||| fsalAttrChgtime }
  -- `nfs_ntohl64` of a number of 32 bits has them in the upper half, which is cut off
  | fattr4Rawdev => decodeFixed build bytes a 8 offset fun _ =>
      { attr with rawdev := (0, 0), asked := attr.asked ||| fsalAttrRawdev }
  | fattr4SpaceUsed => decodeFixed build bytes a 8 offset fun v =>
      { attr with spaceused := be v % 2 ^ 32, asked := attr.asked ||| fsalAttrSpaceused }
  | fattr4TimeAccess => decodeFixed build bytes a sizeofNfstime4 offset fun v =>
      { attr with atime := timeOf v, asked := attr.asked ||| fsalAttrAtime }
  | fattr4TimeMetadata => decodeFixed build bytes a sizeofNfstime4 offset fun v =>
      { attr with ctime := timeOf v, asked := attr.asked ||| fsalAttrCtime }
  | fattr4TimeModify => decodeFixed build bytes a sizeofNfstime4 offset fun v =>
      { attr with mtime := timeOf v, asked := attr.asked ||| fsalAttrMtime }
  | fattr4TimeAccessSet => decodeTimeSet env bytes offset fun time =>
      { attr with atime := time, asked := attr.asked ||| fsalAttrAtime }
  | fattr4TimeModifySet => decodeTimeSet env bytes offset fun time =>
      { attr with mtime := time, asked := attr.asked ||| fsalAttrMtime }
  | fattr4Filehandle => (readAt bytes offset 4).map fun len =>
      (advance (advance offset 4) (be len), attr)
  | fattr4RdattrError => decodeFixed build bytes a 4 offset fun _ => attr
  | _ => some (advance offset (build.sizeOf a), attr)

/-- The loop of `nfs4_Fattr_To_FSAL_attr`; the attributes that are not in the table are skipped. -/
def decodeLoop : List ℕ → ℕ → FsalAttrib → Option FsalAttrib
  | [], _, attr => some attr
  | a :: as, offset, attr =>
    if build.last < a then decodeLoop as offset attr
    else do
      let r ← decodeAttr env build bytes offset attr a
      decodeLoop as r.1 r.2

/-- `nfs4_Fattr_To_FSAL_attr`: 1 for success, and -1 for an argument that is badly formed. -/
def nfs4FattrToFsalAttr (attr : FsalAttrib) (f : Fattr4) : Option (ℤ × FsalAttrib) :=
  match f.attrVals with
  | none => some (-1, attr)
  | some bytes =>
    if f.attrs.length ≤ attrmasklistSize then
      (decodeLoop env build bytes f.attrs 0 { attr with asked := 0 }).map fun attr' => (1, attr')
    else none

/-! ## The values that a bitmap announces -/

/-- How many bytes the value of an attribute has that begins here; `none` if there is no room for its
first word. -/
def announced (a : ℕ) (rest : List UInt8) : Option ℕ :=
  match a with
  | fattr4Owner | fattr4OwnerGroup => (readAt rest 0 4).map fun len => 4 + padded (be len)
  | fattr4Filehandle => (readAt rest 0 4).map fun len => 4 + be len
  | fattr4TimeAccessSet | fattr4TimeModifySet =>
    (readAt rest 0 4).map fun setIt => if be setIt = 0 then 4 else 16
  | a => some (build.sizeOf a)

/-- The attributes of a list with the bytes from their value on; `none` if a value is not there as a
whole. -/
def values : List ℕ → List UInt8 → Option (List (ℕ × List UInt8))
  | [], _ => some []
  | a :: as, rest => do
    let n ← announced build a rest
    if n ≤ rest.length then (values as (rest.drop n)).map ((a, rest) :: ·) else none

/-- The values of the bitmap, without the attributes that are not in the table. -/
def Fattr4.values (f : Fattr4) : Option (List (ℕ × List UInt8)) :=
  Fattr.values build (f.attrs.filter (· ≤ build.last)) f.bytes

/-- The name of an owner has room in the buffer, and behind a time are four bytes more. -/
structure Readable (v : ℕ × List UInt8) : Prop where
  name : v.1 ∈ [fattr4Owner, fattr4OwnerGroup] → be (v.2.take 4) < maxnamlen
  time : v.1 ∈ [fattr4TimeAccess, fattr4TimeMetadata, fattr4TimeModify] →
    sizeofNfstime4 ≤ v.2.length
  timeSet : v.1 ∈ [fattr4TimeAccessSet, fattr4TimeModifySet] →
    be (v.2.take 4) = 0 ∨ 4 + sizeofNfstime4 ≤ v.2.length

instance (v : ℕ × List UInt8) : Decidable (Readable v) :=
  decidable_of_iff
    ((v.1 ∈ [fattr4Owner, fattr4OwnerGroup] → be (v.2.take 4) < maxnamlen) ∧
      (v.1 ∈ [fattr4TimeAccess, fattr4TimeMetadata, fattr4TimeModify] →
        sizeofNfstime4 ≤ v.2.length) ∧
      (v.1 ∈ [fattr4TimeAccessSet, fattr4TimeModifySet] →
        be (v.2.take 4) = 0 ∨ 4 + sizeofNfstime4 ≤ v.2.length))
    ⟨fun h => ⟨h.1, h.2.1, h.2.2⟩, fun h => ⟨h.name, h.time, h.timeSet⟩⟩

/-! ## One attribute -/

variable {env build bytes} {a n count offset : ℕ} {attr : FsalAttrib} {set : List UInt8 → FsalAttrib}
  {setTime : FsalTime → FsalAttrib}

/-- The function goes on with the next value exactly when this one is readable. -/
structure Decodes (bytes : List UInt8) (offset n a : ℕ) (r : Option (ℕ × FsalAttrib)) : Prop where
  readable : Readable (a, bytes.drop offset) → ∃ attr', r = some (offset + n, attr')
  fault : ¬ Readable (a, bytes.drop offset) → r = none

/-- Values of fixed size are always readable. -/
lemma readable_of_not_mem {rest : List UInt8}
    (h : a ∉ [fattr4Owner, fattr4OwnerGroup, fattr4TimeAccess, fattr4TimeMetadata, fattr4TimeModify,
      fattr4TimeAccessSet, fattr4TimeModifySet]) : Readable (a, rest) := by
  simp only [List.mem_cons, List.not_mem_nil, or_false, not_or] at h
  constructor
  all_goals
    simp only [List.mem_cons, List.not_mem_nil, or_false]
    intro ha
    omega

lemma advance_of_le (hlen : bytes.length < 2 ^ 32) (hle : offset + n ≤ bytes.length) :
    advance offset n = offset + n := Nat.mod_eq_of_lt (by omega)

lemma decodes_fixed (hlen : bytes.length < 2 ^ 32) (hle : offset + build.sizeOf a ≤ bytes.length)
    (hcount : count ≤ build.sizeOf a)
    (h : a ∉ [fattr4Owner, fattr4OwnerGroup, fattr4TimeAccess, fattr4TimeMetadata, fattr4TimeModify,
      fattr4TimeAccessSet, fattr4TimeModifySet]) :
    Decodes bytes offset (build.sizeOf a) a (decodeFixed build bytes a count offset set) where
  readable _ := by
    unfold decodeFixed
    rw [readAt_of_le (by omega), advance_of_le hlen hle]
    exact ⟨_, rfl⟩
  fault hno := absurd (readable_of_not_mem h) hno

/-- A time is twelve bytes. -/
lemma decodes_time (hlen : bytes.length < 2 ^ 32) (hle : offset + build.sizeOf a ≤ bytes.length)
    (h : a ∈ [fattr4TimeAccess, fattr4TimeMetadata, fattr4TimeModify]) :
    Decodes bytes offset (build.sizeOf a) a
      (decodeFixed build bytes a sizeofNfstime4 offset set) where
  readable hr := by
    have hroom := hr.time h
    rw [List.length_drop] at hroom
    unfold decodeFixed
    rw [readAt_of_le (by omega), advance_of_le hlen hle]
    exact ⟨_, rfl⟩
  fault hno := by
    have hroom : ¬ sizeofNfstime4 ≤ (bytes.drop offset).length := by
      intro hroom
      apply hno
      have hother : ∀ a ∈ [fattr4TimeAccess, fattr4TimeMetadata, fattr4TimeModify],
          a ∉ [fattr4Owner, fattr4OwnerGroup] ∧ a ∉ [fattr4TimeAccessSet, fattr4TimeModifySet] := by
        decide
      exact ⟨fun ha => absurd ha (hother a h).1, fun _ => hroom, fun ha => absurd ha (hother a h).2⟩
    rw [List.length_drop] at hroom
    unfold decodeFixed
    rw [readAt_of_lt (by omega)]
    rfl

/-- Reading from the rest of the buffer. -/
lemma readAt_drop (bytes : List UInt8) (offset count : ℕ) (h : offset ≤ bytes.length) :
    readAt (bytes.drop offset) 0 count = readAt bytes offset count := by
  unfold readAt
  rw [List.length_drop, List.drop_zero]
  split_ifs
  · rfl
  · omega
  · omega
  · rfl

lemma word_of_announced {len : List UInt8} (hoff : offset ≤ bytes.length)
    (h : readAt (bytes.drop offset) 0 4 = some len) :
    readAt bytes offset 4 = some len ∧ len = (bytes.drop offset).take 4 ∧ offset + 4 ≤ bytes.length := by
  rw [readAt_drop _ _ _ hoff] at h
  obtain ⟨hroom, rfl⟩ := readAt_eq_some.mp h
  exact ⟨h, rfl, hroom⟩

lemma le_padded (len : ℕ) : len ≤ padded len := by
  unfold padded
  omega

/-- An owner is a length and that many bytes. -/
lemma decodes_name (hlen : bytes.length < 2 ^ 32) (hoff : offset ≤ bytes.length)
    (hn : announced build a (bytes.drop offset) = some n) (hle : offset + n ≤ bytes.length)
    (h : a ∈ [fattr4Owner, fattr4OwnerGroup]) :
    Decodes bytes offset n a (decodeName bytes offset set) := by
  have hother : ∀ a ∈ [fattr4Owner, fattr4OwnerGroup],
      a ∉ [fattr4TimeAccess, fattr4TimeMetadata, fattr4TimeModify] ∧
        a ∉ [fattr4TimeAccessSet, fattr4TimeModifySet] := by decide
  have hannounced : announced build a (bytes.drop offset) =
      (readAt (bytes.drop offset) 0 4).map fun len => 4 + padded (be len) := by
    simp only [List.mem_cons, List.not_mem_nil, or_false] at h
    rcases h with rfl | rfl
    · rfl
    · rfl
  rw [hannounced, Option.map_eq_some_iff] at hn
  obtain ⟨len, hread, rfl⟩ := hn
  obtain ⟨hread, hword, hroom⟩ := word_of_announced hoff hread
  -- the value ends at a multiple of four
  have hpad := le_padded (be len)
  have hname : decodeName bytes offset set = if be len < maxnamlen then
      some (offset + (4 + padded (be len)),
        set (((bytes.drop (offset + 4)).take (be len)).takeWhile (· ≠ 0))) else none := by
    unfold decodeName
    rw [hread, advance_of_le hlen (by omega)]
    simp only [Option.bind_eq_bind, Option.bind_some]
    rw [readAt_of_le (by omega), advance_of_le hlen (by omega), Nat.add_assoc]
    rfl
  rw [hname]
  constructor
  · intro hr
    have hshort := hr.name h
    rw [← hword] at hshort
    rw [if_pos hshort]
    exact ⟨_, rfl⟩
  · intro hno
    rw [if_neg]
    intro hshort
    apply hno
    refine ⟨fun _ => ?_, fun ha => absurd ha (hother a h).1, fun ha => absurd ha (hother a h).2⟩
    rw [← hword]
    exact hshort

/-- A time to be set, from the client or the server. -/
lemma decodes_timeSet (hlen : bytes.length < 2 ^ 32) (hoff : offset ≤ bytes.length)
    (hn : announced build a (bytes.drop offset) = some n) (hle : offset + n ≤ bytes.length)
    (h : a ∈ [fattr4TimeAccessSet, fattr4TimeModifySet]) :
    Decodes bytes offset n a (decodeTimeSet env bytes offset setTime) := by
  have hother : ∀ a ∈ [fattr4TimeAccessSet, fattr4TimeModifySet],
      a ∉ [fattr4Owner, fattr4OwnerGroup] ∧
        a ∉ [fattr4TimeAccess, fattr4TimeMetadata, fattr4TimeModify] := by decide
  have hannounced : announced build a (bytes.drop offset) =
      (readAt (bytes.drop offset) 0 4).map fun setIt => if be setIt = 0 then 4 else 16 := by
    simp only [List.mem_cons, List.not_mem_nil, or_false] at h
    rcases h with rfl | rfl
    · rfl
    · rfl
  rw [hannounced, Option.map_eq_some_iff] at hn
  obtain ⟨setIt, hread, hn⟩ := hn
  obtain ⟨hread, hword, hroom⟩ := word_of_announced hoff hread
  have hset : decodeTimeSet env bytes offset setTime = if be setIt = 0 then
      some (offset + 4, setTime { seconds := env.now, nseconds := 0 })
      else (readAt bytes (offset + 4) sizeofNfstime4).map fun time =>
        (advance (offset + 4) 12, setTime (timeOf time)) := by
    unfold decodeTimeSet
    rw [hread, advance_of_le hlen (by omega)]
    simp only [Option.bind_eq_bind, Option.bind_some]
    split_ifs
    · rfl
    · cases readAt bytes (offset + 4) sizeofNfstime4 <;> rfl
  rw [hset]
  -- the time of the server has no value behind it
  by_cases hserver : be setIt = 0
  · rw [if_pos hserver] at hn
    rw [if_pos hserver, ← hn]
    constructor
    · intro _
      exact ⟨_, rfl⟩
    · intro hno
      refine absurd ⟨fun ha => absurd ha (hother a h).1, fun ha => absurd ha (hother a h).2,
        fun _ => Or.inl ?_⟩ hno
      rw [← hword]
      exact hserver
  · rw [if_neg hserver] at hn
    rw [if_neg hserver, ← hn]
    constructor
    · intro hr
      have hmore := hr.timeSet h
      rw [← hword, or_iff_right hserver, List.length_drop] at hmore
      rw [readAt_of_le (by omega), advance_of_le hlen (by omega), Nat.add_assoc]
      exact ⟨_, rfl⟩
    · intro hno
      rw [readAt_of_lt]
      · rfl
      · by_contra hmore
        apply hno
        refine ⟨fun ha => absurd ha (hother a h).1, fun ha => absurd ha (hother a h).2,
          fun _ => Or.inr ?_⟩
        rw [List.length_drop]
        omega

/-- One attribute: with its value in the buffer, the function goes on behind it, or reads or writes
outside. -/
lemma decodes_decodeAttr (hlen : bytes.length < 2 ^ 32) (hoff : offset ≤ bytes.length)
    (hn : announced build a (bytes.drop offset) = some n) (hle : offset + n ≤ bytes.length) :
    Decodes bytes offset n a (decodeAttr env build bytes offset attr a) := by
  -- the values whose size is the one of the table
  have hfixed : ∀ k set, announced build a (bytes.drop offset) = some (build.sizeOf a) →
      build.sizeOf a = k → a ∉ [fattr4Owner, fattr4OwnerGroup, fattr4TimeAccess, fattr4TimeMetadata,
        fattr4TimeModify, fattr4TimeAccessSet, fattr4TimeModifySet] →
      Decodes bytes offset n a (decodeFixed build bytes a k offset set) := by
    intro k set hsize hk hother
    rw [hsize] at hn
    rw [← Option.some.inj hn] at hle ⊢
    exact decodes_fixed hlen hle hk.ge hother
  have htime : ∀ set, announced build a (bytes.drop offset) = some (build.sizeOf a) →
      a ∈ [fattr4TimeAccess, fattr4TimeMetadata, fattr4TimeModify] →
      Decodes bytes offset n a (decodeFixed build bytes a sizeofNfstime4 offset set) := by
    intro set hsize hmem
    rw [hsize] at hn
    rw [← Option.some.inj hn] at hle ⊢
    exact decodes_time hlen hle hmem
  unfold decodeAttr
  split
  · exact hfixed 4 _ rfl (by cases build <;> rfl) (by decide)
  · exact hfixed 8 _ rfl (by cases build <;> rfl) (by decide)
  · exact hfixed 16 _ rfl (by cases build <;> rfl) (by decide)
  · exact hfixed 4 _ rfl (by cases build <;> rfl) (by decide)
  · exact hfixed 8 _ rfl (by cases build <;> rfl) (by decide)
  · exact hfixed 4 _ rfl (by cases build <;> rfl) (by decide)
  · exact decodes_name hlen hoff hn hle (by decide)
  · exact decodes_name hlen hoff hn hle (by decide)
  · exact hfixed 8 _ rfl (by cases build <;> rfl) (by decide)
  · exact hfixed 8 _ rfl (by cases build <;> rfl) (by decide)
  · exact hfixed 8 _ rfl (by cases build <;> rfl) (by decide)
  · exact htime _ rfl (by decide)
  · exact htime _ rfl (by decide)
  · exact htime _ rfl (by decide)
  · exact decodes_timeSet hlen hoff hn hle (by decide)
  · exact decodes_timeSet hlen hoff hn hle (by decide)
  · -- the handle is passed over, and nothing of it is read
    have hannounced : announced build fattr4Filehandle (bytes.drop offset) =
        (readAt (bytes.drop offset) 0 4).map fun len => 4 + be len := rfl
    rw [hannounced, Option.map_eq_some_iff] at hn
    obtain ⟨len, hread, rfl⟩ := hn
    obtain ⟨hread, -, -⟩ := word_of_announced hoff hread
    refine ⟨fun _ => ?_, fun hno => absurd (readable_of_not_mem (by decide)) hno⟩
    have hfirst : advance offset 4 = offset + 4 := advance_of_le hlen (by omega)
    rw [hread, Option.map_some, hfirst, advance_of_le hlen (by omega), Nat.add_assoc]
    exact ⟨_, rfl⟩
  · exact hfixed 4 _ rfl (by cases build <;> rfl) (by decide)
  · next hother =>
    have hsize : announced build a (bytes.drop offset) = some (build.sizeOf a) := by
      unfold announced
      split
      all_goals first | rfl | (exfalso; simp_all)
    rw [hsize] at hn
    rw [← Option.some.inj hn] at hle ⊢
    refine ⟨fun _ => ?_, fun hno => absurd (readable_of_not_mem ?_) hno⟩
    · rw [advance_of_le hlen hle]
      exact ⟨_, rfl⟩
    · simp only [List.mem_cons, List.not_mem_nil, or_false, not_or]
      refine ⟨?_, ?_, ?_, ?_, ?_, ?_, ?_⟩ <;> assumption

/-- The loop ends well exactly with a value for every attribute. -/
lemma decodeLoop_isSome (hlen : bytes.length < 2 ^ 32) (as : List ℕ) (hoff : offset ≤ bytes.length)
    (attr : FsalAttrib) {parts : List (ℕ × List UInt8)}
    (hparts : values build (as.filter (· ≤ build.last)) (bytes.drop offset) = some parts) :
    decodeLoop env build bytes as offset attr ≠ none ↔ ∀ v ∈ parts, Readable v := by
  induction as generalizing offset attr parts with
  | nil =>
    rw [← Option.some.inj hparts]
    simp [decodeLoop]
  | cons a as ih =>
    rw [decodeLoop]
    by_cases hlast : build.last < a
    · have hskip : (a :: as).filter (· ≤ build.last) = as.filter (· ≤ build.last) :=
        List.filter_cons_of_neg (by simpa using hlast)
      rw [hskip] at hparts
      rw [if_pos hlast]
      exact ih hoff attr hparts
    have hkeep : (a :: as).filter (· ≤ build.last) = a :: as.filter (· ≤ build.last) :=
      List.filter_cons_of_pos (by simpa using hlast)
    rw [hkeep, values, Option.bind_eq_bind, Option.bind_eq_some_iff] at hparts
    obtain ⟨n, hn, hparts⟩ := hparts
    rw [Option.ite_none_right_eq_some, Option.map_eq_some_iff] at hparts
    obtain ⟨hle, rest, hrest, rfl⟩ := hparts
    rw [List.length_drop] at hle
    rw [List.drop_drop] at hrest
    have hdecodes : Decodes bytes offset n a (decodeAttr env build bytes offset attr a) :=
      decodes_decodeAttr hlen hoff hn (by omega)
    rw [if_neg hlast, List.forall_mem_cons]
    by_cases hr : Readable (a, bytes.drop offset)
    · obtain ⟨attr', hattr⟩ := hdecodes.readable hr
      rw [hattr, Option.bind_eq_bind, Option.bind_some, and_iff_right hr]
      exact ih (by omega) attr' hrest
    · rw [hdecodes.fault hr]
      simp [hr]

/-- No memory is read or written outside of its bounds, and values of which bytes are missing are an
error. -/
structure DecodeLaw (env : Env) (build : Build) (attr : FsalAttrib) (f : Fattr4) : Prop where
  safe : nfs4FattrToFsalAttr env build attr f ≠ none
  error : f.values build = none → ∀ r, nfs4FattrToFsalAttr env build attr f = some r → r.1 ≠ 1

/-- The function is safe, and sees that bytes are missing, if and only if there is no buffer, or at
most 55 bits are set, all the values are in the buffer, the names have fewer than `MAXNAMLEN` bytes,
and four bytes more are behind each time that is read. -/
theorem decodeLaw_iff {env : Env} {build : Build} {attr : FsalAttrib} {f : Fattr4} :
    DecodeLaw env build attr f ↔ f.attrVals = none ∨
      f.attrs.length ≤ attrmasklistSize ∧
        ∃ parts, f.values build = some parts ∧ ∀ v ∈ parts, Readable v := by
  cases hvals : f.attrVals with
  | none =>
    have hresult : nfs4FattrToFsalAttr env build attr f = some (-1, attr) := by
      unfold nfs4FattrToFsalAttr
      rw [hvals]
    refine iff_of_true ⟨?_, ?_⟩ (Or.inl rfl)
    · rw [hresult]
      simp
    · intro _ r hr
      rw [hresult] at hr
      rw [← Option.some.inj hr]
      show (-1 : ℤ) ≠ 1
      decide
  | some bytes =>
    have hbytes : f.bytes = bytes := by
      unfold Fattr4.bytes
      rw [hvals]
      rfl
    have hlen : bytes.length < 2 ^ 32 := by
      rw [← hbytes]
      exact f.length_lt
    have hresult : nfs4FattrToFsalAttr env build attr f =
        if f.attrs.length ≤ attrmasklistSize then
          (decodeLoop env build bytes f.attrs 0 { attr with asked := 0 }).map fun attr' => (1, attr')
        else none := by
      unfold nfs4FattrToFsalAttr
      rw [hvals]
    have hloop : ∀ parts, f.values build = some parts →
        (decodeLoop env build bytes f.attrs 0 { attr with asked := 0 } ≠ none ↔
          ∀ v ∈ parts, Readable v) := by
      intro parts hparts
      refine decodeLoop_isSome hlen f.attrs (Nat.zero_le _) _ ?_
      rw [List.drop_zero, ← hbytes]
      exact hparts
    rw [or_iff_right (by simp)]
    constructor
    · rintro ⟨hsafe, herror⟩
      rw [hresult] at hsafe herror
      by_cases hbits : f.attrs.length ≤ attrmasklistSize
      swap
      · rw [if_neg hbits] at hsafe
        exact absurd rfl hsafe
      rw [if_pos hbits] at hsafe herror
      rw [ne_eq, Option.map_eq_none_iff] at hsafe
      refine ⟨hbits, ?_⟩
      obtain ⟨attr', hattr⟩ := Option.ne_none_iff_exists'.mp hsafe
      -- the function returns 1, so that nothing is missing
      cases hparts : f.values build with
      | none =>
        refine absurd rfl (herror hparts (1, attr') ?_)
        rw [hattr]
        rfl
      | some parts => exact ⟨parts, rfl, (hloop parts hparts).mp hsafe⟩
    · rintro ⟨hbits, parts, hparts, hreadable⟩
      constructor
      · rw [hresult, if_pos hbits, ne_eq, Option.map_eq_none_iff]
        exact (hloop parts hparts).mpr hreadable
      · intro hnone
        rw [hparts] at hnone
        cases hnone

/-- The attributes before a request. -/
def noAttrib : FsalAttrib where
  asked := 0
  type := .unset
  fileid := 0
  fsid := (0, 0)
  numlinks := 0
  filesize := 0
  mode := 0
  owner := 0
  group := 0
  chgtime := { seconds := 0, nseconds := 0 }
  rawdev := (0, 0)
  spaceused := 0
  atime := { seconds := 0, nseconds := 0 }
  ctime := { seconds := 0, nseconds := 0 }
  mtime := { seconds := 0, nseconds := 0 }

/-- An environment that knows no names. -/
def noNames : Env where
  utf82uid _ := 0
  utf82gid _ := 0
  now := 0

/-- The values of the mode and of a group with a name of two bytes. -/
def modeAndGroup : Fattr4 where
  attrmask := { len := 2, val := [0, 0x22] }
  attrVals := some [0, 0, 1, 0xa4, 0, 0, 0, 2, 0x64, 0x6d, 0, 0]
  length_lt := by decide

/-- A mode and the name of a group are decoded. -/
theorem decodeLaw_of_modeAndGroup : DecodeLaw noNames .nfs40 noAttrib modeAndGroup := by
  refine decodeLaw_iff.mpr (Or.inr ⟨by decide +kernel, _, rfl, by decide +kernel⟩)

/-- The size of a file is announced, and no byte is there. -/
def sizeWithoutBytes : Fattr4 where
  attrmask := { len := 1, val := [0x10] }
  attrVals := some [0, 0]
  length_lt := by decide

/-- Of a size with two bytes, six are read behind the buffer. -/
theorem not_decodeLaw_of_sizeWithoutBytes :
    ¬ DecodeLaw noNames .nfs40 noAttrib sizeWithoutBytes := by
  intro h
  have hsafe := h.safe
  revert hsafe
  decide +kernel

end Ganesha.Fattr
