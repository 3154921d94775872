import Mathlib.Data.List.Perm.Basic
import Mathlib.Order.Basic

/-!
# Reading a directory of XFS

`XFSFSAL_readdir` of `FSAL/FSAL_XFS/fsal_dirs.c`. An open directory is the list of what `getdents` is going to
return; nothing changes the directory. The system calls for an entry are parameters, and so is the size of the
array of the caller.
-/

namespace Ganesha.Fsal.Readdir

/-- The bytes of a name. -/
abbrev Name := List UInt8

def dot : Name := [46]

def dotDot : Name := [46, 46]

/-- `struct linux_dirent`. -/
structure LinuxDirent where
  dIno : UInt64
  dOff : UInt64
  dName : Name
  deriving DecidableEq

/-- What a call of `getdents` stores: at least one entry. -/
structure Block where
  entries : List LinuxDirent
  entries_ne_nil : entries ≠ []

/-- What `getdents` is going to return: a block, or `-1` with an `errno`. Then it returns 0. -/
abbrev Descriptor := List (Except ℕ Block)

/-- The status: `posix2fsal_error` of an `errno`, or the status of a function that failed. -/
inductive Status (Error : Type)
  | noError
  | nameTooLong
  | posixError (errno : ℕ)
  | failed (st : Error)

/-- `FSAL_IS_ERROR`. -/
def Status.isError {Error : Type} : Status Error → Bool
  | .noError => false
  | _ => true

/-- The calls for an entry. `fsal_internal_fd2handle` and the functions after it are those of the FSAL. -/
structure Calls (Handle Stat Attributes Error : Type) where
  openat : Name → Except ℕ ℕ
  fstatat : Name → Except ℕ Stat
  fd2handle : ℕ → Except Error Handle
  inum2handle : Stat → Except Error Handle
  posix2fsalAttributes : Stat → Except Error Attributes
  getattrs : Handle → Except Error Attributes

def eloop : ℕ := 40

/-- `FSAL_MAX_NAME_LEN`, that is `NAME_MAX`. -/
def fsalMaxNameLen : ℕ := 255

/-- `fsal_dirent_t`; no attributes stand for `FSAL_ATTR_RDATTR_ERR`. -/
structure FsalDirent (Handle Attributes : Type) where
  handle : Handle
  name : Name
  cookie : UInt64
  attributes : Option Attributes

variable {Handle Stat Attributes Error : Type} (calls : Calls Handle Stat Attributes Error)

/-- The handle and the attributes of an entry. -/
def getObject (name : Name) : Except (Status Error) (Handle × Option Attributes) :=
  -- `FSAL_str2name`
  if fsalMaxNameLen ≤ name.length then .error .nameTooLong
  else
    match calls.openat name with
    | .ok tmpfd =>
      match calls.fd2handle tmpfd with
      | .error st => .error (.failed st)
      | .ok handle => .ok (handle, (calls.getattrs handle).toOption)
    | .error errno =>
      -- not a symbolic link; the code that is returned is that of `errsv`, which is 0
      if errno ≠ eloop then .error (.posixError 0)
      else
        match calls.fstatat name with
        | .error errno => .error (.posixError errno)
        | .ok buffstat =>
          match calls.inum2handle buffstat with
          | .error st => .error (.failed st)
          | .ok handle =>
            match calls.posix2fsalAttributes buffstat with
            | .error st => .error (.failed st)
            | .ok attributes => .ok (handle, some attributes)

/-- The `for` loop over a block, with the entries that are stored. -/
def readBlock (maxDirEntries : ℕ) : List LinuxDirent → List (FsalDirent Handle Attributes) →
    Status Error × List (FsalDirent Handle Attributes)
  | [], pdirent => (.noError, pdirent)
  | dp :: rest, pdirent =>
    if ¬pdirent.length < maxDirEntries then (.noError, pdirent)
    -- skip . and ..
    else if dp.dName = dot ∨ dp.dName = dotDot then readBlock maxDirEntries rest pdirent
    else
      match getObject calls dp.dName with
      | .error st => (st, pdirent)
      | .ok (handle, attributes) =>
        readBlock maxDirEntries rest (pdirent ++ [⟨handle, dp.dName, dp.dOff, attributes⟩])

/-- What a call leaves: its status, the entries, `end_of_dir` and the descriptor. -/
structure Result (Handle Attributes Error : Type) where
  status : Status Error
  pdirent : List (FsalDirent Handle Attributes)
  endOfDir : Bool
  fd : Descriptor

/-- The `while` loop. -/
def readBlocks (maxDirEntries : ℕ) : Descriptor → List (FsalDirent Handle Attributes) → Result Handle Attributes Error
  | [], pdirent =>
    if ¬pdirent.length < maxDirEntries then ⟨.noError, pdirent, false, []⟩ else ⟨.noError, pdirent, true, []⟩
  | next :: fd, pdirent =>
    if ¬pdirent.length < maxDirEntries then ⟨.noError, pdirent, false, next :: fd⟩
    else
      match next with
      | .error errno => ⟨.posixError errno, pdirent, false, fd⟩
      | .ok block =>
        let (st, pdirent) := readBlock calls maxDirEntries block.entries pdirent
        if st.isError then ⟨st, pdirent, false, fd⟩ else readBlocks maxDirEntries fd pdirent

/-- `XFSFSAL_readdir`, with the descriptor that it leaves and `end_position`. The position to start from is not
used: the calls of `rewinddir` and `seekdir` are commented out. -/
def readdir (fd : Descriptor) (_startPosition : UInt64) (maxDirEntries : ℕ) (endPosition : UInt64) :
    Result Handle Attributes Error × UInt64 :=
  let result := readBlocks calls maxDirEntries fd []
  (result, (result.pdirent.getLast?.map FsalDirent.cookie).getD endPosition)

/-- After some calls for one descriptor: what they have returned, where the last one ended, and whether one has
failed. -/
structure Session (Handle Attributes : Type) where
  fd : Descriptor
  position : UInt64
  returned : List (FsalDirent Handle Attributes)
  endOfDir : Bool
  failed : Bool

/-- The first `k` calls, each from where the last one ended. The `i`th has room for `maxDirEntries i` entries. -/
def session (fd : Descriptor) (maxDirEntries : ℕ → ℕ) : ℕ → Session Handle Attributes
  | 0 => ⟨fd, 0, [], false, false⟩
  | k + 1 =>
    let s := session fd maxDirEntries k
    let (result, position) := readdir calls s.fd s.position (maxDirEntries k) s.position
    { fd := result.fd
      position := position
      returned := s.returned ++ result.pdirent
      endOfDir := result.endOfDir
      failed := s.failed || result.status.isError }

/-- The names of entries other than . and .. -/
def realNames (entries : List LinuxDirent) : List Name :=
  (entries.map LinuxDirent.dName).filter fun name => ¬(name = dot ∨ name = dotDot)

/-- Those of a block. -/
def namesOf : Except ℕ Block → List Name
  | .ok block => realNames block.entries
  | .error _ => []

/-- The entries that are to be returned. -/
def names (fd : Descriptor) : List Name := fd.flatMap namesOf

/-- The calls come to an end, and until then they have not failed and have returned each entry once. -/
def Complete (fd : Descriptor) (maxDirEntries : ℕ → ℕ) : Prop :=
  ∃ k, (session calls fd maxDirEntries (k + 1)).endOfDir = true ∧
    (∀ i ≤ k, (session calls fd maxDirEntries i).endOfDir = false) ∧
    (session calls fd maxDirEntries (k + 1)).failed = false ∧
    ((session calls fd maxDirEntries (k + 1)).returned.map FsalDirent.name).Perm (names fd)

/-- The calls for an entry succeed. -/
def Convertible (name : Name) : Prop := ∃ object, getObject calls name = .ok object

/-- All the system calls succeed. -/
def Readable (fd : Descriptor) : Prop :=
  (∀ next ∈ fd, ∃ block, next = .ok block) ∧ ∀ name ∈ names fd, Convertible calls name

/-- The entries of each block fit in the room that is left in the call that reads it: `room` in the call `k`. -/
def Aligned (maxDirEntries : ℕ → ℕ) : ℕ → ℕ → Descriptor → Prop
  | _, _, [] => True
  | k, room, next :: fd =>
    (namesOf next).length ≤ room ∧
      if (namesOf next).length < room then Aligned maxDirEntries k (room - (namesOf next).length) fd
      else Aligned maxDirEntries (k + 1) (maxDirEntries (k + 1)) fd

/-! ## What is kept -/

/-- The names that the calls return: of each block, as many as there is room for. -/
def kept (maxDirEntries : ℕ → ℕ) : ℕ → ℕ → Descriptor → List Name
  | _, _, [] => []
  | k, room, next :: fd =>
    (namesOf next).take room ++
      if (namesOf next).length < room then kept maxDirEntries k (room - (namesOf next).length) fd
      else kept maxDirEntries (k + 1) (maxDirEntries (k + 1)) fd

section Kept

variable {maxDirEntries : ℕ → ℕ} {k room : ℕ} {fd : Descriptor} {next : Except ℕ Block}

lemma names_cons : names (next :: fd) = namesOf next ++ names fd := List.flatMap_cons

/-- No more entries than there are names. -/
lemma length_kept_le : (kept maxDirEntries k room fd).length ≤ (names fd).length := by
  induction fd generalizing k room with
  | nil => exact Nat.le_refl _
  | cons next fd ih =>
    rw [kept, names_cons, List.length_append, List.length_append]
    have htake : ((namesOf next).take room).length ≤ (namesOf next).length := List.length_take_le' _ _
    split_ifs
    · exact Nat.add_le_add htake ih
    · exact Nat.add_le_add htake ih

/-- If no block is cut, all names are kept. -/
lemma kept_eq (h : Aligned maxDirEntries k room fd) : kept maxDirEntries k room fd = names fd := by
  induction fd generalizing k room with
  | nil => rfl
  | cons next fd ih =>
    rw [Aligned] at h
    obtain ⟨hroom, hrest⟩ := h
    rw [kept, names_cons, List.take_of_length_le hroom]
    by_cases hlt : (namesOf next).length < room
    · rw [if_pos hlt] at hrest ⊢
      rw [ih hrest]
    · rw [if_neg hlt] at hrest ⊢
      rw [ih hrest]

/-- If all names are kept, no block was cut. -/
lemma aligned_of_length (h : (names fd).length ≤ (kept maxDirEntries k room fd).length) :
    Aligned maxDirEntries k room fd := by
  induction fd generalizing k room with
  | nil => trivial
  | cons next fd ih =>
    rw [kept, names_cons, List.length_append, List.length_append, List.length_take] at h
    rw [Aligned]
    by_cases hlt : (namesOf next).length < room
    · rw [if_pos hlt] at h ⊢
      exact ⟨Nat.le_of_lt hlt, ih (by omega)⟩
    · rw [if_neg hlt] at h ⊢
      have hrest : (kept maxDirEntries (k + 1) (maxDirEntries (k + 1)) fd).length ≤ (names fd).length :=
        length_kept_le
      exact ⟨by omega, ih (by omega)⟩

lemma kept_perm_iff : (kept maxDirEntries k room fd).Perm (names fd) ↔ Aligned maxDirEntries k room fd :=
  ⟨fun h => aligned_of_length (Nat.le_of_eq h.length_eq.symm), fun h => kept_eq h ▸ List.Perm.refl _⟩

end Kept

/-! ## One block -/

variable {calls} {maxDirEntries : ℕ} {entries : List LinuxDirent} {pdirent : List (FsalDirent Handle Attributes)}

lemma realNames_cons_dot {dp : LinuxDirent} (h : dp.dName = dot ∨ dp.dName = dotDot) :
    realNames (dp :: entries) = realNames entries := by
  rw [realNames, List.map_cons, List.filter_cons_of_neg (by rw [decide_eq_true_eq]; exact not_not_intro h)]
  rfl

lemma realNames_cons {dp : LinuxDirent} (h : ¬(dp.dName = dot ∨ dp.dName = dotDot)) :
    realNames (dp :: entries) = dp.dName :: realNames entries := by
  rw [realNames, List.map_cons, List.filter_cons_of_pos (by rw [decide_eq_true_eq]; exact h)]
  rfl

/-- An object that cannot be had is an error. -/
lemma isError_of_getObject {name : Name} {st : Status Error} (h : getObject calls name = .error st) :
    st.isError = true := by
  unfold getObject at h
  by_cases hlong : fsalMaxNameLen ≤ name.length
  · rw [if_pos hlong] at h
    cases h
    rfl
  rw [if_neg hlong] at h
  cases hopen : calls.openat name with
  | ok tmpfd =>
    rw [hopen] at h
    cases hhandle : calls.fd2handle tmpfd <;> simp only [hhandle, reduceCtorEq, Except.error.injEq] at h
    rw [← h]
    rfl
  | error errno =>
    rw [hopen] at h
    dsimp only at h
    by_cases hloop : errno ≠ eloop
    · rw [if_pos hloop] at h
      cases h
      rfl
    rw [if_neg hloop] at h
    cases hstat : calls.fstatat name with
    | error errno =>
      simp only [hstat, Except.error.injEq] at h
      rw [← h]
      rfl
    | ok buffstat =>
      cases hhandle : calls.inum2handle buffstat <;>
        cases hattributes : calls.posix2fsalAttributes buffstat <;>
          simp only [hstat, hhandle, hattributes, reduceCtorEq, Except.error.injEq] at h <;>
            (rw [← h]; rfl)

/-- A block whose names can be converted is read without an error. -/
lemma readBlock_noError (h : ∀ name ∈ realNames entries, Convertible calls name) :
    (readBlock calls maxDirEntries entries pdirent).1 = .noError := by
  induction entries generalizing pdirent with
  | nil => rfl
  | cons dp rest ih =>
    rw [readBlock]
    by_cases hfull : ¬pdirent.length < maxDirEntries
    · rw [if_pos hfull]
    rw [if_neg hfull]
    by_cases hdot : dp.dName = dot ∨ dp.dName = dotDot
    · rw [if_pos hdot]
      rw [realNames_cons_dot hdot] at h
      exact ih h
    · rw [if_neg hdot]
      rw [realNames_cons hdot] at h
      obtain ⟨object, hobject⟩ := h _ List.mem_cons_self
      rw [hobject]
      exact ih fun name hname => h name (List.mem_cons_of_mem _ hname)

/-- A block that is read gives its names up to the room that is left. -/
lemma readBlock_names (hfit : pdirent.length ≤ maxDirEntries)
    (h : (readBlock calls maxDirEntries entries pdirent).1 = .noError) :
    (readBlock calls maxDirEntries entries pdirent).2.map FsalDirent.name =
      pdirent.map FsalDirent.name ++ (realNames entries).take (maxDirEntries - pdirent.length) := by
  induction entries generalizing pdirent with
  | nil =>
    rw [readBlock, realNames, List.map_nil, List.filter_nil, List.take_nil, List.append_nil]
  | cons dp rest ih =>
    rw [readBlock] at h ⊢
    by_cases hfull : ¬pdirent.length < maxDirEntries
    · rw [if_pos hfull]
      have hzero : maxDirEntries - pdirent.length = 0 := by omega
      rw [hzero, List.take_zero, List.append_nil]
    rw [if_neg hfull] at h ⊢
    by_cases hdot : dp.dName = dot ∨ dp.dName = dotDot
    · rw [if_pos hdot] at h ⊢
      rw [realNames_cons_dot hdot]
      exact ih hfit h
    · rw [if_neg hdot] at h ⊢
      rw [realNames_cons hdot]
      cases hobject : getObject calls dp.dName with
      | error st =>
        rw [hobject] at h
        obtain rfl : st = .noError := h
        cases isError_of_getObject hobject
      | ok object =>
        rw [hobject] at h
        dsimp only at h ⊢
        have hlen : (pdirent ++ [(⟨object.1, dp.dName, dp.dOff, object.2⟩ : FsalDirent Handle Attributes)]).length =
            pdirent.length + 1 := by
          rw [List.length_append]
          rfl
        rw [ih (by omega) h, hlen, List.map_append, List.append_assoc]
        obtain ⟨n, hn⟩ : ∃ n, maxDirEntries - pdirent.length = n + 1 := ⟨maxDirEntries - pdirent.length - 1, by omega⟩
        rw [hn, List.take_succ_cons, show maxDirEntries - (pdirent.length + 1) = n by omega]
        rfl

/-- What is listed was converted. -/
lemma convertible_of_readBlock {d : FsalDirent Handle Attributes}
    (h : d ∈ (readBlock calls maxDirEntries entries pdirent).2) : d ∈ pdirent ∨ Convertible calls d.name := by
  induction entries generalizing pdirent with
  | nil => exact .inl h
  | cons dp rest ih =>
    rw [readBlock] at h
    by_cases hfull : ¬pdirent.length < maxDirEntries
    · rw [if_pos hfull] at h
      exact .inl h
    rw [if_neg hfull] at h
    by_cases hdot : dp.dName = dot ∨ dp.dName = dotDot
    · rw [if_pos hdot] at h
      exact ih h
    · rw [if_neg hdot] at h
      cases hobject : getObject calls dp.dName with
      | error st =>
        rw [hobject] at h
        exact .inl h
      | ok object =>
        rw [hobject] at h
        obtain hmem | hconv := ih h
        · obtain hmem | rfl := List.mem_append.mp hmem |>.imp id List.mem_singleton.mp
          · exact .inl hmem
          · exact .inr ⟨object, hobject⟩
        · exact .inr hconv

/-! ## One call -/

variable {fd : Descriptor}

lemma readBlocks_nil : readBlocks calls maxDirEntries [] pdirent =
    ⟨.noError, pdirent, decide (pdirent.length < maxDirEntries), []⟩ := by
  unfold readBlocks
  by_cases hlt : pdirent.length < maxDirEntries
  · rw [if_neg (not_not_intro hlt), decide_eq_true hlt]
  · rw [if_pos hlt, decide_eq_false hlt]

lemma readBlocks_full (h : ¬pdirent.length < maxDirEntries) :
    readBlocks calls maxDirEntries fd pdirent = ⟨.noError, pdirent, false, fd⟩ := by
  cases fd with
  | nil => rw [readBlocks_nil, decide_eq_false h]
  | cons next fd => cases next <;> rw [readBlocks, if_pos h]

lemma readBlocks_ok {block : Block} (hlt : pdirent.length < maxDirEntries)
    (h : (readBlock calls maxDirEntries block.entries pdirent).1.isError = false) :
    readBlocks calls maxDirEntries (.ok block :: fd) pdirent =
      readBlocks calls maxDirEntries fd (readBlock calls maxDirEntries block.entries pdirent).2 := by
  rw [readBlocks, if_neg (not_not_intro hlt)]
  dsimp only
  rw [h, if_neg Bool.false_ne_true]

lemma readBlocks_failed {block : Block} (hlt : pdirent.length < maxDirEntries)
    (h : (readBlock calls maxDirEntries block.entries pdirent).1.isError = true) :
    readBlocks calls maxDirEntries (.ok block :: fd) pdirent =
      ⟨(readBlock calls maxDirEntries block.entries pdirent).1,
        (readBlock calls maxDirEntries block.entries pdirent).2, false, fd⟩ := by
  rw [readBlocks, if_neg (not_not_intro hlt)]
  dsimp only
  rw [if_pos h]

/-- A call that does not fail leaves the end of the descriptor, and nothing at the end of the directory. -/
lemma readBlocks_suffix (h : (readBlocks calls maxDirEntries fd pdirent).status.isError = false) :
    ∃ pre, fd = pre ++ (readBlocks calls maxDirEntries fd pdirent).fd ∧
      (∀ next ∈ pre, ∃ block, next = .ok block) ∧
      ((readBlocks calls maxDirEntries fd pdirent).endOfDir = true →
        (readBlocks calls maxDirEntries fd pdirent).fd = []) := by
  induction fd generalizing pdirent with
  | nil =>
    rw [readBlocks_nil]
    exact ⟨[], rfl, (fun next hnext => by cases hnext), fun _ => rfl⟩
  | cons next fd ih =>
    by_cases hfull : pdirent.length < maxDirEntries
    swap
    · rw [readBlocks_full hfull]
      exact ⟨[], rfl, (fun next hnext => by cases hnext), fun heod => by cases heod⟩
    cases next with
    | error errno =>
      rw [readBlocks, if_neg (not_not_intro hfull)] at h
      cases h
    | ok block =>
      cases hread : (readBlock calls maxDirEntries block.entries pdirent).1.isError with
      | true =>
        rw [readBlocks_failed hfull hread, hread] at h
        cases h
      | false =>
        rw [readBlocks_ok hfull hread] at h ⊢
        obtain ⟨pre, hpre, hok, heod⟩ := ih h
        refine ⟨.ok block :: pre, by rw [List.cons_append, ← hpre], ?_, heod⟩
        intro next hnext
        obtain rfl | hnext := List.mem_cons.mp hnext
        · exact ⟨block, rfl⟩
        · exact hok next hnext

/-- So it is over all blocks. -/
lemma convertible_of_readBlocks {d : FsalDirent Handle Attributes}
    (h : d ∈ (readBlocks calls maxDirEntries fd pdirent).pdirent) : d ∈ pdirent ∨ Convertible calls d.name := by
  induction fd generalizing pdirent with
  | nil =>
    rw [readBlocks_nil] at h
    exact .inl h
  | cons next fd ih =>
    by_cases hfull : pdirent.length < maxDirEntries
    swap
    · rw [readBlocks_full hfull] at h
      exact .inl h
    cases next with
    | error errno =>
      rw [readBlocks, if_neg (not_not_intro hfull)] at h
      exact .inl h
    | ok block =>
      have hblock : ∀ d ∈ (readBlock calls maxDirEntries block.entries pdirent).2,
          d ∈ pdirent ∨ Convertible calls d.name := fun d hd => convertible_of_readBlock hd
      cases hread : (readBlock calls maxDirEntries block.entries pdirent).1.isError with
      | true =>
        rw [readBlocks_failed hfull hread] at h
        exact hblock d h
      | false =>
        rw [readBlocks_ok hfull hread] at h
        exact (ih h).elim (hblock d) .inr

lemma Readable.tail {next : Except ℕ Block} (h : Readable calls (next :: fd)) : Readable calls fd := by
  refine ⟨fun next' hnext => h.1 next' (List.mem_cons_of_mem _ hnext), fun name hname => h.2 name ?_⟩
  rw [names_cons]
  exact List.mem_append_right _ hname

/-- A call with room in its array reads to the end of the directory, or fills the array; and the names that the
following calls are going to return are those that are kept of the rest. -/
lemma readBlocks_kept {room : ℕ → ℕ} {k : ℕ} (h : Readable calls fd) (hfit : pdirent.length < room k) :
    (readBlocks calls (room k) fd pdirent).status.isError = false ∧
    ((readBlocks calls (room k) fd pdirent).endOfDir = true ∧
        (readBlocks calls (room k) fd pdirent).pdirent.map FsalDirent.name =
          pdirent.map FsalDirent.name ++ kept room k (room k - pdirent.length) fd ∨
      (readBlocks calls (room k) fd pdirent).endOfDir = false ∧
        (readBlocks calls (room k) fd pdirent).fd.length < fd.length ∧
        (readBlocks calls (room k) fd pdirent).pdirent.map FsalDirent.name ++
            kept room (k + 1) (room (k + 1)) (readBlocks calls (room k) fd pdirent).fd =
          pdirent.map FsalDirent.name ++ kept room k (room k - pdirent.length) fd) := by
  induction fd generalizing pdirent with
  | nil =>
    rw [readBlocks_nil]
    exact ⟨rfl, .inl ⟨decide_eq_true hfit, by rw [kept, List.append_nil]⟩⟩
  | cons next fd ih =>
    obtain ⟨block, rfl⟩ := h.1 next List.mem_cons_self
    -- the names of the first block can be converted
    have hconv : ∀ name ∈ realNames block.entries, Convertible calls name := by
      intro name hname
      apply h.2
      rw [names_cons]
      exact List.mem_append_left _ hname
    have hnoError : (readBlock calls (room k) block.entries pdirent).1 = .noError := readBlock_noError hconv
    have hread : (readBlock calls (room k) block.entries pdirent).1.isError = false := by
      rw [hnoError]
      rfl
    have hnames := readBlock_names (Nat.le_of_lt hfit) hnoError
    rw [readBlocks_ok hfit hread]
    generalize (readBlock calls (room k) block.entries pdirent).2 = pdirent' at hnames ⊢
    have hlen : pdirent'.length = pdirent.length + min (room k - pdirent.length) (realNames block.entries).length := by
      have := congrArg List.length hnames
      rw [List.length_append, List.length_take, List.length_map, List.length_map] at this
      exact this
    rw [kept, show namesOf (.ok block) = realNames block.entries from rfl, ← List.append_assoc, ← hnames]
    by_cases hlt : (realNames block.entries).length < room k - pdirent.length
    · have hroom : room k - pdirent.length - (realNames block.entries).length = room k - pdirent'.length := by omega
      rw [if_pos hlt, hroom]
      obtain ⟨hok, hresult⟩ := ih h.tail (show pdirent'.length < room k by omega)
      refine ⟨hok, hresult.imp id fun hrest => ⟨hrest.1, ?_, hrest.2.2⟩⟩
      exact Nat.lt_succ_of_lt hrest.2.1
    · rw [if_neg hlt, readBlocks_full (by omega)]
      exact ⟨rfl, .inr ⟨rfl, Nat.lt_succ_self _, rfl⟩⟩

/-! ## The calls of a descriptor -/

section Session

variable {maxDirEntries : ℕ → ℕ} {k : ℕ}

lemma failed_succ (h : (session calls fd maxDirEntries (k + 1)).failed = false) :
    (session calls fd maxDirEntries k).failed = false ∧
      (readBlocks calls (maxDirEntries k) (session calls fd maxDirEntries k).fd []).status.isError = false :=
  Bool.or_eq_false_iff.mp h

/-- A session has read the first part of the directory. -/
lemma session_suffix (h : (session calls fd maxDirEntries k).failed = false) :
    ∃ pre, fd = pre ++ (session calls fd maxDirEntries k).fd ∧ (∀ next ∈ pre, ∃ block, next = .ok block) ∧
      ((session calls fd maxDirEntries k).endOfDir = true → (session calls fd maxDirEntries k).fd = []) := by
  induction k with
  | zero => exact ⟨[], rfl, (fun next hnext => by cases hnext), fun heod => by cases heod⟩
  | succ k ih =>
    obtain ⟨hbefore, hcall⟩ := failed_succ h
    obtain ⟨pre, hpre, hok, -⟩ := ih hbefore
    obtain ⟨pre', hpre', hok', heod⟩ := readBlocks_suffix hcall
    refine ⟨pre ++ pre', ?_, ?_, heod⟩
    · calc fd = pre ++ (session calls fd maxDirEntries k).fd := hpre
        _ = pre ++ (pre' ++ (readBlocks calls (maxDirEntries k) (session calls fd maxDirEntries k).fd []).fd) :=
          congrArg (pre ++ ·) hpre'
        _ = pre ++ pre' ++ (session calls fd maxDirEntries (k + 1)).fd := (List.append_assoc _ _ _).symm
    · intro next hnext
      exact (List.mem_append.mp hnext).elim (hok next) (hok' next)

/-- What is returned could be converted. -/
lemma convertible_of_session {d : FsalDirent Handle Attributes}
    (h : d ∈ (session calls fd maxDirEntries k).returned) : Convertible calls d.name := by
  induction k with
  | zero => cases h
  | succ k ih =>
    obtain h | h := List.mem_append.mp h
    · exact ih h
    · exact (convertible_of_readBlocks h).resolve_left List.not_mem_nil

lemma Readable.suffix {pre : Descriptor} (h : Readable calls (pre ++ fd)) : Readable calls fd := by
  induction pre with
  | nil => exact h
  | cons next pre ih => exact ih h.tail

/-- A session with room in each call gets to the end. -/
lemma session_ends (hroom : ∀ i, 0 < maxDirEntries i) (hfd : Readable calls fd)
    (hok : (session calls fd maxDirEntries k).failed = false)
    (hnot : ∀ i ≤ k, (session calls fd maxDirEntries i).endOfDir = false) :
    ∃ m, (session calls fd maxDirEntries (m + 1)).endOfDir = true ∧
      (∀ i ≤ m, (session calls fd maxDirEntries i).endOfDir = false) ∧
      (session calls fd maxDirEntries (m + 1)).failed = false ∧
      (session calls fd maxDirEntries (m + 1)).returned.map FsalDirent.name =
        (session calls fd maxDirEntries k).returned.map FsalDirent.name ++
          kept maxDirEntries k (maxDirEntries k) (session calls fd maxDirEntries k).fd := by
  induction hlen : (session calls fd maxDirEntries k).fd.length using Nat.strongRecOn generalizing k with
  | ind n ih =>
    obtain ⟨pre, hpre, -, -⟩ := session_suffix hok
    have hrest : Readable calls (session calls fd maxDirEntries k).fd := by
      rw [hpre] at hfd
      exact hfd.suffix
    obtain ⟨hcall, hcases⟩ := readBlocks_kept hrest
      (show ([] : List (FsalDirent Handle Attributes)).length < maxDirEntries k from hroom k)
    have hok' : (session calls fd maxDirEntries (k + 1)).failed = false := Bool.or_eq_false_iff.mpr ⟨hok, hcall⟩
    have hreturned : (session calls fd maxDirEntries (k + 1)).returned.map FsalDirent.name =
        (session calls fd maxDirEntries k).returned.map FsalDirent.name ++
          (readBlocks calls (maxDirEntries k) (session calls fd maxDirEntries k).fd []).pdirent.map FsalDirent.name :=
      List.map_append
    obtain ⟨heod, hnames⟩ | ⟨heod, hshorter, hnames⟩ := hcases
    · refine ⟨k, heod, hnot, hok', ?_⟩
      rw [hreturned, hnames]
      rfl
    · have hnot' : ∀ i ≤ k + 1, (session calls fd maxDirEntries i).endOfDir = false := by
        intro i hi
        obtain hi | rfl := Nat.le_or_eq_of_le_succ hi
        · exact hnot i hi
        · exact heod
      obtain ⟨m, hend, hbefore, hm, hall⟩ := ih _ (by rw [← hlen]; exact hshorter) hok' hnot' rfl
      refine ⟨m, hend, hbefore, hm, ?_⟩
      rw [hall, hreturned, List.append_assoc]
      exact congrArg _ hnames

/-- Only the last call says that it is the last. -/
lemma ends_once {m : ℕ} (hk : (session calls fd maxDirEntries (k + 1)).endOfDir = true)
    (hbefore : ∀ i ≤ k, (session calls fd maxDirEntries i).endOfDir = false)
    (hm : (session calls fd maxDirEntries (m + 1)).endOfDir = true)
    (hbefore' : ∀ i ≤ m, (session calls fd maxDirEntries i).endOfDir = false) : k = m := by
  obtain hlt | heq | hlt := Nat.lt_trichotomy k m
  · rw [hbefore' (k + 1) hlt] at hk
    cases hk
  · exact heq
  · rw [hbefore (m + 1) hlt] at hm
    cases hm

/-- A directory is read completely exactly if all the calls succeed for its entries and the entries of each block
fit in what is left of the array of the call that reads it. -/
theorem complete_iff (calls : Calls Handle Stat Attributes Error) (fd : Descriptor) (maxDirEntries : ℕ → ℕ)
    (hroom : ∀ i, 0 < maxDirEntries i) : Complete calls fd maxDirEntries ↔
      Readable calls fd ∧ Aligned maxDirEntries 0 (maxDirEntries 0) fd := by
  constructor
  · rintro ⟨k, heod, hbefore, hok, hperm⟩
    have hfd : Readable calls fd := by
      constructor
      · obtain ⟨pre, hpre, hblocks, hend⟩ := session_suffix hok
        rw [hend heod, List.append_nil] at hpre
        rwa [hpre]
      · intro name hname
        obtain ⟨d, hd, rfl⟩ := List.mem_map.mp (hperm.mem_iff.mpr hname)
        exact convertible_of_session hd
    obtain ⟨m, heod', hbefore', -, hall⟩ := session_ends (k := 0) hroom hfd rfl (fun i hi => by
      rw [Nat.le_zero.mp hi]
      rfl)
    obtain rfl := ends_once heod hbefore heod' hbefore'
    rw [hall] at hperm
    exact ⟨hfd, kept_perm_iff.mp hperm⟩
  · rintro ⟨hfd, haligned⟩
    obtain ⟨m, heod, hbefore, hok, hall⟩ := session_ends (k := 0) hroom hfd rfl (fun i hi => by
      rw [Nat.le_zero.mp hi]
      rfl)
    refine ⟨m, heod, hbefore, hok, ?_⟩
    rw [hall]
    exact kept_perm_iff.mpr haligned

/-- Calls for entries that are files. -/
def sampleCalls : Calls ℕ Unit Unit Unit := ⟨fun _ => .ok 3, fun _ => .ok (), .ok, fun _ => .ok 3, .ok, fun _ => .ok ()⟩

/-- A block with . and two files. -/
def sampleBlock : Block := ⟨[⟨1, 1, dot⟩, ⟨2, 2, [97]⟩, ⟨3, 3, [98]⟩], by decide⟩

theorem complete_iff_sample : Complete sampleCalls [.ok sampleBlock] (fun _ => 1) ↔
    Readable sampleCalls [.ok sampleBlock] ∧ Aligned (fun _ => 1) 0 1 [.ok sampleBlock] :=
  complete_iff sampleCalls [.ok sampleBlock] (fun _ => 1) fun _ => by decide

/-- A call with room for one entry loses the second one of a block. -/
theorem not_complete_of_room : ¬∀ fd maxDirEntries, (∀ i, 0 < maxDirEntries i) → Readable sampleCalls fd →
    Complete sampleCalls fd maxDirEntries := by
  intro h
  have hread : Readable sampleCalls [.ok sampleBlock] := by
    constructor
    · intro next hnext
      exact ⟨sampleBlock, List.mem_singleton.mp hnext⟩
    · intro name hname
      have hmem : name = [97] ∨ name = [98] := by
        have hnames : names [.ok sampleBlock] = [[97], [98]] := by decide
        rw [hnames] at hname
        simpa using hname
      obtain rfl | rfl := hmem
      · exact ⟨_, rfl⟩
      · exact ⟨_, rfl⟩
  obtain ⟨k, heod, hbefore, -, hperm⟩ := h [.ok sampleBlock] (fun _ => 1) (fun _ => by decide) hread
  have hend : (session sampleCalls [.ok sampleBlock] (fun _ => 1) (1 + 1)).endOfDir = true := by decide
  have hbefore' : ∀ i ≤ 1, (session sampleCalls [.ok sampleBlock] (fun _ => 1) i).endOfDir = false := by decide
  obtain rfl := ends_once heod hbefore hend hbefore'
  have hlen := hperm.length_eq
  revert hlen
  decide

end Session

end Ganesha.Fsal.Readdir
