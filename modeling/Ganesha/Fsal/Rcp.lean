import Ganesha.Fsal.OpenAccess
import Ganesha.Library.Transfer

/-!
# The copy between the local files and the back end

`POSIXFSAL_rcp` of `FSAL/FSAL_POSIX/fsal_rcp.c`, with `POSIXFSAL_read` and `POSIXFSAL_write` of
`FSAL/FSAL_POSIX/fsal_fileop.c` in the build without streams, at the current position. The source and the
target are different files; what the system does in each round of the copy is given.
-/

namespace Ganesha.Fsal.Rcp

open Library.Transfer

/-! ## The system -/

/-- What the system has for the read and the write of a round: an error, or a number of bytes. -/
structure Round where
  read : Except ℕ ℕ
  write : Except ℕ ℕ

/-- How much `read` gives at most. Before the end of the file that is not nothing. -/
def readSize (size : ℕ) (k : ℕ) : ℕ := min size (max k 1)

/-- `read`, where `rest` is what follows the position in the file. -/
def read (size : ℕ) (r : Except ℕ ℕ) (rest : List UInt8) : Except ℕ (List UInt8) :=
  r.map fun k => rest.take (readSize size k)

/-- `write`, where `target` is what precedes the position. It may write less than it is given. -/
def write (r : Except ℕ ℕ) (buffer target : List UInt8) : Except ℕ (List UInt8) :=
  r.map fun k => target ++ buffer.take k

def ebadf : ℕ := 9

/-- A transfer on a descriptor that may be `-1`. -/
def onDescriptor (opens : Bool) (r : Except ℕ ℕ) : Except ℕ ℕ := if opens = true then r else .error ebadf

/-! ## The copy -/

/-- The codes of the statuses of the copy. -/
inductive RcpStatus
  | fsal (status : Status)
  | io (errno : ℕ)
  | nomem (errno : ℕ)
  deriving DecidableEq

/-- `ERR_FSAL_NO_ERROR`. -/
def RcpStatus.noError : RcpStatus := .fsal .noError

/-- `POSIXFSAL_read`: the bytes and the end of the file. -/
def posixRead (opens : Bool) (bufferSize : ℕ) (r : Except ℕ ℕ) (rest : List UInt8) :
    Except RcpStatus (List UInt8 × Bool) :=
  match read bufferSize (onDescriptor opens r) rest with
  | .error _ => .error (.fsal (.posix ebadf))
  | .ok buffer => .ok (buffer, decide (buffer.length = 0 ∧ bufferSize ≠ 0))

/-- `POSIXFSAL_write`. The number of bytes that it returns is not used. -/
def posixWrite (opens : Bool) (r : Except ℕ ℕ) (buffer target : List UInt8) : Except RcpStatus (List UInt8) :=
  match write (onDescriptor opens r) buffer target with
  | .error _ => .error (.fsal (.posix ebadf))
  | .ok target => .ok target

def rcpBufferSize : ℕ := 10485760

/-- The read of a round: the bytes and `eof`. -/
def readBlock (toFs opens : Bool) (r : Except ℕ ℕ) (rest : List UInt8) : Except RcpStatus (List UInt8 × Bool) :=
  if toFs = true then
    match read rcpBufferSize r rest with
    | .error errno => .error (.io errno)
    | .ok buffer => .ok (buffer, decide (buffer.length = 0))
  else posixRead opens rcpBufferSize r rest

/-- The write of a round. -/
def writeBlock (toFs opens : Bool) (r : Except ℕ ℕ) (buffer target : List UInt8) :
    Except RcpStatus (List UInt8) :=
  if toFs = true then posixWrite opens r buffer target
  else
    match write r buffer target with
    | .error errno => .error (.io errno)
    | .ok target => .ok target

/-- What a copy leaves. -/
structure RcpResult where
  status : RcpStatus
  target : List UInt8
  deriving DecidableEq

/-- The read and write loop, from a round on. -/
def rcpLoop (toFs opens : Bool) (b : ℕ → Round) : ℕ → ℕ → List UInt8 → List UInt8 → Option RcpResult
  | 0, _, _, _ => none
  | fuel + 1, i, rest, target =>
    match readBlock toFs opens (b i).read rest with
    | .error status => some ⟨status, target⟩
    | .ok (buffer, eof) =>
      if eof = false ∨ toFs = false ∧ 0 < buffer.length then
        match writeBlock toFs opens (b i).write buffer target with
        | .error status => some ⟨status, target⟩
        | .ok target =>
          if eof = true then some ⟨.noError, target⟩
          else rcpLoop toFs opens b fuel (i + 1) (rest.drop buffer.length) target
      else some ⟨.noError, target⟩

def fsalRcpFsToLocal : UInt16 := 0x0001

def fsalRcpLocalToFs : UInt16 := 0x0002

def fsalRcpLocalCreat : UInt16 := 0x0010

def fsalRcpLocalExcl : UInt16 := 0x0020

/-- The arguments of the copy with what the system has for it: whether the pointers are there, the error of the
open of the local file, what is around the open of the back end, and the error of `Mem_Alloc`. -/
structure Call where
  given : Bool
  cred : Credential
  transferOpt : UInt16
  localErrno : Option ℕ
  fsal : Env
  memErrno : Option ℕ

def Call.toLocal (x : Call) : Bool := x.transferOpt &&& fsalRcpFsToLocal = fsalRcpFsToLocal

def Call.toFs (x : Call) : Bool := x.transferOpt &&& fsalRcpLocalToFs = fsalRcpLocalToFs

def fsFlags (toFs : Bool) : UInt16 := if toFs = true then fsalOWronly ||| fsalOTrunc else fsalORdonly

/-- A flag that is invalid towards the back end. -/
def Call.LocalFlag (x : Call) : Prop :=
  x.transferOpt &&& fsalRcpLocalCreat = fsalRcpLocalCreat ∨ x.transferOpt &&& fsalRcpLocalExcl = fsalRcpLocalExcl

instance (x : Call) : Decidable x.LocalFlag := inferInstanceAs (Decidable (_ ∨ _))

/-- `POSIXFSAL_rcp`, for at most a number of rounds. The open of a local target cuts it. -/
def posixRcp (fuel : ℕ) (x : Call) (b : ℕ → Round) (source target : List UInt8) : Option RcpResult :=
  if x.given = false then some ⟨.fsal .fault, target⟩
  else if x.toLocal = x.toFs then some ⟨.fsal .inval, target⟩
  else
    match x.localErrno with
    | some errno => some ⟨.fsal (.posix errno), target⟩
    | none =>
      if x.toFs = true ∧ x.LocalFlag then some ⟨.fsal .inval, target⟩
      else
        let r := posixOpen x.cred (fsFlags x.toFs) x.fsal (if x.toFs = true then target else source)
        let source := if x.toFs = true then source else r.content
        let target := if x.toFs = true then r.content else []
        if r.status ≠ .noError then some ⟨.fsal r.status, target⟩
        else
          match x.memErrno with
          | some errno => some ⟨.nomem errno, target⟩
          | none => rcpLoop x.toFs x.fsal.opens b fuel 0 source target

/-! ## What the property is about -/

/-- The loop ends, and without an error the target is the source. -/
structure Copied (x : Call) (b : ℕ → Round) (source target : List UInt8) : Prop where
  terminates : ∀ fuel, source.length < fuel → ∃ r, posixRcp fuel x b source target = some r
  equal : ∀ fuel r, posixRcp fuel x b source target = some r → r.status = .noError → r.target = source

/-- The right that the open of the copy asks for. -/
def copyRight (toFs : Bool) : UInt16 := (if toFs = true then fsalWOk else fsalROk) ||| fsalOwnerOk

/-- The copy is refused before its loop. -/
def Call.Refused (x : Call) : Prop :=
  x.given = false ∨ x.toLocal = x.toFs ∨ x.localErrno ≠ none ∨ (x.toFs = true ∧ x.LocalFlag) ∨
    x.fsal.path ≠ .noError ∨ posixTestAccess x.cred (copyRight x.toFs) (some x.fsal.stat) none ≠ .noError ∨
    x.memErrno ≠ none

/-- What the system has for the read of a round. -/
def readOf (toFs opens : Bool) (b : ℕ → Round) (i : ℕ) : Except ℕ ℕ :=
  if toFs = true then (b i).read else onDescriptor opens (b i).read

/-- What the system has for the write of a round. -/
def writeOf (toFs opens : Bool) (b : ℕ → Round) (i : ℕ) : Except ℕ ℕ :=
  if toFs = true then onDescriptor opens (b i).write else (b i).write

/-- The number of bytes, if there is no error. -/
def count (r : Except ℕ ℕ) : ℕ := (r.toOption).getD 0

/-- How much the read of a round takes. -/
def taken (toFs opens : Bool) (b : ℕ → Round) (i : ℕ) : ℕ := readSize rcpBufferSize (count (readOf toFs opens b i))

/-- There is an error. -/
def Fails (r : Except ℕ ℕ) : Prop := r.toOption = none

/-- The read of a round or, if something is left for it, its write has an error. -/
def ErrorAt (toFs opens : Bool) (b : ℕ → Round) (source : List UInt8) (i : ℕ) : Prop :=
  Fails (readOf toFs opens b i) ∨
    left (taken toFs opens b) source i ≠ [] ∧ Fails (writeOf toFs opens b i)

/-- There is an error in a round that comes no later than the one that finds the end of the source. -/
def Interrupted (toFs opens : Bool) (b : ℕ → Round) (source : List UInt8) : Prop :=
  ∃ i, ErrorAt toFs opens b source i ∧ ∀ j < i, left (taken toFs opens b) source j ≠ []

/-- Every write takes the whole of what the read of its round has taken. -/
def Complete (toFs opens : Bool) (b : ℕ → Round) (source : List UInt8) : Prop :=
  ∀ i, (piece (taken toFs opens b) source i).length ≤ count (writeOf toFs opens b i)

variable {toFs opens : Bool} {b : ℕ → Round} {source target : List UInt8} {i fuel : ℕ} {r : Except ℕ ℕ}
  {x : Call}

/-! ## A round -/

lemma readSize_pos (k : ℕ) : 0 < readSize rcpBufferSize k := by
  unfold readSize rcpBufferSize
  omega

lemma fails_of_error {errno : ℕ} (h : r = .error errno) : Fails r := by
  rw [Fails, h]
  rfl

lemma not_fails_of_ok {k : ℕ} (h : r = .ok k) : ¬ Fails r := by
  rw [Fails, h]
  exact Option.some_ne_none k

lemma fails_or_eq (r : Except ℕ ℕ) : (∃ errno, r = .error errno) ∨ r = .ok (count r) := by
  cases r with
  | error errno => exact .inl ⟨errno, rfl⟩
  | ok k => exact .inr rfl

/-- A read that fails is told. -/
lemma readBlock_of_fails (h : Fails (readOf toFs opens b i)) (rest : List UInt8) :
    ∃ status, status ≠ RcpStatus.noError ∧ readBlock toFs opens (b i).read rest = .error status := by
  rcases fails_or_eq (readOf toFs opens b i) with ⟨errno, he⟩ | hok
  · cases toFs with
    | true =>
      refine ⟨.io errno, RcpStatus.noConfusion, ?_⟩
      rw [readOf, if_pos rfl] at he
      rw [readBlock, if_pos rfl, read, he]
      rfl
    | false =>
      refine ⟨.fsal (.posix ebadf), by decide, ?_⟩
      rw [readOf, if_neg Bool.false_ne_true] at he
      rw [readBlock, if_neg Bool.false_ne_true, posixRead, read, he]
      rfl
  · exact absurd h (not_fails_of_ok hok)

/-- A read takes what it says from the source. -/
lemma readBlock_of_not_fails (h : ¬ Fails (readOf toFs opens b i)) (rest : List UInt8) :
    readBlock toFs opens (b i).read rest =
      .ok (rest.take (taken toFs opens b i), decide ((rest.take (taken toFs opens b i)).length = 0)) := by
  rcases fails_or_eq (readOf toFs opens b i) with ⟨errno, he⟩ | hok
  · exact absurd (fails_of_error he) h
  · cases toFs with
    | true =>
      rw [readBlock, if_pos rfl, read]
      rw [readOf, if_pos rfl] at hok
      rw [hok]
      rfl
    | false =>
      have hsize : rcpBufferSize ≠ 0 := by decide
      rw [readBlock, if_neg Bool.false_ne_true, posixRead, read]
      rw [readOf, if_neg Bool.false_ne_true] at hok
      rw [hok]
      simp only [Except.map, hsize, ne_eq, not_false_eq_true, and_true, taken, readOf, Bool.false_eq_true, if_false]

/-- A write that fails is told. -/
lemma writeBlock_of_fails (h : Fails (writeOf toFs opens b i)) (buffer target : List UInt8) :
    ∃ status, status ≠ RcpStatus.noError ∧ writeBlock toFs opens (b i).write buffer target = .error status := by
  rcases fails_or_eq (writeOf toFs opens b i) with ⟨errno, he⟩ | hok
  · cases toFs with
    | true =>
      refine ⟨.fsal (.posix ebadf), by decide, ?_⟩
      rw [writeOf, if_pos rfl] at he
      rw [writeBlock, if_pos rfl, posixWrite, write, he]
      rfl
    | false =>
      refine ⟨.io errno, RcpStatus.noConfusion, ?_⟩
      rw [writeOf, if_neg Bool.false_ne_true] at he
      rw [writeBlock, if_neg Bool.false_ne_true, write, he]
      rfl
  · exact absurd h (not_fails_of_ok hok)

/-- A write puts what it says at the end of the target. -/
lemma writeBlock_of_not_fails (h : ¬ Fails (writeOf toFs opens b i)) (buffer target : List UInt8) :
    writeBlock toFs opens (b i).write buffer target =
      .ok (target ++ buffer.take (count (writeOf toFs opens b i))) := by
  rcases fails_or_eq (writeOf toFs opens b i) with ⟨errno, he⟩ | hok
  · exact absurd (fails_of_error he) h
  · cases toFs with
    | true =>
      rw [writeBlock, if_pos rfl, posixWrite, write]
      rw [writeOf, if_pos rfl] at hok
      rw [hok]
      rfl
    | false =>
      rw [writeBlock, if_neg Bool.false_ne_true, write]
      rw [writeOf, if_neg Bool.false_ne_true] at hok
      rw [hok]
      rfl

/-- What has been written before a round. -/
def written (toFs opens : Bool) (b : ℕ → Round) (source : List UInt8) : ℕ → List UInt8 :=
  moved (taken toFs opens b) (fun i => count (writeOf toFs opens b i)) source

/-- An error ends the loop with its status. -/
lemma rcpLoop_of_error (fuel : ℕ) (h : ErrorAt toFs opens b source i) (target : List UInt8) :
    ∃ r, rcpLoop toFs opens b (fuel + 1) i (left (taken toFs opens b) source i) target = some r ∧
      r.status ≠ .noError := by
  by_cases hread : Fails (readOf toFs opens b i)
  · obtain ⟨status, hstatus, heq⟩ := readBlock_of_fails hread (left (taken toFs opens b) source i)
    refine ⟨⟨status, target⟩, ?_, hstatus⟩
    rw [rcpLoop, heq]
  · obtain ⟨hleft, hwrite⟩ := h.resolve_left hread
    obtain ⟨status, hstatus, heq⟩ := writeBlock_of_fails hwrite
      ((left (taken toFs opens b) source i).take (taken toFs opens b i)) target
    have hpos : ((left (taken toFs opens b) source i).take (taken toFs opens b i)).length ≠ 0 := by
      have hleft := List.length_pos_iff.mpr hleft
      have htaken : 0 < taken toFs opens b i := readSize_pos _
      rw [List.length_take]
      omega
    refine ⟨⟨status, target⟩, ?_, hstatus⟩
    rw [rcpLoop, readBlock_of_not_fails hread]
    dsimp only
    rw [if_pos (.inl (decide_eq_false hpos)), heq]

/-- The loop at the end of the file. -/
lemma rcpLoop_of_end (h : ¬ ErrorAt toFs opens b source i) (hleft : left (taken toFs opens b) source i = [])
    (target : List UInt8) :
    rcpLoop toFs opens b (fuel + 1) i (left (taken toFs opens b) source i) target = some ⟨.noError, target⟩ := by
  have hstop : ¬ (decide (([] : List UInt8).length = 0) = false ∨ toFs = false ∧ 0 < ([] : List UInt8).length) := by
    rintro (heof | ⟨-, hpos⟩)
    · exact absurd heof (by decide)
    · exact absurd hpos (by decide)
  rw [rcpLoop, readBlock_of_not_fails fun hread => h (.inl hread), hleft, List.take_nil]
  dsimp only
  rw [if_neg hstop]

/-- A turn that leaves something goes on with the next. -/
lemma rcpLoop_of_left (h : ¬ ErrorAt toFs opens b source i) (hleft : left (taken toFs opens b) source i ≠ [])
    (target : List UInt8) :
    rcpLoop toFs opens b (fuel + 1) i (left (taken toFs opens b) source i) target =
      rcpLoop toFs opens b fuel (i + 1) (left (taken toFs opens b) source (i + 1))
        (target ++ (piece (taken toFs opens b) source i).take (count (writeOf toFs opens b i))) := by
  have hread : ¬ Fails (readOf toFs opens b i) := fun hread => h (.inl hread)
  have hwrite : ¬ Fails (writeOf toFs opens b i) := fun hwrite => h (.inr ⟨hleft, hwrite⟩)
  have hpos : ((left (taken toFs opens b) source i).take (taken toFs opens b i)).length ≠ 0 := by
    have hleft := List.length_pos_iff.mpr hleft
    have htaken : 0 < taken toFs opens b i := readSize_pos _
    rw [List.length_take]
    omega
  have hdrop : (left (taken toFs opens b) source i).drop
      ((left (taken toFs opens b) source i).take (taken toFs opens b i)).length =
        left (taken toFs opens b) source (i + 1) := by
    rw [List.length_take, ← List.drop_eq_drop_min]
    rfl
  have hgo : decide (((left (taken toFs opens b) source i).take (taken toFs opens b i)).length = 0) ≠ true := by
    rw [decide_eq_false hpos]
    exact Bool.false_ne_true
  rw [rcpLoop, readBlock_of_not_fails hread]
  dsimp only
  rw [if_pos (.inl (decide_eq_false hpos)), writeBlock_of_not_fails hwrite]
  dsimp only
  rw [if_neg hgo, hdrop]
  rfl

/-! ## The loop -/

/-- How the loop ends: with the first error, or at the end of the source. -/
structure EndsAt (toFs opens : Bool) (b : ℕ → Round) (source target : List UInt8) (k : ℕ) (r : RcpResult) :
    Prop where
  before : ∀ j < k, left (taken toFs opens b) source j ≠ [] ∧ ¬ ErrorAt toFs opens b source j
  last : (ErrorAt toFs opens b source k ∧ r.status ≠ .noError) ∨
    (¬ ErrorAt toFs opens b source k ∧ left (taken toFs opens b) source k = [] ∧
      r = ⟨.noError, target ++ written toFs opens b source k⟩)

/-- A loop that ends does so at a turn that ends it. -/
lemma rcpLoop_sound {res : RcpResult}
    (hbefore : ∀ j < i, left (taken toFs opens b) source j ≠ [] ∧ ¬ ErrorAt toFs opens b source j)
    (hrun : rcpLoop toFs opens b fuel i (left (taken toFs opens b) source i)
      (target ++ written toFs opens b source i) = some res) :
    ∃ k, EndsAt toFs opens b source target k res := by
  induction fuel generalizing i with
  | zero => cases hrun
  | succ fuel ih =>
    by_cases herror : ErrorAt toFs opens b source i
    · obtain ⟨res', hres', hstatus⟩ := rcpLoop_of_error fuel herror (target ++ written toFs opens b source i)
      obtain rfl : res' = res := Option.some.inj (hres'.symm.trans hrun)
      exact ⟨i, hbefore, .inl ⟨herror, hstatus⟩⟩
    · by_cases hleft : left (taken toFs opens b) source i = []
      · rw [rcpLoop_of_end herror hleft] at hrun
        exact ⟨i, hbefore, .inr ⟨herror, hleft, (Option.some.inj hrun).symm⟩⟩
      · rw [rcpLoop_of_left herror hleft, List.append_assoc] at hrun
        refine ih (fun j hj => ?_) hrun
        rcases Nat.lt_succ_iff_lt_or_eq.mp hj with hlt | rfl
        · exact hbefore j hlt
        · exact ⟨hleft, herror⟩

/-- The loop ends, as each turn takes something. -/
lemma rcpLoop_total (hfuel : (left (taken toFs opens b) source i).length < fuel) (target : List UInt8) :
    ∃ res, rcpLoop toFs opens b fuel i (left (taken toFs opens b) source i) target = some res := by
  induction fuel generalizing i target with
  | zero => exact absurd hfuel (Nat.not_lt_zero _)
  | succ fuel ih =>
    by_cases herror : ErrorAt toFs opens b source i
    · obtain ⟨res, hres, -⟩ := rcpLoop_of_error fuel herror target
      exact ⟨res, hres⟩
    · by_cases hleft : left (taken toFs opens b) source i = []
      · exact ⟨_, rcpLoop_of_end herror hleft target⟩
      · rw [rcpLoop_of_left herror hleft]
        have hpos := List.length_pos_iff.mpr hleft
        have htaken : 0 < taken toFs opens b i := readSize_pos _
        have hdrop : (left (taken toFs opens b) source (i + 1)).length =
            (left (taken toFs opens b) source i).length - taken toFs opens b i := List.length_drop
        exact ih (by omega) _

/-- Where the copy ends it was interrupted or not. -/
lemma EndsAt.interrupted_iff {k : ℕ} {res : RcpResult} (h : EndsAt toFs opens b source target k res) :
    Interrupted toFs opens b source ↔ ErrorAt toFs opens b source k := by
  constructor
  · rintro ⟨i, herror, hbefore⟩
    rcases Nat.lt_trichotomy i k with hlt | rfl | hlt
    · exact absurd herror (h.before i hlt).2
    · exact herror
    · rcases h.last with ⟨herror, -⟩ | ⟨-, hleft, -⟩
      · exact herror
      · exact absurd hleft (hbefore k hlt)
  · exact fun herror => ⟨k, herror, fun j hj => (h.before j hj).1⟩

/-- Complete means that all was written. -/
lemma complete_iff_written {k : ℕ} (hleft : left (taken toFs opens b) source k = []) :
    Complete toFs opens b source ↔ written toFs opens b source k = source := by
  have hpieces := moved_eq_iff (w := fun i => count (writeOf toFs opens b i)) hleft
  refine Iff.trans ⟨fun h j _ => h j, fun h j => ?_⟩ hpieces.symm
  by_cases hj : j < k
  · exact h j hj
  · rw [piece, left_of_nil hleft (Nat.le_of_not_lt hj), List.take_nil]
    exact Nat.zero_le _

/-- The copy is complete on success only if no write falls short. -/
lemma loop_iff (htarget : target = [] ∨ toFs = true ∧ opens = false) :
    (∀ fuel res, rcpLoop toFs opens b fuel 0 source target = some res → res.status = .noError →
      res.target = source) ↔
      Interrupted toFs opens b source ∨ target = [] ∧ Complete toFs opens b source := by
  obtain ⟨res, hres⟩ : ∃ res, rcpLoop toFs opens b (source.length + 1) 0 source target = some res :=
    rcpLoop_total (i := 0) (Nat.lt_succ_self source.length) target
  have hends : ∀ {fuel res}, rcpLoop toFs opens b fuel 0 source target = some res →
      ∃ k, EndsAt toFs opens b source target k res := by
    intro fuel res hrun
    have hstart : rcpLoop toFs opens b fuel 0 source (target ++ written toFs opens b source 0) = some res := by
      rwa [written, moved, List.append_nil]
    exact rcpLoop_sound (i := 0) (fun j hj => absurd hj (Nat.not_lt_zero j)) hstart
  -- a good end means that all was read and written
  have hend : ∀ {k res}, EndsAt toFs opens b source target k res → res.status = .noError →
      left (taken toFs opens b) source k = [] ∧ ¬ Interrupted toFs opens b source ∧
        res.target = target ++ written toFs opens b source k := by
    intro k res hk hstatus
    rcases hk.last with ⟨-, hne⟩ | ⟨hno, hleft, rfl⟩
    · exact absurd hstatus hne
    · exact ⟨hleft, fun h => hno (hk.interrupted_iff.mp h), rfl⟩
  constructor
  · intro h
    obtain ⟨k, hk⟩ := hends hres
    rcases hk.last with ⟨herror, -⟩ | ⟨hno, hleft, heq⟩
    · exact .inl (hk.interrupted_iff.mpr herror)
    · have hsource := h _ res hres (by rw [heq])
      rw [heq] at hsource
      rcases htarget with rfl | ⟨rfl, rfl⟩
      · exact .inr ⟨rfl, (complete_iff_written hleft).mpr hsource⟩
      · cases source with
        | nil => exact .inr ⟨(List.append_eq_nil_iff.mp hsource).1, (complete_iff_written hleft).mpr
            (List.append_eq_nil_iff.mp hsource).2⟩
        | cons c rest =>
          refine .inl ⟨0, .inr ⟨List.cons_ne_nil c rest, ?_⟩, fun j hj => absurd hj (Nat.not_lt_zero j)⟩
          exact fails_of_error rfl
  · intro h fuel res hrun hstatus
    obtain ⟨k, hk⟩ := hends hrun
    obtain ⟨hleft, hno, heq⟩ := hend hk hstatus
    obtain ⟨rfl, hcomplete⟩ := h.resolve_left hno
    rw [heq]
    exact (complete_iff_written hleft).mp hcomplete

/-! ## The opens -/

/-- The file is opened if the path is good and the right is there. -/
lemma posixOpen_status_iff (cred : Credential) (toFs : Bool) (env : Env) (content : List UInt8) :
    (posixOpen cred (fsFlags toFs) env content).status = .noError ↔
      env.path = .noError ∧ posixTestAccess cred (copyRight toFs) (some env.stat) none = .noError := by
  have hright : (if fsFlags toFs &&& fsalORdonly ≠ 0 then fsalROk else fsalWOk) ||| fsalOwnerOk = copyRight toFs := by
    cases toFs <;> decide
  obtain ⟨oflags, hoflags⟩ : ∃ oflags, posixOpenflags (fsFlags toFs) = some oflags := by
    cases toFs
    · exact ⟨0, by decide⟩
    · exact ⟨1 ||| oTrunc, by decide⟩
  unfold posixOpen
  rw [hright, hoflags]
  by_cases hpath : env.path = .noError
  · rw [if_neg (not_not.mpr hpath)]
    cases posixTestAccess cred (copyRight toFs) (some env.stat) none <;> simp [hpath]
  · rw [if_pos hpath]
    exact ⟨fun h => absurd h hpath, fun h => absurd h.1 hpath⟩

/-- Opening for the copy to the file system empties the file. -/
lemma posixOpen_content (cred : Credential) (toFs : Bool) (env : Env) (content : List UInt8)
    (hstatus : (posixOpen cred (fsFlags toFs) env content).status = .noError) :
    (posixOpen cred (fsFlags toFs) env content).content =
      if toFs = true ∧ env.opens = true then [] else content := by
  obtain ⟨hpath, hcheck⟩ := (posixOpen_status_iff cred toFs env content).mp hstatus
  have hright : (if fsFlags toFs &&& fsalORdonly ≠ 0 then fsalROk else fsalWOk) ||| fsalOwnerOk = copyRight toFs := by
    cases toFs <;> decide
  obtain ⟨oflags, hoflags, htrunc⟩ : ∃ oflags, posixOpenflags (fsFlags toFs) = some oflags ∧
      (oflags &&& oTrunc ≠ 0 ↔ toFs = true) := by
    cases toFs
    · exact ⟨0, by decide, by decide⟩
    · exact ⟨1 ||| oTrunc, by decide, by decide⟩
  unfold posixOpen
  rw [hright, hoflags, if_neg (not_not.mpr hpath), hcheck]
  dsimp only
  by_cases hopens : env.opens = true
  · rw [if_pos hopens, openContent]
    simp only [htrunc, hopens, and_true]
  · rw [if_neg hopens, if_neg fun h => hopens h.2]

/-! ## The copy -/

/-- The content of the target at the start of the loop. -/
def startTarget (x : Call) (target : List UInt8) : List UInt8 :=
  if x.toFs = true ∧ x.fsal.opens = false then target else []

/-- The copy is refused, or is the loop. -/
lemma posixRcp_cases (fuel : ℕ) (x : Call) (b : ℕ → Round) (source target : List UInt8) :
    x.Refused ∧ (∃ res, posixRcp fuel x b source target = some res ∧ res.status ≠ .noError) ∨
      ¬ x.Refused ∧ posixRcp fuel x b source target =
        rcpLoop x.toFs x.fsal.opens b fuel 0 source (startTarget x target) := by
  have hfault : RcpStatus.fsal .fault ≠ .noError := by decide
  have hinval : RcpStatus.fsal .inval ≠ .noError := by decide
  have hposix : ∀ errno, RcpStatus.fsal (.posix errno) ≠ .noError := fun errno h => by
    cases RcpStatus.fsal.inj h
  unfold posixRcp
  by_cases hgiven : x.given = false
  · rw [if_pos hgiven]
    exact .inl ⟨.inl hgiven, _, rfl, hfault⟩
  by_cases hdirection : x.toLocal = x.toFs
  · rw [if_neg hgiven, if_pos hdirection]
    exact .inl ⟨.inr (.inl hdirection), _, rfl, hinval⟩
  rw [if_neg hgiven, if_neg hdirection]
  cases hlocal : x.localErrno with
  | some errno =>
    have hno : x.localErrno ≠ none := by
      rw [hlocal]
      exact Option.some_ne_none errno
    exact .inl ⟨.inr (.inr (.inl hno)), _, rfl, hposix errno⟩
  | none =>
    dsimp only
    by_cases hflag : x.toFs = true ∧ x.LocalFlag
    · rw [if_pos hflag]
      exact .inl ⟨.inr (.inr (.inr (.inl hflag))), _, rfl, hinval⟩
    rw [if_neg hflag]
    have hopen := posixOpen_status_iff x.cred x.toFs x.fsal (if x.toFs = true then target else source)
    have hcontent := posixOpen_content x.cred x.toFs x.fsal (if x.toFs = true then target else source)
    by_cases hstatus : (posixOpen x.cred (fsFlags x.toFs) x.fsal
        (if x.toFs = true then target else source)).status = .noError
    · obtain ⟨hpath, hright⟩ := hopen.mp hstatus
      rw [if_neg (not_not.mpr hstatus)]
      cases hmem : x.memErrno with
      | some errno =>
        have hno : x.memErrno ≠ none := by
          rw [hmem]
          exact Option.some_ne_none errno
        exact .inl ⟨.inr (.inr (.inr (.inr (.inr (.inr hno))))), _, rfl, RcpStatus.noConfusion⟩
      | none =>
        refine .inr ⟨?_, ?_⟩
        · rintro (h | h | h | h | h | h | h)
          · exact hgiven h
          · exact hdirection h
          · exact h hlocal
          · exact hflag h
          · exact h hpath
          · exact h hright
          · exact h hmem
        · dsimp only
          rw [hcontent hstatus, startTarget]
          cases htoFs : x.toFs
          · rfl
          · cases hopens : x.fsal.opens <;> rfl
    · rw [if_pos hstatus]
      refine .inl ⟨?_, _, rfl, fun h => hstatus (RcpStatus.fsal.inj h)⟩
      rw [hopen, not_and_or] at hstatus
      rcases hstatus with h | h
      · exact .inr (.inr (.inr (.inr (.inl h))))
      · exact .inr (.inr (.inr (.inr (.inr (.inl h)))))

/-- The target is the source after a copy without error, and the copy ends, exactly if the copy is refused, is
interrupted by an error, or every write takes the whole of what was read, into a file that the open has cut. -/
theorem copied_iff (x : Call) (b : ℕ → Round) (source target : List UInt8) :
    Copied x b source target ↔ x.Refused ∨ Interrupted x.toFs x.fsal.opens b source ∨
      (x.toFs = true → x.fsal.opens = false → target = []) ∧ Complete x.toFs x.fsal.opens b source := by
  -- the target starts empty unless it is a file system's that is not opened anew
  have hstart : startTarget x target = [] ∨ x.toFs = true ∧ x.fsal.opens = false := by
    by_cases h : x.toFs = true ∧ x.fsal.opens = false
    · exact .inr h
    · exact .inl (if_neg h)
  have hempty : startTarget x target = [] ↔ (x.toFs = true → x.fsal.opens = false → target = []) := by
    unfold startTarget
    by_cases h : x.toFs = true ∧ x.fsal.opens = false
    · rw [if_pos h]
      exact ⟨fun ht _ _ => ht, fun ht => ht h.1 h.2⟩
    · rw [if_neg h]
      exact ⟨fun _ h₁ h₂ => absurd ⟨h₁, h₂⟩ h, fun _ => rfl⟩
  have hloop : (∀ fuel res, rcpLoop x.toFs x.fsal.opens b fuel 0 source (startTarget x target) = some res →
      res.status = .noError → res.target = source) ↔ Interrupted x.toFs x.fsal.opens b source ∨
        startTarget x target = [] ∧ Complete x.toFs x.fsal.opens b source := loop_iff hstart
  rw [← hempty]
  by_cases hrefused : x.Refused
  · -- every exit before the loop is an error
    have herror : ∀ fuel, ∃ res, posixRcp fuel x b source target = some res ∧ res.status ≠ .noError := by
      intro fuel
      rcases posixRcp_cases fuel x b source target with ⟨-, h⟩ | ⟨h, -⟩
      · exact h
      · exact absurd hrefused h
    refine ⟨fun _ => .inl hrefused, fun _ => ⟨fun fuel _ => ?_, fun fuel r hr hstatus => ?_⟩⟩
    · obtain ⟨res, hres, -⟩ := herror fuel
      exact ⟨res, hres⟩
    · obtain ⟨res, hres, hne⟩ := herror fuel
      rw [hr, Option.some.injEq] at hres
      rw [hres] at hstatus
      exact absurd hstatus hne
  · have heq : ∀ fuel, posixRcp fuel x b source target =
        rcpLoop x.toFs x.fsal.opens b fuel 0 source (startTarget x target) := by
      intro fuel
      rcases posixRcp_cases fuel x b source target with ⟨h, -⟩ | ⟨-, h⟩
      · exact absurd h hrefused
      · exact h
    rw [or_iff_right hrefused, ← hloop]
    constructor
    · intro h fuel res hrun hstatus
      exact h.equal fuel res ((heq fuel).trans hrun) hstatus
    · intro h
      refine ⟨fun fuel hfuel => ?_, fun fuel res hrun hstatus => h fuel res ((heq fuel).symm.trans hrun) hstatus⟩
      rw [heq fuel]
      exact rcpLoop_total (i := 0) hfuel _

/-- A copy towards the back end by the superuser, where everything works. -/
def sampleCall : Call :=
  ⟨true, ⟨0, 0, []⟩, fsalRcpLocalToFs, none, ⟨.noError, true, none, false, none, ⟨0, 0, 0o600⟩, ⟨0, 0, 0⟩⟩, none⟩

/-- A write may take one byte of two. -/
theorem not_copied_of_short : ¬ ∀ x b source target, Copied x b source target := by
  intro h
  have hequal := (h sampleCall (fun _ => ⟨.ok 2, .ok 1⟩) [1, 2] []).equal 2 ⟨.noError, [1]⟩ (by decide +kernel) rfl
  exact absurd hequal (by decide)

end Ganesha.Fsal.Rcp
