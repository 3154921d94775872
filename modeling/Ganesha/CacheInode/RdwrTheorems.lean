import Ganesha.CacheInode.Rdwr

/-!
# Unstable writes reach the file
-/

namespace Ganesha.CacheInode.Rdwr
open Function (update)
open Library.File Library.Transition

variable {w w' w'' : World} {s s' : Files} {c e e' : ℕ} {now : ℤ} {answer : CloseAnswer}

/-! ## The world behind the data -/

/-- The types and the unstable data stay. -/
def KeepsData (w w' : World) : Prop :=
  ∀ e, (w'.entry e).type = (w.entry e).type ∧ (w'.entry e).unstableData = (w.entry e).unstableData

lemma KeepsData.refl (w : World) : KeepsData w w := fun _ => ⟨rfl, rfl⟩

lemma KeepsData.trans (h : KeepsData w w') (h' : KeepsData w' w'') : KeepsData w w'' := by
  intro e
  exact ⟨(h' e).1.trans (h e).1, (h' e).2.trans (h e).2⟩

/-- Entries whose data stay. -/
lemma keepsData_setEntry {f : Fsal} {x : Entry} (htype : x.type = (w.entry e).type)
    (hdata : x.unstableData = (w.entry e).unstableData) :
    KeepsData w ({ w with fsal := f }.setEntry e x) := by
  intro e'
  by_cases he : e' = e
  · rw [he, setEntry_self]
    exact ⟨htype, hdata⟩
  · rw [setEntry_other he]
    exact ⟨rfl, rfl⟩

/-- Closing a file leaves its data. -/
lemma keepsData_cacheInodeClose : KeepsData w (cacheInodeClose w c e now answer).1 := by
  simp only [cacheInodeClose]
  split_ifs
  · exact KeepsData.refl w
  · exact KeepsData.refl w
  · have hkeep : KeepsData w ((w.fsalClose e answer).resetFd e) := by
      refine keepsData_setEntry ?_ ?_
      · rfl
      · rfl
    cases answer.error <;> exact hkeep
  · exact KeepsData.refl w

lemma keepsData_gcFdFunc {nb : UInt32} : KeepsData w (gcFdFunc w c e nb now answer).1 := by
  simp only [gcFdFunc]
  split_ifs
  · exact keepsData_cacheInodeClose
  · exact KeepsData.refl w

/-- So does the collector of descriptors. -/
lemma keepsData_gcFdLoop {answer : ℕ → CloseAnswer} {items : List LruItem} {nb : UInt32} :
    KeepsData w (gcFdLoop c now answer w nb items) := by
  induction items generalizing w nb with
  | nil => exact KeepsData.refl w
  | cons item items ih =>
    rw [gcFdLoop]
    split_ifs
    · have hfunc : KeepsData w (gcFdFunc w c item.pdata nb now (answer item.pdata)).1 :=
        keepsData_gcFdFunc
      dsimp only
      split_ifs
      · exact hfunc
      · exact hfunc.trans ih
    · exact ih

lemma keepsData_gcFd {answer : ℕ → CloseAnswer} : KeepsData w (gcFd w c now answer).1 := by
  simp only [gcFd]
  split_ifs
  · exact KeepsData.refl w
  · exact KeepsData.refl w
  · exact fun e => keepsData_gcFdLoop e

lemma keepsData_andThen {r : World × Status} {rest : World → World × Status}
    (h : KeepsData w r.1) (hrest : KeepsData r.1 (rest r.1).1) : KeepsData w (andThen r rest).1 := by
  rw [andThen]
  split_ifs
  · exact h.trans hrest
  · exact h

/-- The end of an open. -/
lemma keepsData_openEnd {env : OpenEnv} : KeepsData w (openEnd w c e env).1 := by
  have htouch : KeepsData w (w.setOpenFd e { (w.entry e).openFd with lastOp := env.now }) := by
    refine keepsData_setEntry ?_ ?_
    · rfl
    · rfl
  simp only [openEnd]
  split_ifs
  · exact htouch.trans keepsData_gcFd
  · exact htouch

/-- The close before a new open. -/
lemma keepsData_closeForReopen {closes : Bool} :
    KeepsData w (closeForReopen w e closes answer).1 := by
  simp only [closeForReopen]
  split_ifs
  · cases answer.error
    · refine keepsData_setEntry ?_ ?_
      · rfl
      · rfl
    · exact fun _ => ⟨rfl, rfl⟩
  · exact KeepsData.refl w

/-- Opening writes no data. -/
lemma keepsData_openFsal {flags : UInt16} {keep : Attributes → Attributes} {answer : OpenAnswer} :
    KeepsData w (openFsal w e flags keep answer).1 := by
  cases answer with
  | opened n a =>
    refine keepsData_setEntry ?_ ?_
    · rfl
    · rfl
  | failed err kept =>
    refine keepsData_setEntry ?_ ?_
    · rfl
    · rfl

/-- The whole open. -/
lemma keepsData_cacheInodeOpen {flags : UInt16} {env : OpenEnv} :
    KeepsData w (cacheInodeOpen w c e flags env).1 := by
  simp only [cacheInodeOpen]
  split_ifs
  · exact KeepsData.refl w
  · apply keepsData_andThen keepsData_closeForReopen
    split_ifs
    · exact keepsData_andThen keepsData_openFsal keepsData_openEnd
    · exact keepsData_openEnd

lemma keepsData_closeIdle : KeepsData w (closeIdle w c e now answer).1 := by
  rw [closeIdle]
  split_ifs
  · exact keepsData_cacheInodeClose
  · exact KeepsData.refl w

/-- So does the validation. -/
lemma keepsData_cacheInodeValid {env : ValidEnv} :
    KeepsData w (cacheInodeValid w c e now env).1 := by
  rw [cacheInodeValid]
  by_cases hinv : env.lruInvalidate = false
  · rw [if_pos hinv]
    exact KeepsData.refl w
  · rw [if_neg hinv]
    by_cases hnew : env.lruNewEntry = false
    · rw [if_pos hnew]
      exact KeepsData.refl w
    · rw [if_neg hnew]
      apply keepsData_andThen keepsData_closeIdle
      split_ifs <;> exact KeepsData.refl _

/-- When a close succeeds. -/
lemma cacheInodeClose_success (htype : (w.entry e).type = .regularFile) (hans : answer.error = none) :
    (cacheInodeClose w c e now answer).2 = .success := by
  simp only [cacheInodeClose]
  rw [if_neg (not_not.mpr htype)]
  split_ifs
  · rfl
  · rw [hans]
  · rfl

/-- Nothing fails in `cache_inode_valid`. -/
def ValidEnv.Ok (env : ValidEnv) : Prop :=
  env.lruInvalidate = true ∧ env.lruNewEntry = true ∧ env.close.error = none ∧
  env.contentClose = true ∧ env.lruGcInvalid = true

instance (env : ValidEnv) : Decidable env.Ok := inferInstanceAs (Decidable (_ ∧ _))

lemma closeIdle_success (htype : (w.entry e).type = .regularFile) (hans : answer.error = none) :
    (closeIdle w c e now answer).2 = .success := by
  rw [closeIdle]
  split_ifs
  · exact cacheInodeClose_success htype hans
  · rfl

lemma cacheInodeValid_success {env : ValidEnv} (htype : (w.entry e).type = .regularFile)
    (hok : env.Ok) : (cacheInodeValid w c e now env).2 = .success := by
  obtain ⟨hinv, hnew, hclose, hcontent, hgc⟩ := hok
  rw [cacheInodeValid, if_neg (by simp [hinv]), if_neg (by simp [hnew]), andThen,
    if_pos (closeIdle_success htype hclose), if_neg (by simp [hcontent]), if_neg (by simp [hgc])]

/-! ## A write that goes to the FSAL -/

lemma keepsData_modify {g : Entry → Entry}
    (hg : ∀ x, (g x).type = x.type ∧ (g x).unstableData = x.unstableData) :
    KeepsData s.world (s.modify e g).world :=
  keepsData_setEntry (hg _).1 (hg _).2

lemma setTimes_keeps (dir : Direction) (now : ℤ) (x : Entry) :
    (setTimes dir now x).type = x.type ∧ (setTimes dir now x).unstableData = x.unstableData := by
  cases dir <;> exact ⟨rfl, rfl⟩

/-- What a call leaves alone: the data of the entries, what is expected and the buffers. -/
structure Quiet (s s' : Files) : Prop where
  keeps : KeepsData s.world s'.world
  expected : s'.expected = s.expected
  overrun : s'.overrun = s.overrun

lemma Quiet.trans {s'' : Files} (h : Quiet s s') (h' : Quiet s' s'') : Quiet s s'' :=
  ⟨h.keeps.trans h'.keeps, h'.expected.trans h.expected, h'.overrun.trans h.overrun⟩

lemma quiet_world (h : KeepsData s.world w) : Quiet s { s with world := w } :=
  ⟨h, rfl, rfl⟩

lemma quiet_modify {g : Entry → Entry}
    (hg : ∀ x, (g x).type = x.type ∧ (g x).unstableData = x.unstableData) : Quiet s (s.modify e g) :=
  ⟨keepsData_modify hg, rfl, rfl⟩

variable {env : Env} {offset size n : UInt64} {buffer : ℕ → UInt8}

lemma quiet_rdwrEnd : Quiet s (rdwrEnd s c e n env).files :=
  quiet_world keepsData_cacheInodeValid

/-- The error exit. -/
lemma quiet_rdwrError {err : FsalError} : Quiet s (rdwrError s e err env).files := by
  apply quiet_world
  split_ifs
  · refine keepsData_setEntry ?_ ?_
    · rfl
    · rfl
  · refine keepsData_setEntry ?_ ?_
    · rfl
    · rfl

lemma rdwrError_status {err : FsalError} : (rdwrError s e err env).status ≠ .success := by
  show (if _ then errorConvert err else Status.fsalDelay) ≠ .success
  split_ifs
  · exact errorConvert_ne_success err
  · decide

lemma quiet_updateSize (e : ℕ) (dir : Direction) (env : Env) : Quiet s (updateSize s e dir env) := by
  unfold updateSize
  split
  · exact quiet_modify (fun _ => ⟨rfl, rfl⟩)
  · exact ⟨KeepsData.refl _, rfl, rfl⟩

lemma updateSize_content {dir : Direction} : (updateSize s e dir env).content = s.content := by
  unfold updateSize
  split <;> rfl

/-- The end of a call changes no data; without an error it succeeds. -/
lemma rdwrDone_spec (s : Files) (c e : ℕ) (dir : Direction) (n : UInt64) (env : Env) :
    Quiet s (rdwrDone s c e dir n env).files ∧
    (rdwrDone s c e dir n env).files.content = s.content ∧
    (rdwrDone s c e dir n env).ioSize = n ∧
    ((s.world.entry e).type = .regularFile → env.close.error = none → env.valid.Ok →
      (rdwrDone s c e dir n env).status = .success) := by
  have hclose : Quiet s { s with world := (cacheInodeClose s.world c e env.now env.close).1 } :=
    quiet_world keepsData_cacheInodeClose
  simp only [rdwrDone]
  split_ifs with hst
  · refine ⟨hclose, rfl, rfl, ?_⟩
    intro htype hc _
    exact cacheInodeClose_success htype hc
  · have hall := (hclose.trans (quiet_updateSize e dir env)).trans
      (quiet_modify (e := e) (setTimes_keeps dir env.now))
    refine ⟨hall.trans quiet_rdwrEnd, updateSize_content, rfl, ?_⟩
    intro htype _ hv
    refine cacheInodeValid_success ?_ hv
    rw [(hall.keeps e).1]
    exact htype

/-- Whether `FSAL_write` was reached, and what it did. -/
structure DirectSpec (s : Files) (e : ℕ) (offset size : UInt64) (buffer : ℕ → UInt8) (env : Env)
    (r : Result) : Prop where
  quiet : Quiet s r.files
  content : (r.files.content = s.content ∧ r.status ≠ .success) ∨
    ∃ done, env.io = .ok done ∧
      r.files.content = update s.content e
        ((s.content e).pwrite offset.toNat (min done size).toNat buffer) ∧
      r.ioSize = min done size ∧
      ((s.world.entry e).type = .regularFile → env.close.error = none → env.valid.Ok →
        r.status = .success)

lemma quiet_fsalRdwr {done : UInt64} :
    Quiet s (fsalRdwr s e .write offset size buffer done).1 :=
  ⟨KeepsData.refl _, rfl, rfl⟩

lemma rdwrDirect_eq (s : Files) (c e : ℕ) (dir : Direction) (offset size : UInt64)
    (buffer : ℕ → UInt8) (env : Env) :
    ∃ s₁ status, Quiet s s₁ ∧ s₁.content = s.content ∧
      rdwrDirect s c e dir offset size buffer env =
        if status ≠ .success then ⟨s₁, status, 0⟩
        else
          match env.io with
          | .error err => rdwrError s₁ e err env
          | .ok done =>
            rdwrDone (fsalRdwr s₁ e dir offset size buffer done).1 c e dir
              (fsalRdwr s₁ e dir offset size buffer done).2 env := by
  refine ⟨_, _, ?_, ?_, rfl⟩
  · refine Quiet.trans ?_ (quiet_world keepsData_cacheInodeOpen)
    exact quiet_modify (fun _ => ⟨rfl, rfl⟩)
  · rfl

/-- A direct write puts its bytes in the file. -/
lemma directSpec_rdwrDirect (s : Files) (c e : ℕ) (offset size : UInt64) (buffer : ℕ → UInt8)
    (env : Env) :
    DirectSpec s e offset size buffer env (rdwrDirect s c e .write offset size buffer env) := by
  obtain ⟨s₁, status, hquiet, hcontent, heq⟩ := rdwrDirect_eq s c e .write offset size buffer env
  rw [heq]
  split_ifs with hst
  · exact ⟨hquiet, Or.inl ⟨hcontent, hst⟩⟩
  · cases hio : env.io with
    | error err =>
      exact ⟨hquiet.trans quiet_rdwrError, Or.inl ⟨hcontent, rdwrError_status⟩⟩
    | ok done =>
      obtain ⟨hq, hc, hn, hsucc⟩ := rdwrDone_spec (fsalRdwr s₁ e .write offset size buffer done).1 c e
        .write (fsalRdwr s₁ e .write offset size buffer done).2 env
      refine ⟨(hquiet.trans quiet_fsalRdwr).trans hq, Or.inr ⟨done, hio, ?_, hn, ?_⟩⟩
      · rw [hc, ← hcontent]
        rfl
      · intro htype
        apply hsucc
        rw [((hquiet.trans quiet_fsalRdwr).keeps e).1]
        exact htype

lemma cacheInodeRdwr_stable {dir : Direction} {seek : Seek} :
    cacheInodeRdwr s c e dir seek size buffer true env =
      if seek.whence ≠ .set then ⟨s, .invalidArgument, 0⟩
      else if (s.world.entry e).type ≠ .regularFile then ⟨s, .badType, 0⟩
      else rdwrStable s c e dir seek.offset size buffer env := by
  rw [cacheInodeRdwr, if_pos rfl]

/-- A read changes no data. -/
lemma read_quiet {seek : Seek} :
    Quiet s (cacheInodeRdwr s c e .read seek size buffer true env).files ∧
    (cacheInodeRdwr s c e .read seek size buffer true env).files.content = s.content := by
  have hself : Quiet s s := ⟨KeepsData.refl _, rfl, rfl⟩
  rw [cacheInodeRdwr_stable]
  split_ifs
  · exact ⟨hself, rfl⟩
  · exact ⟨hself, rfl⟩
  · rw [rdwrStable]
    split_ifs
    · simp only [rdwrContent]
      generalize (if env.content.status = _ then _ else _ : ContentAnswer) = answer
      split_ifs
      · exact ⟨hself, rfl⟩
      · refine ⟨?_, rfl⟩
        refine Quiet.trans ?_ quiet_rdwrEnd
        refine Quiet.trans ?_ (quiet_modify (setTimes_keeps _ _))
        exact quiet_modify (fun _ => ⟨rfl, rfl⟩)
    · obtain ⟨s₁, status, hquiet, hcontent, heq⟩ := rdwrDirect_eq s c e .read seek.offset size buffer env
      rw [heq]
      split_ifs
      · exact ⟨hquiet, hcontent⟩
      · cases env.io with
        | error err => exact ⟨hquiet.trans quiet_rdwrError, hcontent⟩
        | ok done =>
          obtain ⟨hq, hc, -, -⟩ := rdwrDone_spec (fsalRdwr s₁ e .read seek.offset size buffer done).1
            c e .read (fsalRdwr s₁ e .read seek.offset size buffer done).2 env
          exact ⟨hquiet.trans hq, hc.trans hcontent⟩

/-! ## The unstable data -/

/-- The content of a file after its unstable data is written. -/
def flushed (u : UnstableData) (f : Content) : Content :=
  match u.buffer with
  | none => f
  | some mem => f.pwrite u.offset.toNat u.length.toNat mem

/-- What a commit of the whole file sends is in the buffer. -/
def Within (u : UnstableData) : Prop :=
  u.buffer.isSome = true → u.length.toNat ≤ unstableBuffersize.toNat

/-- The data of the entry `e`. -/
abbrev Files.unstable (s : Files) (e : ℕ) : UnstableData := (s.world.entry e).unstableData

/-- The unstable data gives what is missing to the contents. -/
structure Inv (s : Files) : Prop where
  overrun : s.overrun = false
  within : ∀ e, Within (s.unstable e)
  flushed : ∀ e, flushed (s.unstable e) (s.content e) = s.expected e

/-- At the start nothing is buffered. -/
lemma inv_of_initial (h : Initial s) : Inv s := by
  obtain ⟨-, hbuf, hexp, hover⟩ := h
  constructor
  · exact hover
  · intro e hsome
    rw [Files.unstable, hbuf e] at hsome
    exact absurd hsome (by simp)
  · intro e
    rw [flushed, hbuf e, hexp]

/-- A change of one entry keeps the invariant if its data are as expected. -/
lemma Inv.of_entry (h : Inv s) (hover : s'.overrun = false)
    (hother : ∀ e', e' ≠ e → s'.unstable e' = s.unstable e' ∧ s'.content e' = s.content e' ∧
      s'.expected e' = s.expected e')
    (hwithin : Within (s'.unstable e))
    (hflushed : Rdwr.flushed (s'.unstable e) (s'.content e) = s'.expected e) : Inv s' := by
  constructor
  · exact hover
  · intro e'
    by_cases he : e' = e
    · rw [he]
      exact hwithin
    · rw [(hother e' he).1]
      exact h.within e'
  · intro e'
    by_cases he : e' = e
    · rw [he]
      exact hflushed
    · rw [(hother e' he).1, (hother e' he).2.1, (hother e' he).2.2]
      exact h.flushed e'

/-- A quiet step. -/
lemma Inv.of_quiet (h : Inv s) (hq : Quiet s s') (hc : s'.content = s.content) : Inv s' := by
  constructor
  · rw [hq.overrun]
    exact h.overrun
  · intro e
    rw [Files.unstable, (hq.keeps e).2]
    exact h.within e
  · intro e
    rw [Files.unstable, (hq.keeps e).2, hc, hq.expected]
    exact h.flushed e

/-- The range from `offset` on is not in the unstable data. -/
def Apart (u : UnstableData) (offset size : UInt64) : Prop :=
  u.buffer.isNone = true ∨ size = 0 ∨ offset.toNat + size.toNat ≤ u.offset.toNat ∨
  u.offset.toNat + u.length.toNat ≤ offset.toNat

instance {u : UnstableData} : Decidable (Apart u offset size) := inferInstanceAs (Decidable (_ ∨ _))

/-- Bytes apart from the buffer may be written before it is flushed. -/
lemma flushed_pwrite {u : UnstableData} {f : Content} {n : ℕ} (h : Apart u offset size)
    (hn : n ≤ size.toNat) :
    flushed u (f.pwrite offset.toNat n buffer) = (flushed u f).pwrite offset.toNat n buffer := by
  unfold flushed
  cases hb : u.buffer with
  | none => rfl
  | some mem =>
    rcases h with h | h | h | h
    · rw [hb] at h
      exact absurd h (by simp)
    · have hzero : n = 0 := by
        have hsize : size.toNat = 0 := by rw [h]; rfl
        omega
      exact Content.pwrite_comm (Or.inl hzero)
    · exact Content.pwrite_comm (Or.inr (Or.inr (Or.inl (by omega))))
    · exact Content.pwrite_comm (Or.inr (Or.inr (Or.inr h)))

variable {mem : ℕ → UInt8} {k : ℕ}

lemma flushed_part {u : UnstableData} {f : Content} {n : ℕ} (hb : u.buffer = some mem)
    (h : k + n ≤ u.length.toNat) :
    flushed u (f.pwrite (u.offset.toNat + k) n fun i => mem (k + i)) = flushed u f := by
  rw [flushed, flushed, hb]
  exact Content.pwrite_within h

lemma toNat_min_le (done size : UInt64) : (min done size).toNat ≤ size.toNat := by
  show (if done ≤ size then done else size).toNat ≤ size.toNat
  split_ifs with h
  · exact UInt64.le_iff_toNat_le.mp h
  · exact Nat.le_refl _

/-! ## The calls -/

/-- A write that keeps the data together: the first unstable one fits in the buffer, the next ones
continue data that starts at 0, and others go to the FSAL apart from the unstable data. -/
def FitsWrite (entry : Entry) (offset size : UInt64) (stable : Bool) (env : Env) : Prop :=
  let u := entry.unstableData
  env.valid.Ok ∧
  if stable = false ∧ u.buffer.isNone = true then size ≤ unstableBuffersize
  else if stable = false ∧ u.offset < offset ∧ size + offset < unstableBuffersize then
    u.offset = 0 ∧ offset.toNat ≤ u.length.toNat ∧ u.length.toNat ≤ offset.toNat + size.toNat ∧
    offset.toNat + size.toNat < unstableBuffersize.toNat
  else entry.pentryContent = false ∧ env.close.error = none ∧ Apart u offset size

instance {entry : Entry} {stable : Bool} : Decidable (FitsWrite entry offset size stable env) :=
  inferInstanceAs (Decidable (_ ∧ ite _ _ (ite _ _ _)))

/-- A direct write apart from the buffer is seen by every later read. -/
lemma Inv.rdwrDirect (h : Inv s) (htype : (s.world.entry e).type = .regularFile)
    (hok : env.valid.Ok) (hclose : env.close.error = none) (hapart : Apart (s.unstable e) offset size) :
    Inv (expectWrite (Rdwr.rdwrDirect s c e .write offset size buffer env) e offset buffer) := by
  have hspec := directSpec_rdwrDirect s c e offset size buffer env
  generalize Rdwr.rdwrDirect s c e .write offset size buffer env = r at hspec ⊢
  rcases hspec.content with ⟨hc, hst⟩ | ⟨done, -, hc, hn, hst⟩
  · rw [expectWrite, if_neg hst]
    exact h.of_quiet hspec.quiet hc
  · rw [expectWrite, if_pos (hst htype hclose hok)]
    have hu : ∀ e', r.files.unstable e' = s.unstable e' := fun e' => (hspec.quiet.keeps e').2
    apply h.of_entry (e := e)
    · exact hspec.quiet.overrun.trans h.overrun
    · intro e' he
      refine ⟨hu e', ?_, ?_⟩
      · rw [hc, Function.update_of_ne he]
      · show update r.files.expected e _ e' = _
        rw [Function.update_of_ne he, hspec.quiet.expected]
    · show Within (r.files.unstable e)
      rw [hu]
      exact h.within e
    · show Rdwr.flushed (r.files.unstable e) (r.files.content e) = update r.files.expected e _ e
      rw [hu, hc, Function.update_self, Function.update_self, hn, hspec.quiet.expected,
        flushed_pwrite hapart (toNat_min_le done size), h.flushed e]

/-- The bytes are put in the buffer. -/
lemma storeUnstable_spec (s : Files) (c e : ℕ) (mem : ℕ → UInt8) (start : ℕ) (offset size : UInt64)
    (length : UInt32) (buffer : ℕ → UInt8) (env : Env) :
    let r := storeUnstable s c e mem start offset size length buffer env
    r.ioSize = size ∧ r.files.content = s.content ∧ r.files.expected = s.expected ∧
    r.files.overrun = (s.overrun || unstableBuffersize.toNat < start + size.toNat) ∧
    r.files.unstable e =
      { buffer := some (splice mem start size.toNat buffer), offset := offset, length := length } ∧
    (∀ e', e' ≠ e → r.files.unstable e' = s.unstable e') ∧
    ((s.world.entry e).type = .regularFile → env.valid.Ok → r.status = .success) := by
  intro r
  have hend : Quiet (copyUnstable s e mem start offset size length buffer env.now) r.files :=
    quiet_rdwrEnd
  refine ⟨rfl, rfl, rfl, rfl, ?_, ?_, ?_⟩
  · rw [Files.unstable, (hend.keeps e).2]
    show ((World.setEntry _ e _).entry e).unstableData = _
    rw [setEntry_self, (setTimes_keeps _ _ _).2]
  · intro e' he
    rw [Files.unstable, (hend.keeps e').2]
    show ((World.setEntry _ e _).entry e').unstableData = _
    rw [setEntry_other he]
  · intro htype hok
    refine cacheInodeValid_success ?_ hok
    show ((World.setEntry _ e _).entry e).type = _
    rw [setEntry_self, (setTimes_keeps _ _ _).1]
    exact htype

/-- A write into the buffer is seen after the flush. -/
lemma Inv.storeUnstable {start : ℕ} {u offset size : UInt64} {length : UInt32} (h : Inv s)
    (htype : (s.world.entry e).type = .regularFile) (hok : env.valid.Ok)
    (hroom : start + size.toNat ≤ unstableBuffersize.toNat)
    (hlength : length.toNat ≤ unstableBuffersize.toNat)
    (hdata : (s.content e).pwrite u.toNat length.toNat (splice mem start size.toNat buffer) =
      (s.expected e).pwrite offset.toNat size.toNat buffer) :
    Inv (expectWrite (Rdwr.storeUnstable s c e mem start u size length buffer env) e offset
      buffer) := by
  obtain ⟨hsize, hcontent, hexpected, hover, hself, hother, hst⟩ :=
    storeUnstable_spec s c e mem start u size length buffer env
  generalize Rdwr.storeUnstable s c e mem start u size length buffer env = r at *
  rw [expectWrite, if_pos (hst htype hok)]
  apply h.of_entry (e := e)
  · show r.files.overrun = false
    rw [hover, h.overrun, decide_eq_false (by omega)]
    rfl
  · intro e' he
    refine ⟨hother e' he, congrFun hcontent e', ?_⟩
    show update r.files.expected e _ e' = _
    rw [Function.update_of_ne he, hexpected]
  · intro _
    show (r.files.unstable e).length.toNat ≤ _
    rw [hself]
    exact hlength
  · show Rdwr.flushed (r.files.unstable e) (r.files.content e) = update r.files.expected e _ e
    rw [hself, Function.update_self, hcontent, hexpected, hsize]
    exact hdata

lemma unstableBuffersize_toNat : unstableBuffersize.toNat = 104857600 := rfl

lemma toNat_toUInt32_of_le {x : UInt64} (h : x.toNat ≤ unstableBuffersize.toNat) :
    x.toUInt32.toNat = x.toNat := by
  rw [unstableBuffersize_toNat] at h
  rw [UInt64.toNat_toUInt32]
  exact Nat.mod_eq_of_lt (by omega)

/-- The first buffered write. -/
lemma Inv.storeFirst (h : Inv s) (htype : (s.world.entry e).type = .regularFile) (hok : env.valid.Ok)
    (hb : (s.unstable e).buffer = none) (hsize : size ≤ unstableBuffersize) :
    Inv (expectWrite (Rdwr.storeUnstable s c e mem 0 offset size size.toUInt32 buffer env) e offset
      buffer) := by
  have hroom : size.toNat ≤ unstableBuffersize.toNat := UInt64.le_iff_toNat_le.mp hsize
  have hlength := toNat_toUInt32_of_le hroom
  refine h.storeUnstable htype hok (by omega) (by omega) ?_
  have hflushed := h.flushed e
  simp only [Rdwr.flushed, hb] at hflushed
  rw [hflushed, hlength]
  apply Content.pwrite_congr
  intro i hi
  simp only [splice, Nat.zero_le, Nat.zero_add, true_and, hi, if_true, Nat.sub_zero]

/-- So is one that goes on where the buffer ends. -/
lemma Inv.storeNext (h : Inv s) (htype : (s.world.entry e).type = .regularFile) (hok : env.valid.Ok)
    (hb : (s.unstable e).buffer = some mem) (hzero : (s.unstable e).offset = 0)
    (hstart : offset.toNat ≤ (s.unstable e).length.toNat)
    (hend : (s.unstable e).length.toNat ≤ offset.toNat + size.toNat)
    (hroom : offset.toNat + size.toNat < unstableBuffersize.toNat) :
    Inv (expectWrite (Rdwr.storeUnstable s c e mem offset.toNat (s.unstable e).offset size
      (size + offset).toUInt32 buffer env) e offset buffer) := by
  have hsum : (size + offset).toNat = offset.toNat + size.toNat := by
    rw [unstableBuffersize_toNat] at hroom
    rw [UInt64.toNat_add, Nat.add_comm]
    exact Nat.mod_eq_of_lt (by omega)
  have hlength : (size + offset).toUInt32.toNat = offset.toNat + size.toNat := by
    rw [toNat_toUInt32_of_le (by omega), hsum]
  have hflushed := h.flushed e
  simp only [Rdwr.flushed, hb, hzero] at hflushed
  have hextend := Content.pwrite_extend (f := s.content e) (o := 0) (b := mem) (d := buffer) hstart
    hend
  refine h.storeUnstable htype hok (by omega) (by omega) ?_
  rw [hzero, hlength, ← hflushed]
  rw [Nat.zero_add] at hextend
  exact hextend.symm

variable {seek : Seek} {stable : Bool}

/-- A write that fits keeps the invariant. -/
lemma Inv.write (h : Inv s)
    (hfits : seek.whence = .set → (s.world.entry e).type = .regularFile →
      FitsWrite (s.world.entry e) seek.offset size stable env) :
    Inv (expectWrite (cacheInodeRdwr s c e .write seek size buffer stable env) e seek.offset
      buffer) := by
  have hfail : ∀ status n, status ≠ .success →
      Inv (expectWrite ⟨s, status, n⟩ e seek.offset buffer) := by
    intro status n hst
    rw [expectWrite, if_neg hst]
    exact h
  simp only [cacheInodeRdwr]
  by_cases hwhence : seek.whence ≠ .set
  · rw [if_pos hwhence]
    exact hfail _ _ (by decide)
  rw [if_neg hwhence]
  by_cases htype : (s.world.entry e).type ≠ .regularFile
  · rw [if_pos htype]
    exact hfail _ _ (by decide)
  rw [if_neg htype]
  have hf := hfits (not_not.mp hwhence) (not_not.mp htype)
  rw [not_not] at htype
  -- a write that goes to the FSAL
  have hdirect : env.valid.Ok → (s.world.entry e).pentryContent = false →
      env.close.error = none → Apart (s.unstable e) seek.offset size →
      Inv (expectWrite (rdwrStable s c e .write seek.offset size buffer env) e seek.offset buffer) := by
    intro hok hcached hclose hapart
    rw [rdwrStable, if_neg (by simp [hcached])]
    exact h.rdwrDirect htype hok hclose hapart
  cases stable with
  | true =>
    simp only [FitsWrite, Bool.true_eq_false, false_and, if_false] at hf
    exact hdirect hf.1 hf.2.1 hf.2.2.1 hf.2.2.2
  | false =>
    rw [if_neg (by decide)]
    simp only [FitsWrite, true_and] at hf
    cases hb : (s.world.entry e).unstableData.buffer with
    | none =>
      rw [hb, Option.isNone_none, if_pos rfl] at hf
      cases env.alloc with
      | none => exact hfail _ _ (by decide)
      | some mem => exact h.storeFirst htype hf.1 hb hf.2
    | some mem =>
      rw [hb, if_neg (by simp)] at hf
      dsimp only
      split_ifs with hin
      · rw [if_pos hin] at hf
        exact h.storeNext htype hf.1 hb hf.2.1 hf.2.2.1 hf.2.2.2.1 hf.2.2.2.2
      · rw [if_neg hin] at hf
        exact hdirect hf.1 hf.2.1 hf.2.2.1 hf.2.2.2

/-- All of the data that a commit of the whole file sends is written, if the write succeeds. -/
def WritesAll (length : UInt32) : Except FsalError UInt64 → Prop
  | .ok done => length.toUInt64 ≤ done
  | .error _ => True

instance {length : UInt32} : DecidablePred (WritesAll length)
  | .ok _ => inferInstanceAs (Decidable (_ ≤ _))
  | .error _ => inferInstanceAs (Decidable True)

/-- A commit sends data of the buffer to the FSAL. -/
def FitsCommit (entry : Entry) (offset count : UInt64) (env : Env) : Prop :=
  let u := entry.unstableData
  u.buffer.isSome = true →
    entry.pentryContent = false ∧
    if count = 0 ∨ count = 0xFFFFFFFF then WritesAll u.length env.io
    else u.offset ≤ offset → (offset - u.offset).toNat + count.toNat ≤ u.length.toNat

instance {entry : Entry} {count : UInt64} : Decidable (FitsCommit entry offset count env) :=
  inferInstanceAs (Decidable (_ → _ ∧ ite _ _ _))

/-- Sending a part of the buffer changes nothing that is expected. -/
lemma Inv.sendPart (h : Inv s) (hb : (s.unstable e).buffer = some mem)
    (hoffset : offset.toNat = (s.unstable e).offset.toNat + k)
    (hlen : k + size.toNat ≤ (s.unstable e).length.toNat) :
    Inv (Rdwr.rdwrDirect s c e .write offset size (fun i => mem (k + i)) env).files := by
  have hspec := directSpec_rdwrDirect s c e offset size (fun i => mem (k + i)) env
  generalize Rdwr.rdwrDirect s c e .write offset size (fun i => mem (k + i)) env = r at hspec ⊢
  rcases hspec.content with ⟨hc, -⟩ | ⟨done, -, hc, -, -⟩
  · exact h.of_quiet hspec.quiet hc
  · have hu : ∀ e', r.files.unstable e' = s.unstable e' := fun e' => (hspec.quiet.keeps e').2
    have hmin := toNat_min_le done size
    apply h.of_entry (e := e)
    · exact hspec.quiet.overrun.trans h.overrun
    · intro e' he
      refine ⟨hu e', ?_, ?_⟩
      · rw [hc, Function.update_of_ne he]
      · rw [hspec.quiet.expected]
    · rw [hu]
      exact h.within e
    · rw [hu, hc, Function.update_self, hspec.quiet.expected, hoffset, flushed_part hb (by omega),
        h.flushed e]

/-- The buffer may be dropped when the file has its bytes. -/
lemma Inv.dropUnstable (h : Inv s) (hc : s.content e = s.expected e) :
    Inv (Rdwr.dropUnstable s e) := by
  have hself : ((Rdwr.dropUnstable s e).unstable e).buffer = none := by
    show ((World.setEntry _ e _).entry e).unstableData.buffer = none
    rw [setEntry_self]
  apply h.of_entry (e := e)
  · exact h.overrun
  · intro e' he
    refine ⟨?_, rfl, rfl⟩
    show ((World.setEntry _ e _).entry e').unstableData = _
    rw [setEntry_other he]
  · intro hsome
    rw [hself] at hsome
    exact absurd hsome (by simp)
  · rw [Rdwr.flushed, hself]
    exact hc

lemma sends_eq {start n : ℕ} (hn : start + n ≤ unstableBuffersize.toNat) : s.sends start n = s := by
  have hflag : (s.overrun || unstableBuffersize.toNat < start + n) = s.overrun := by
    rw [decide_eq_false (by omega), Bool.or_false]
  rw [Files.sends, hflag]

/-- A read or write inside the buffer. -/
lemma Inv.rdwrPart (h : Inv s) (hb : (s.unstable e).buffer = some mem)
    (hcached : (s.world.entry e).pentryContent = false)
    (hoffset : offset.toNat = (s.unstable e).offset.toNat + k)
    (hlen : k + size.toNat ≤ (s.unstable e).length.toNat) :
    Inv (cacheInodeRdwr s c e .write ⟨.set, offset⟩ size (fun i => mem (k + i)) true env).files := by
  rw [cacheInodeRdwr_stable]
  split_ifs
  · exact h
  · exact h
  · rw [rdwrStable, if_neg (by simp [hcached])]
    exact h.sendPart hb hoffset hlen

/-- What one call of the FSAL writes of the whole buffer. -/
lemma rdwr_all {length : UInt32} (hcached : (s.world.entry e).pentryContent = false)
    (hall : WritesAll length env.io) :
    let r := cacheInodeRdwr s c e .write ⟨.set, offset⟩ length.toUInt64 buffer true env
    r.status = .success →
      r.files.content e = (s.content e).pwrite offset.toNat length.toNat buffer ∧
      r.files.expected = s.expected := by
  intro r hst
  have hr : r = cacheInodeRdwr s c e .write ⟨.set, offset⟩ length.toUInt64 buffer true env := rfl
  rw [cacheInodeRdwr_stable] at hr
  split_ifs at hr with hwhence htype
  · exact absurd hst (by rw [hr]; simp)
  · exact absurd hst (by rw [hr]; simp)
  · rw [rdwrStable, if_neg (by simp [hcached])] at hr
    have hspec := directSpec_rdwrDirect s c e offset length.toUInt64 buffer env
    rw [← hr] at hspec
    refine ⟨?_, hspec.quiet.expected⟩
    rcases hspec.content with ⟨-, hne⟩ | ⟨done, hio, hc, -, -⟩
    · exact absurd hst hne
    · rw [hio] at hall
      have hmin : min done length.toUInt64 = length.toUInt64 := by
        show (if done ≤ length.toUInt64 then done else length.toUInt64) = _
        split_ifs with hle
        · exact UInt64.le_antisymm hle hall
        · rfl
      rw [hc, Function.update_self, hmin, UInt32.toNat_toUInt64]

/-- A commit of the whole buffer keeps the invariant. -/
lemma Inv.commitAll (h : Inv s) (hb : (s.unstable e).buffer = some mem)
    (hcached : (s.world.entry e).pentryContent = false) (hall : WritesAll (s.unstable e).length env.io) :
    Inv (Rdwr.commitAll s c e mem env).1 := by
  have hwithin : (s.unstable e).length.toNat ≤ unstableBuffersize.toNat := by
    apply h.within e
    rw [hb]
    rfl
  have hpart : Inv (cacheInodeRdwr s c e .write ⟨.set, (s.unstable e).offset⟩
      (s.unstable e).length.toUInt64 mem true env).files := by
    have hzero : (fun i => mem (0 + i)) = mem := by
      funext i
      rw [Nat.zero_add]
    rw [← hzero]
    apply h.rdwrPart hb hcached
    · rfl
    · rw [UInt32.toNat_toUInt64]
      omega
  simp only [Rdwr.commitAll]
  rw [sends_eq (by rw [Nat.zero_add]; exact hwithin)]
  split_ifs with hst
  · exact hpart
  · rw [not_not] at hst
    obtain ⟨hcontent, hexpected⟩ := rdwr_all hcached hall hst
    apply hpart.dropUnstable
    rw [hcontent, hexpected, ← h.flushed e, Rdwr.flushed, hb]

/-- So does one of a part. -/
lemma Inv.commitPart {count : UInt64} (h : Inv s) (hb : (s.unstable e).buffer = some mem)
    (hcached : (s.world.entry e).pentryContent = false) (hle : (s.unstable e).offset ≤ offset)
    (hlen : (offset - (s.unstable e).offset).toNat + count.toNat ≤ (s.unstable e).length.toNat) :
    Inv (Rdwr.commitPart s c e mem offset count env).1 := by
  have hwithin : (s.unstable e).length.toNat ≤ unstableBuffersize.toNat := by
    apply h.within e
    rw [hb]
    rfl
  have hsub := UInt64.toNat_sub_of_le _ _ hle
  have hle' := UInt64.le_iff_toNat_le.mp hle
  simp only [Rdwr.commitPart]
  rw [sends_eq (Nat.le_trans hlen hwithin)]
  apply h.rdwrPart hb hcached
  · show _ = _ + (offset - (s.unstable e).offset).toNat
    omega
  · exact hlen

/-- So does every commit that fits. -/
lemma Inv.commit {count : UInt64} (h : Inv s)
    (hfits : FitsCommit (s.world.entry e) offset count env) :
    Inv (cacheInodeCommit s c e offset count env).1 := by
  unfold cacheInodeCommit
  simp only [FitsCommit] at hfits
  cases hb : (s.world.entry e).unstableData.buffer with
  | none => exact h
  | some mem =>
    rw [hb] at hfits
    obtain ⟨hcached, hfit⟩ := hfits rfl
    dsimp only
    split_ifs with hcount hoffset
    · rw [if_pos hcount] at hfit
      exact h.commitAll hb hcached hfit
    · exact h
    · rw [if_neg hcount] at hfit
      have hle := UInt64.not_lt.mp hoffset
      exact h.commitPart hb hcached hle (hfit hle)

/-! ## Runs -/

/-- The calls that keep the unstable data right. -/
def Fits (s : Files) : Event → Prop
  | .read .. => True
  | .write _ e seek size _ stable env =>
    seek.whence = .set → (s.world.entry e).type = .regularFile →
      FitsWrite (s.world.entry e) seek.offset size stable env
  | .commit _ e offset count env => FitsCommit (s.world.entry e) offset count env

instance (s : Files) : DecidablePred (Fits s)
  | .read .. => inferInstanceAs (Decidable True)
  | .write .. => inferInstanceAs (Decidable (_ → _ → _))
  | .commit .. => inferInstanceAs (Decidable (FitsCommit ..))

/-- So does every step that fits. -/
theorem Inv.step {ev : Event} (h : Inv s) (hfits : Fits s ev) (hstep : Rdwr.step s ev = some s') :
    Inv s' := by
  cases ev with
  | read c e seek size buffer env =>
    rw [← Option.some.inj hstep]
    exact h.of_quiet read_quiet.1 read_quiet.2
  | write c e seek size buffer stable env =>
    rw [← Option.some.inj hstep]
    exact h.write hfits
  | commit c e offset count env =>
    rw [← Option.some.inj hstep]
    exact h.commit hfits

/-- After a commit with count 0 the buffer is gone. -/
lemma commit_unstable (hst : (cacheInodeCommit s c e offset 0 env).2 = .success) :
    ((cacheInodeCommit s c e offset 0 env).1.unstable e).buffer = none := by
  unfold cacheInodeCommit at hst ⊢
  cases hb : (s.world.entry e).unstableData.buffer with
  | none => exact hb
  | some mem =>
    rw [hb] at hst
    dsimp only at hst ⊢
    rw [if_pos (Or.inl rfl)] at hst ⊢
    simp only [commitAll] at hst ⊢
    split_ifs at hst ⊢ with hr
    · exact absurd hst hr
    · show ((World.setEntry _ e _).entry e).unstableData.buffer = none
      rw [setEntry_self]

/-- The buffers are not overrun, and a successful commit of the whole file leaves in the FSAL what
the writes should give, if the commit itself meets `C`. -/
def Committed (C : Files → Event → Prop) (s : Files) : Prop :=
  s.overrun = false ∧ (∀ e, Within (s.unstable e)) ∧
  ∀ c e env, C s (.commit c e 0 0 env) → (cacheInodeCommit s c e 0 0 env).2 = .success →
    (cacheInodeCommit s c e 0 0 env).1.content e = (cacheInodeCommit s c e 0 0 env).1.expected e

/-- In every run of calls that fit, what a commit sends is in the buffer, and after a successful
commit the file is what the writes make of it. -/
theorem committed_of_fits {s₀ : Files} (hinit : Initial s₀)
    (hrun : ReachableBy Rdwr.step Fits s₀ s) : Committed Fits s := by
  have hinv := hrun.invariant (inv_of_initial hinit) fun _ _ _ h hfits hstep => h.step hfits hstep
  refine ⟨hinv.overrun, hinv.within, ?_⟩
  intro c e env hfits hst
  have hafter : Inv (cacheInodeCommit s c e 0 0 env).1 := hinv.commit hfits
  have hflushed := hafter.flushed e
  rw [flushed, commit_unstable hst] at hflushed
  exact hflushed

/-- The files are empty, and nothing is open. -/
def emptyFiles : Files where
  world :=
    { entry := fun _ =>
        { type := .regularFile
          attributes := ⟨0, 0, 0, ⟨0, 0⟩, ⟨0, 0⟩, ⟨0, 0⟩⟩
          pentryContent := false
          openFd := { fd := none, fileno := 0, openflags := 0, lastOp := 0 }
          unstableData := { buffer := none, offset := 0, length := 0 } }
      client := fun _ =>
        { attrmask := 0, useCache := 1, retention := 60, maxFdPerThread := 20, timeOfLastGcFd := 0,
          lruGc := [] }
      fsal := { next := 0, live := fun _ => none, strayClose := false, lost := false } }
  content _ := ⟨fun _ => 0, 0, fun _ _ => rfl⟩
  expected _ := ⟨fun _ => 0, 0, fun _ _ => rfl⟩
  overrun := false

lemma initial_emptyFiles : Initial emptyFiles :=
  ⟨⟨fun _ => rfl, fun _ => rfl, rfl, rfl⟩, fun _ => rfl, rfl, rfl⟩

/-- No call fails, and `FSAL_write` does up to 100 bytes. -/
def noFailure : Env where
  now := 100
  alloc := some fun _ => 0
  content := ⟨.success, 0, 0, 0⟩
  renew := none
  contentAgain := ⟨.success, 0, 0, 0⟩
  open' :=
    { now := 100, close := .closed, open' := .opened 5 ⟨0, 0, 0, ⟨0, 0⟩, ⟨0, 0⟩, ⟨0, 0⟩⟩,
      gc := fun _ => .closed }
  io := .ok 100
  errorClose := .closed
  close := .closed
  getattrs := .ok (0, 0)
  valid := ⟨true, true, .closed, true, true⟩

/-- Two unstable writes that follow each other, a stable one behind them, and a commit. -/
def appended : List Event :=
  [.write 0 1 ⟨.set, 0⟩ 3 (fun i => [7, 8, 9].getD i 0) false noFailure,
    .write 0 1 ⟨.set, 2⟩ 2 (fun i => [1, 2].getD i 0) false noFailure,
    .write 0 1 ⟨.set, 50⟩ 1 (fun _ => 5) true noFailure,
    .commit 0 1 1 2 noFailure]

theorem committed_after_appended :
    (execute Rdwr.step emptyFiles appended).any (fun s =>
      let r := cacheInodeCommit s 0 1 0 0 noFailure
      decide (Fits s (.commit 0 1 0 0 noFailure)) && decide (r.2 = .success) &&
        (List.range 5).map (r.1.content 1).bytes == [7, 8, 1, 2, 0]) = true ∧
    ∀ s, execute Rdwr.step emptyFiles appended = some s → Committed Fits s :=
  ⟨by decide +kernel, fun _ hs => committed_of_fits initial_emptyFiles
    (reachableBy_of_execute hs (by decide +kernel))⟩

/-- After an unstable write at 10 the byte of one at 20 is put 20 bytes behind the first, and it
goes to the offset 30 of the file. -/
theorem not_committed_after_gap :
    ¬ ∀ s₀ s, Initial s₀ → Reachable Rdwr.step s₀ s → Committed (fun _ _ => True) s := by
  intro h
  have hrun : ∃ s, execute Rdwr.step emptyFiles
      [.write 0 1 ⟨.set, 10⟩ 1 (fun _ => 5) false noFailure,
        .write 0 1 ⟨.set, 20⟩ 1 (fun _ => 7) false noFailure] = some s ∧
      (cacheInodeCommit s 0 1 0 0 noFailure).2 = .success ∧
      ((cacheInodeCommit s 0 1 0 0 noFailure).1.content 1).bytes 20 = 0 ∧
      ((cacheInodeCommit s 0 1 0 0 noFailure).1.expected 1).bytes 20 = 7 :=
    ⟨_, rfl, by decide +kernel, by decide +kernel, by decide +kernel⟩
  obtain ⟨s, hs, hst, hcontent, hexpected⟩ := hrun
  have hc := (h _ s initial_emptyFiles (reachable_of_execute hs)).2.2 0 1 noFailure trivial hst
  rw [hc, hexpected] at hcontent
  exact absurd hcontent (by decide)

end Ganesha.CacheInode.Rdwr
