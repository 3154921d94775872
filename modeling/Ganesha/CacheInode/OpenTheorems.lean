import Ganesha.CacheInode.OpenClose

/-!
# The descriptors that the cache keeps open
-/

namespace Ganesha.CacheInode
open Function (update)
open Library.Transition

/-- Only open descriptors were closed, none was overwritten, and the recorded flags are right. -/
def Disciplined (w : World) : Prop :=
  w.fsal.strayClose = false ∧ w.fsal.lost = false ∧
  ∀ e d flags, (w.entry e).openFd.fd = some d → w.fsal.live d = some flags →
    (w.entry e).openFd.openflags = flags

/-- `fileno` tells whether there is an open descriptor in `fd`. -/
structure Tracks (f : Fsal) (o : OpenFd) : Prop where
  isOpen : o.fileno ≠ 0 → ∃ d, o.fd = some d ∧ f.live d = some o.openflags
  lastOp : o.fileno ≠ 0 → o.lastOp ≠ 0
  isShut : o.fileno = 0 → f.holds o.fd = false

structure Inv (w : World) : Prop where
  strayClose : w.fsal.strayClose = false
  lost : w.fsal.lost = false
  fresh : ∀ d, w.fsal.next ≤ d → w.fsal.live d = none
  past : ∀ e d, (w.entry e).openFd.fd = some d → d < w.fsal.next
  tracks : ∀ e, Tracks w.fsal (w.entry e).openFd
  apart : ∀ e e' d, e ≠ e' → (w.entry e).openFd.fd = some d → (w.entry e').openFd.fd = some d →
    w.fsal.live d = none

variable {w w' : World} {c e e' d : ℕ} {now : ℤ} {answer : CloseAnswer} {o : OpenFd} {flags : UInt16}
  {f f' : Fsal}

lemma holds_some : f.holds (some d) = (f.live d).isSome := rfl

/-- A closed descriptor is tracked. -/
lemma tracks_of_shut (hfileno : o.fileno = 0) (hshut : f.holds o.fd = false) : Tracks f o := by
  constructor
  · intro hne
    exact absurd hfileno hne
  · intro hne
    exact absurd hfileno hne
  · intro _
    exact hshut

/-- It holds with no file open. -/
lemma inv_of_initial (h : Initial w) : Inv w := by
  have hopen := h.1
  have hlive := h.2.1
  constructor
  · exact h.2.2.1
  · exact h.2.2.2
  · intro d _
    exact hlive d
  · intro e d hd
    rw [hopen e] at hd
    exact absurd hd (by simp)
  · intro e
    rw [hopen e]
    exact tracks_of_shut rfl rfl
  · intro e e' d _ _ _
    exact hlive d

/-- What is asked of the descriptors follows from it. -/
theorem Inv.disciplined (h : Inv w) : Disciplined w := by
  refine ⟨h.strayClose, h.lost, ?_⟩
  intro e d flags hfd hlive
  by_cases hfileno : (w.entry e).openFd.fileno = 0
  · have hshut := (h.tracks e).isShut hfileno
    rw [hfd, holds_some, hlive] at hshut
    exact absurd hshut (by simp)
  · obtain ⟨d', hfd', hlive'⟩ := (h.tracks e).isOpen hfileno
    rw [hfd] at hfd'
    rw [← Option.some.inj hfd', hlive] at hlive'
    exact (Option.some.inj hlive').symm

/-! ## The steps inside of the functions -/

/-- An entry is tracked as before if its descriptor is. -/
lemma Tracks.congr (h : Tracks f o) (hlive : ∀ d, o.fd = some d → f'.live d = f.live d) :
    Tracks f' o := by
  constructor
  · intro hf
    obtain ⟨d, hd, hl⟩ := h.isOpen hf
    exact ⟨d, hd, by rw [hlive d hd, hl]⟩
  · exact h.lastOp
  · intro hf
    have hshut := h.isShut hf
    cases hd : o.fd with
    | none => rfl
    | some d =>
      rw [hd, holds_some] at hshut
      rw [holds_some, hlive d hd, hshut]

/-- What a change of one entry and of the FSAL has to keep. -/
structure Changes (w : World) (e : ℕ) (w' : World) : Prop where
  other : ∀ e', e' ≠ e → w'.entry e' = w.entry e'
  live : ∀ e' d, e' ≠ e → (w.entry e').openFd.fd = some d → w'.fsal.live d = w.fsal.live d
  next : w.fsal.next ≤ w'.fsal.next
  fd : ∀ d, (w'.entry e).openFd.fd = some d → d < w'.fsal.next ∧
    ∀ e', e' ≠ e → (w.entry e').openFd.fd = some d → w.fsal.live d = none

/-- A change of one entry keeps the invariant if it is tracked afterwards. -/
lemma Inv.of_changes (h : Inv w) (hc : Changes w e w') (hstray : w'.fsal.strayClose = false)
    (hlost : w'.fsal.lost = false) (hfresh : ∀ d, w'.fsal.next ≤ d → w'.fsal.live d = none)
    (ht : Tracks w'.fsal (w'.entry e).openFd) : Inv w' := by
  constructor
  · exact hstray
  · exact hlost
  · exact hfresh
  · intro e' d hd
    by_cases he : e' = e
    · rw [he] at hd
      exact (hc.fd d hd).1
    · rw [hc.other e' he] at hd
      exact Nat.lt_of_lt_of_le (h.past e' d hd) hc.next
  · intro e'
    by_cases he : e' = e
    · rw [he]
      exact ht
    · rw [hc.other e' he]
      exact (h.tracks e').congr (fun d hd => hc.live e' d he hd)
  · intro e₁ e₂ d hne h₁ h₂
    -- one of the two entries is not the changed one
    by_cases he : e₁ = e
    · have he₂ : e₂ ≠ e := fun heq => hne (he.trans heq.symm)
      rw [he] at h₁
      rw [hc.other e₂ he₂] at h₂
      rw [hc.live e₂ d he₂ h₂]
      exact (hc.fd d h₁).2 e₂ he₂ h₂
    · rw [hc.other e₁ he] at h₁
      rw [hc.live e₁ d he h₁]
      by_cases he₂ : e₂ = e
      · rw [he₂] at h₂
        exact (hc.fd d h₂).2 e₁ he h₁
      · rw [hc.other e₂ he₂] at h₂
        exact h.apart e₁ e₂ d hne h₁ h₂

/-- A change that leaves the other descriptors. -/
lemma changes_of_fd {x : Entry} (h : Inv w) (hlive : ∀ e' d, e' ≠ e →
      (w.entry e').openFd.fd = some d → f.live d = w.fsal.live d) (hnext : f.next = w.fsal.next)
    (hfd : x.openFd.fd = (w.entry e).openFd.fd ∨ x.openFd.fd = none) :
    Changes w e ({ w with fsal := f }.setEntry e x) := by
  constructor
  · intro e' he
    exact setEntry_other he
  · exact hlive
  · exact Nat.le_of_eq hnext.symm
  · intro d hd
    rw [setEntry_self] at hd
    rcases hfd with hfd | hfd
    · rw [hfd] at hd
      refine ⟨?_, ?_⟩
      · exact Nat.lt_of_lt_of_eq (h.past e d hd) hnext.symm
      · intro e' he hd'
        exact h.apart e' e d he hd' hd
    · rw [hfd] at hd
      exact absurd hd (by simp)

lemma Inv.setEntry {x : Entry} (h : Inv w)
    (hfd : x.openFd.fd = (w.entry e).openFd.fd ∨ x.openFd.fd = none)
    (ht : Tracks w.fsal x.openFd) : Inv (w.setEntry e x) := by
  refine h.of_changes (changes_of_fd (f := w.fsal) h ?_ rfl hfd) h.strayClose h.lost h.fresh ?_
  · intro e' d _ _
    rfl
  · rw [setEntry_self]
    exact ht

lemma drop_live {d' : ℕ} : (f.drop d).live d' = if d' = d then none else f.live d' :=
  Function.update_apply _ _ _ _

lemma Inv.fsalClose_gone (h : Inv w) (hfileno : (w.entry e).openFd.fileno ≠ 0)
    (hgone : answer.gone = true) :
    ∃ d, (w.entry e).openFd.fd = some d ∧ w.fsal.live d ≠ none ∧
      w.fsalClose e answer = { w with fsal := w.fsal.drop d } := by
  obtain ⟨d, hfd, hlive⟩ := (h.tracks e).isOpen hfileno
  refine ⟨d, hfd, by simp [hlive], ?_⟩
  simp [World.fsalClose, CacheInode.fsalClose, hfd, hlive, hgone]

/-- A descriptor that is really closed is forgotten. -/
lemma Inv.closeFd (h : Inv w) (hfileno : (w.entry e).openFd.fileno ≠ 0) (hgone : answer.gone = true) :
    Inv ((w.fsalClose e answer).resetFd e) := by
  obtain ⟨d, hfd, hlive, hclose⟩ := h.fsalClose_gone hfileno hgone
  rw [hclose]
  refine h.of_changes (changes_of_fd h ?_ rfl (Or.inl rfl)) h.strayClose h.lost ?_ ?_
  · intro e' d' he hd'
    have hne : d' ≠ d := by
      intro hdd
      rw [hdd] at hd'
      exact hlive (h.apart e' e d he hd' hfd)
    rw [drop_live, if_neg hne]
  · intro d' hd'
    show (w.fsal.drop d).live d' = none
    rw [drop_live, h.fresh d' hd', ite_self]
  · rw [World.resetFd, World.setOpenFd, setEntry_self]
    apply tracks_of_shut rfl
    show (w.fsal.drop d).holds (w.entry e).openFd.fd = false
    rw [hfd, holds_some, drop_live, if_pos rfl]
    rfl

lemma Inv.fsalClose_failed (h : Inv w) (hfileno : (w.entry e).openFd.fileno ≠ 0)
    (hgone : answer.gone = false) : w.fsalClose e answer = w := by
  obtain ⟨d, hfd, hlive⟩ := (h.tracks e).isOpen hfileno
  simp [World.fsalClose, CacheInode.fsalClose, hfd, hlive, hgone]

/-- A new descriptor is put in an entry that has none. -/
lemma Inv.addFd {x : Entry} (h : Inv w) (hshut : w.fsal.holds (w.entry e).openFd.fd = false)
    (hfd : x.openFd.fd = some w.fsal.next) (hflags : x.openFd.openflags = flags)
    (hfileno : x.openFd.fileno ≠ 0) (hlastOp : x.openFd.lastOp ≠ 0) :
    Inv ({ w with fsal := w.fsal.add (w.entry e).openFd.fd flags }.setEntry e x) := by
  have hadd : ∀ d, d ≠ w.fsal.next →
      (w.fsal.add (w.entry e).openFd.fd flags).live d = w.fsal.live d :=
    fun d hd => Function.update_of_ne hd _ _
  -- no entry has the descriptor that is opened now
  have hne : ∀ e' d, (w.entry e').openFd.fd = some d → d ≠ w.fsal.next :=
    fun e' d hd => Nat.ne_of_lt (h.past e' d hd)
  apply h.of_changes (e := e)
  · constructor
    · intro e' he
      exact setEntry_other he
    · intro e' d _ hd
      exact hadd d (hne e' d hd)
    · exact Nat.le_succ _
    · intro d hd
      rw [setEntry_self, hfd] at hd
      have hd' : w.fsal.next = d := Option.some.inj hd
      refine ⟨?_, ?_⟩
      · rw [← hd']
        exact Nat.lt_succ_self _
      · intro e' _ hd''
        exact absurd hd'.symm (hne e' d hd'')
  · exact h.strayClose
  · show (w.fsal.lost || w.fsal.holds (w.entry e).openFd.fd) = false
    rw [h.lost, hshut]
    rfl
  · intro d hd
    show (w.fsal.add (w.entry e).openFd.fd flags).live d = none
    rw [hadd d (Nat.ne_of_gt hd)]
    exact h.fresh d (Nat.le_of_succ_le hd)
  · rw [setEntry_self]
    constructor
    · intro _
      refine ⟨w.fsal.next, hfd, ?_⟩
      rw [hflags]
      exact Function.update_self _ _ _
    · intro _
      exact hlastOp
    · intro hzero
      exact absurd hzero hfileno

/-! ## The functions -/

/-- `cache_inode_close` gets to `FSAL_close`. -/
def Closes (w : World) (c e : ℕ) (now : ℤ) : Prop :=
  (w.entry e).type = .regularFile ∧
    ((w.client c).useCache = 0 ∨ now - (w.entry e).openFd.lastOp > (w.client c).retention ∨
      (w.entry e).openFd.fileno > (w.client c).maxFdPerThread)

instance : Decidable (Closes w c e now) := inferInstanceAs (Decidable (_ ∧ _))

lemma cacheInodeClose_closes (h : Closes w c e now) :
    (cacheInodeClose w c e now answer).1 = (w.fsalClose e answer).resetFd e := by
  have htype : ¬ (w.entry e).type ≠ .regularFile := fun hne => hne h.1
  have hneg : ¬ (w.entry e).openFd.fileno < 0 := UInt32.not_lt_zero
  simp only [cacheInodeClose]
  rw [if_neg htype, if_neg hneg, if_pos h.2]
  cases answer.error <;> rfl

/-- A close that is put off. -/
lemma cacheInodeClose_other (h : ¬ Closes w c e now) :
    (cacheInodeClose w c e now answer).1 = w := by
  simp only [cacheInodeClose]
  split_ifs with htype hneg hc
  · rfl
  · rfl
  · exact absurd ⟨not_not.mp htype, hc⟩ h
  · rfl

lemma Inv.cacheInodeClose (h : Inv w)
    (hc : Closes w c e now → (w.entry e).openFd.fileno ≠ 0 ∧ answer.gone = true) :
    Inv (CacheInode.cacheInodeClose w c e now answer).1 := by
  by_cases hcl : Closes w c e now
  · rw [cacheInodeClose_closes hcl]
    exact h.closeFd (hc hcl).1 (hc hcl).2
  · rw [cacheInodeClose_other hcl]
    exact h

lemma Inv.gcFdFunc (h : Inv w) (nb : UInt32) (now : ℤ) (hgone : answer.gone = true) :
    Inv (CacheInode.gcFdFunc w c e nb now answer).1 := by
  simp only [CacheInode.gcFdFunc]
  split_ifs with hg
  · exact h.cacheInodeClose (fun _ => ⟨hg.2.1, hgone⟩)
  · exact h

/-- The collector closes descriptors one after the other. -/
lemma Inv.gcFdLoop {answer : ℕ → CloseAnswer} {items : List LruItem} (h : Inv w) (nb : UInt32)
    (now : ℤ) (hgone : ∀ item ∈ items, (answer item.pdata).gone = true) :
    Inv (CacheInode.gcFdLoop c now answer w nb items) := by
  induction items generalizing w nb with
  | nil => exact h
  | cons item items ih =>
    have hitem := hgone item List.mem_cons_self
    have hitems : ∀ i ∈ items, (answer i.pdata).gone = true :=
      fun i hi => hgone i (List.mem_cons_of_mem _ hi)
    rw [CacheInode.gcFdLoop]
    split_ifs with hvalid
    · have hfunc := h.gcFdFunc (c := c) (e := item.pdata) nb now hitem
      dsimp only
      split_ifs with hnb
      · exact hfunc
      · exact ih hfunc _ hitems
    · exact ih h _ hitems

/-- The collector of descriptors. -/
lemma Inv.gcFd {answer : ℕ → CloseAnswer} (h : Inv w)
    (hgone : ∀ item ∈ (w.client c).lruGc, (answer item.pdata).gone = true) :
    Inv (CacheInode.gcFd w c now answer).1 := by
  simp only [CacheInode.gcFd]
  split_ifs with huse htime
  · exact h
  · exact h
  · have hloop := h.gcFdLoop (c := c) (w.client c).maxFdPerThread now
      (fun item hi => hgone item (List.mem_of_mem_tail hi))
    exact ⟨hloop.strayClose, hloop.lost, hloop.fresh, hloop.past, hloop.tracks, hloop.apart⟩

lemma Inv.openEnd {env : OpenEnv}
    (h : Inv (w.setOpenFd e { (w.entry e).openFd with lastOp := env.now }))
    (hgone : ∀ item ∈ (w.client c).lruGc, (env.gc item.pdata).gone = true) :
    Inv (CacheInode.openEnd w c e env).1 := by
  simp only [CacheInode.openEnd]
  split_ifs with hfd
  · exact h.gcFd hgone
  · exact h

lemma Inv.touch (h : Inv w) (hnow : now ≠ 0) :
    Inv (w.setOpenFd e { (w.entry e).openFd with lastOp := now }) := by
  have ht := h.tracks e
  refine h.setEntry ?_ ?_
  · exact Or.inl rfl
  · exact ⟨ht.isOpen, fun _ => hnow, ht.isShut⟩

/-- What the cache makes of a failure of `FSAL_close` is what happened to the descriptor. -/
def CloseAnswer.Clear (answer : CloseAnswer) : Prop :=
  answer.gone = answer.error.isNone

instance : Decidable answer.Clear := inferInstanceAs (Decidable (_ = _))

/-- `FSAL_open` gives no descriptor with the number 0. -/
def OpenAnswer.Numbered : OpenAnswer → Prop
  | .opened fileno _ => fileno ≠ 0
  | .failed _ _ => True

instance (answer : OpenAnswer) : Decidable answer.Numbered := by
  cases answer
  · exact inferInstanceAs (Decidable (_ ≠ _))
  · exact inferInstanceAs (Decidable True)

/-- The descriptor is closed before the file is opened in another mode. -/
lemma Inv.closeForReopen {closes : Bool} (h : Inv w)
    (hc : closes = true → (w.entry e).openFd.fileno ≠ 0 ∧ answer.Clear) :
    Inv (CacheInode.closeForReopen w e closes answer).1 ∧
      (CacheInode.closeForReopen w e closes answer).1.client = w.client := by
  simp only [CacheInode.closeForReopen]
  split_ifs with hcl
  · have hfileno := (hc hcl).1
    have hclear := (hc hcl).2
    rw [CloseAnswer.Clear] at hclear
    cases herr : answer.error with
    | none =>
      rw [herr] at hclear
      exact ⟨h.closeFd hfileno hclear, rfl⟩
    | some err =>
      rw [herr] at hclear
      refine ⟨?_, rfl⟩
      show Inv (w.fsalClose e answer)
      rw [h.fsalClose_failed hfileno hclear]
      exact h
  · exact ⟨h, rfl⟩

lemma andThen_failure {r : World × Status} {rest : World → World × Status} (h : r.2 ≠ .success) :
    andThen r rest = r := by
  rw [andThen, if_neg h]

lemma andThen_inv {r : World × Status} {rest : World → World × Status} (h : Inv r.1)
    (hrest : Inv (rest r.1).1) : Inv (andThen r rest).1 := by
  rw [andThen]
  split_ifs
  · exact hrest
  · exact h

/-- The file is opened, and the collector called if there are too many. -/
lemma Inv.openFsal {keep : Attributes → Attributes} {env : OpenEnv} (h : Inv w)
    (hshut : (w.entry e).openFd.lastOp = 0 ∨ (w.entry e).openFd.fileno = 0)
    (hnow : env.now ≠ 0) (hnum : env.open'.Numbered)
    (hgone : ∀ item ∈ (w.client c).lruGc, (env.gc item.pdata).gone = true) :
    Inv (andThen (CacheInode.openFsal w e flags keep env.open') fun w =>
      CacheInode.openEnd w c e env).1 := by
  have ht := h.tracks e
  have hzero : (w.entry e).openFd.fileno = 0 := by
    by_contra hne
    rcases hshut with hl | hf
    · exact ht.lastOp hne hl
    · exact hne hf
  have hheld := ht.isShut hzero
  cases hans : env.open' with
  | opened n a =>
    rw [hans] at hnum
    have hopened : CacheInode.openFsal w e flags keep (.opened n a) =
        ({ w with fsal := w.fsal.add (w.entry e).openFd.fd flags }.setEntry e
          { w.entry e with
            attributes := keep a
            openFd := { (w.entry e).openFd with
              fd := some w.fsal.next, fileno := n, openflags := flags } }, .success) := rfl
    rw [hopened, andThen, if_pos rfl]
    refine Inv.openEnd ?_ hgone
    have hadd := h.addFd (x := { w.entry e with
      attributes := keep a
      openFd := { fd := some w.fsal.next, fileno := n, openflags := flags, lastOp := env.now } })
      hheld rfl rfl hnum hnow
    simpa only [World.setOpenFd, World.setEntry, Function.update_self, Function.update_idem]
      using hadd
  | failed err kept =>
    rw [andThen_failure (errorConvert_ne_success err)]
    cases kept with
    | true =>
      refine h.setEntry ?_ ?_
      · exact Or.inl rfl
      · exact ht
    | false =>
      -- the memory held no open descriptor, so nothing is lost
      have hlost : (w.fsal.lost || w.fsal.holds (w.entry e).openFd.fd) = false := by
        rw [h.lost, hheld]
        rfl
      have hset := h.setEntry (e := e)
        (x := { w.entry e with openFd := { (w.entry e).openFd with fd := none } }) (Or.inr rfl)
        (tracks_of_shut hzero rfl)
      exact ⟨hset.strayClose, hlost, hset.fresh, hset.past,
        fun e' => (hset.tracks e').congr (fun _ _ => rfl), hset.apart⟩

/-! ## Runs -/

/-- The calls that keep `fileno` true to the descriptor. -/
def Careful (w : World) : Event → Prop
  | .openFile c e flags env =>
    env.now ≠ 0 ∧ env.open'.Numbered ∧
    (∀ item ∈ (w.client c).lruGc, (env.gc item.pdata).gone = true) ∧
    ((w.entry e).openFd.openflags ≠ flags → env.close.Clear)
  | .openByName c _ e flags env =>
    env.now ≠ 0 ∧ env.open'.Numbered ∧
    (∀ item ∈ (w.client c).lruGc, (env.gc item.pdata).gone = true) ∧
    ((w.entry e).openFd.openflags ≠ flags → env.close.Clear ∧
      ((w.entry e).openFd.openflags = 0 ∨ (w.entry e).openFd.fileno ≠ 0))
  | .close c e now answer =>
    Closes w c e now → (w.entry e).openFd.fileno ≠ 0 ∧ answer.gone = true
  | .gcFd c _ answer => ∀ item ∈ (w.client c).lruGc, (answer item.pdata).gone = true
  | .lru _ _ => True

instance (w : World) : DecidablePred (Careful w)
  | .openFile .. => inferInstanceAs (Decidable (_ ∧ _))
  | .openByName .. => inferInstanceAs (Decidable (_ ∧ _))
  | .close .. => inferInstanceAs (Decidable (_ → _))
  | .gcFd .. => inferInstanceAs (Decidable (∀ _ ∈ _, _))
  | .lru .. => inferInstanceAs (Decidable True)

/-- A file is opened anew. -/
lemma Inv.reopen {closes : Bool} {env : OpenEnv} (h : Inv w)
    (keep : World → Attributes → Attributes)
    (hc : closes = true → (w.entry e).openFd.fileno ≠ 0 ∧ env.close.Clear)
    (hnow : env.now ≠ 0) (hnum : env.open'.Numbered)
    (hgone : ∀ item ∈ (w.client c).lruGc, (env.gc item.pdata).gone = true) :
    Inv (andThen (CacheInode.closeForReopen w e closes env.close) fun w =>
      if (w.entry e).openFd.lastOp = 0 ∨ (w.entry e).openFd.fileno = 0 then
        andThen (CacheInode.openFsal w e flags (keep w) env.open') fun w =>
          CacheInode.openEnd w c e env
      else CacheInode.openEnd w c e env).1 := by
  obtain ⟨hclosed, hclient⟩ := h.closeForReopen hc
  apply andThen_inv hclosed
  rw [← hclient] at hgone
  split_ifs with hshut
  · exact hclosed.openFsal hshut hnow hnum hgone
  · exact (hclosed.touch hnow).openEnd hgone

/-- Every careful step keeps the invariant. -/
theorem Inv.step {ev : Event} (h : Inv w) (hcare : Careful w ev)
    (hstep : CacheInode.step w ev = some w') : Inv w' := by
  cases ev with
  | openFile c e flags env =>
    rw [← Option.some.inj hstep]
    obtain ⟨hnow, hnum, hgone, hclear⟩ := hcare
    simp only [cacheInodeOpen]
    split_ifs
    · exact h
    · refine h.reopen (fun _ => id) ?_ hnow hnum hgone
      intro hc
      have hc' := of_decide_eq_true hc
      exact ⟨hc'.2.1, hclear hc'.2.2⟩
  | openByName c dir e flags env =>
    rw [← Option.some.inj hstep]
    obtain ⟨hnow, hnum, hgone, hclear⟩ := hcare
    simp only [cacheInodeOpenByName]
    split_ifs
    · exact h
    · exact h
    · refine h.reopen (fun w => keepCached (w.entry e)) ?_ hnow hnum hgone
      intro hc
      have hc' := of_decide_eq_true hc
      have hcl := hclear hc'.2.2
      exact ⟨hcl.2.resolve_left hc'.1, hcl.1⟩
  | close c e now answer =>
    rw [← Option.some.inj hstep]
    exact h.cacheInodeClose hcare
  | gcFd c now answer =>
    rw [← Option.some.inj hstep]
    exact h.gcFd hcare
  | lru c items =>
    rw [← Option.some.inj hstep]
    exact ⟨h.strayClose, h.lost, h.fresh, h.past, h.tracks, h.apart⟩

/-- In every run of careful calls only open descriptors are closed, none is overwritten, and the
recorded flags are those of the open descriptor. -/
theorem disciplined_of_careful {w₀ : World} (hinit : Initial w₀)
    (hrun : ReachableBy CacheInode.step Careful w₀ w) : Disciplined w :=
  (hrun.invariant (inv_of_initial hinit) fun _ _ _ h hcare hstep => h.step hcare hstep).disciplined

/-- No descriptor was opened yet; the clients have the settings `useCache`, a retention of 60 seconds
and at most 20 descriptors. -/
def noneOpen (useCache : UInt32) : World where
  entry e :=
    { type := if e = 0 then .dirBeginning else .regularFile
      attributes := ⟨0, 0, 0, ⟨0, 0⟩, ⟨0, 0⟩, ⟨0, 0⟩⟩
      pentryContent := false
      openFd := { fd := none, fileno := 0, openflags := 0, lastOp := 0 }
      unstableData := { buffer := none, offset := 0, length := 0 } }
  client _ :=
    { attrmask := 0, useCache := useCache, retention := 60, maxFdPerThread := 20, timeOfLastGcFd := 0,
      lruGc := [] }
  fsal := { next := 0, live := fun _ => none, strayClose := false, lost := false }

lemma initial_noneOpen (useCache : UInt32) : Initial (noneOpen useCache) :=
  ⟨fun _ => rfl, fun _ => rfl, rfl, rfl⟩

/-- `FSAL_open` at `now` gives the number `n`, and every `FSAL_close` succeeds. -/
def openedAs (now : ℤ) (n : UInt32) : OpenEnv where
  now := now
  close := .closed
  open' := .opened n ⟨0, 0, 0, ⟨0, 0⟩, ⟨0, 0⟩, ⟨0, 0⟩⟩
  gc := fun _ => .closed

/-- A file is opened to be read, then by its name to be written, and again after the collector closed
its descriptor. -/
def reopened : List Event :=
  [.openFile 0 1 1 (openedAs 100 5), .openByName 0 0 1 4 (openedAs 101 5),
    .lru 0 [⟨2, true⟩, ⟨1, true⟩], .gcFd 0 200 fun _ => .closed, .openFile 0 1 1 (openedAs 201 6)]

theorem disciplined_after_reopened :
    (execute CacheInode.step (noneOpen 1) reopened).any
      (fun w => (w.fsal.live 0).isNone && (w.fsal.live 1).isNone && w.fsal.live 2 == some 1) = true ∧
    ∀ w, execute CacheInode.step (noneOpen 1) reopened = some w → Disciplined w :=
  ⟨by decide +kernel, fun _ hw => disciplined_of_careful (initial_noneOpen 1)
    (reachableBy_of_execute hw (by decide +kernel))⟩

/-- Without the cache of descriptors the second of two calls of `cache_inode_close` closes a
descriptor that is not open. -/
theorem not_disciplined_after_two_closes :
    ¬ ∀ w₀ w, Initial w₀ → Reachable CacheInode.step w₀ w → Disciplined w := by
  intro h
  have hrun : ∃ w, execute CacheInode.step (noneOpen 0)
      [.openFile 0 1 1 (openedAs 100 5), .close 0 1 101 .closed, .close 0 1 102 .closed] = some w ∧
      w.fsal.strayClose = true := ⟨_, rfl, by decide +kernel⟩
  obtain ⟨w, hw, hstray⟩ := hrun
  have hd := h _ w (initial_noneOpen 0) (reachable_of_execute hw)
  rw [hd.1] at hstray
  exact absurd hstray (by decide)

end Ganesha.CacheInode
