import Ganesha.CacheInode.Setattr
import Ganesha.Library.Transition

/-!
# The cached attributes are those of the file system
-/

namespace Ganesha.CacheInode.Setattr
open Library.Transition

variable {info : FsInfo} {cred : Credential} {attrs : AttrSet} {ans : SetattrsAnswer}
  {trunc : TruncateAnswer} {ino stat : Inode} {cached out : Attributes} {s s' : ℕ → Object}

/-! ## Coherence -/

/-- Size, mode, owner, group and link count in the cache are those of the inode. -/
structure Agrees (a : Attributes) (ino : Inode) : Prop where
  filesize : a.filesize = ino.size
  mode : a.mode = ino.mode
  owner : a.owner = ino.owner
  group : a.group = ino.group
  numlinks : a.numlinks = ino.numlinks

instance (a : Attributes) (ino : Inode) : Decidable (Agrees a ino) :=
  decidable_of_iff (a.filesize = ino.size ∧ a.mode = ino.mode ∧ a.owner = ino.owner ∧
    a.group = ino.group ∧ a.numlinks = ino.numlinks)
    ⟨fun ⟨h₁, h₂, h₃, h₄, h₅⟩ => ⟨h₁, h₂, h₃, h₄, h₅⟩, fun ⟨h₁, h₂, h₃, h₄, h₅⟩ => ⟨h₁, h₂, h₃, h₄, h₅⟩⟩

/-- What is cached of an object is what the FSAL has. -/
def Coherent (o : Object) : Prop := ∀ a ∈ o.cached, Agrees a o.inode

instance (o : Object) : Decidable (Coherent o) := inferInstanceAs (Decidable (∀ a ∈ o.cached, _))

/-- The change from `ino` to `ino'` is none that the cache has to know. -/
def Unchanged (ino ino' : Inode) : Prop := Agrees ino.attributes ino'

instance (ino ino' : Inode) : Decidable (Unchanged ino ino') := inferInstanceAs (Decidable (Agrees _ _))

lemma Agrees.unchanged {ino' : Inode} (h : Agrees cached ino) (h' : Unchanged ino ino') :
    Agrees cached ino' where
  filesize := h.filesize.trans h'.filesize
  mode := h.mode.trans h'.mode
  owner := h.owner.trans h'.owner
  group := h.group.trans h'.group
  numlinks := h.numlinks.trans h'.numlinks

lemma agrees_attributes : Agrees ino.attributes ino := ⟨rfl, rfl, rfl, rfl, rfl⟩

/-! ## The FSAL -/

/-- `FSAL_truncate` sets the size. -/
def TruncateAnswer.Truncates (ans : TruncateAnswer) (ino : Inode) : Prop :=
  ans.path = none ∧ ino.type = .regularFile ∧ ans.truncate = none

instance : Decidable (trunc.Truncates ino) := inferInstanceAs (Decidable (_ ∧ _))

/-- What a change of mode, owner, group and times leaves as it is. -/
structure Frame (ino ino' : Inode) : Prop where
  type : ino'.type = ino.type
  size : ino'.size = ino.size
  numlinks : ino'.numlinks = ino.numlinks

lemma Frame.refl : Frame ino ino := ⟨rfl, rfl, rfl⟩

lemma Frame.trans {ino' ino'' : Inode} (h : Frame ino ino') (h' : Frame ino' ino'') : Frame ino ino'' :=
  ⟨h'.type.trans h.type, h'.size.trans h.size, h'.numlinks.trans h.numlinks⟩

/-- `chmod` changes the mode only. -/
lemma frame_chmod {ino' : Inode} (h : chmod info cred ans attrs ino = .ok ino') : Frame ino ino' := by
  unfold chmod at h
  cases hmode : attrs.mode with
  | none =>
    simp only [hmode] at h
    rw [← Except.ok.inj h]
    exact Frame.refl
  | some mode =>
    simp only [hmode] at h
    split_ifs at h
    · rw [← Except.ok.inj h]
      exact Frame.refl
    · cases hans : ans.chmod with
      | some e => simp [hans] at h
      | none =>
        simp only [hans] at h
        rw [← Except.ok.inj h]
        exact ⟨rfl, rfl, rfl⟩

/-- `lchown` changes the owner and the group only. -/
lemma frame_chown {ino' : Inode} (h : chown cred ans attrs stat ino = .ok ino') : Frame ino ino' := by
  unfold chown at h
  split_ifs at h
  · cases hans : ans.lchown with
    | some e => simp [hans] at h
    | none =>
      simp only [hans] at h
      rw [← Except.ok.inj h]
      exact ⟨rfl, rfl, rfl⟩
  · rw [← Except.ok.inj h]
    exact Frame.refl

/-- `utime` changes the times only. -/
lemma frame_utime {ino' : Inode} (h : utime cred ans attrs stat ino = .ok ino') : Frame ino ino' := by
  unfold utime at h
  split_ifs at h
  · rw [← Except.ok.inj h]
    exact Frame.refl
  all_goals
    split at h
    · exact absurd h (by simp)
    · exact absurd h (by simp)
    · exact absurd h (by simp)
    · rw [← Except.ok.inj h]
      exact ⟨rfl, rfl, rfl⟩

/-- What `FSAL_setattrs` does to an inode, and its error. -/
def outcome (info : FsInfo) (cred : Credential) (ans : SetattrsAnswer) (attrs : AttrSet) (stat : Inode) :
    Inode × Option FsalError :=
  match posixSetattrs info cred ans attrs stat stat.attributes with
  | (ino, .error e) => (ino, some e)
  | (ino, .ok _) => (ino, none)

/-- The answer is the error, or what `FSAL_getattrs` says afterwards. -/
lemma posixSetattrs_eq :
    posixSetattrs info cred ans attrs stat out =
      ((outcome info cred ans attrs stat).1,
        match (outcome info cred ans attrs stat).2 with
        | some e => .error e
        | none => .ok (fillAttributes (outcome info cred ans attrs stat).1 out ans.getattrs)) := by
  unfold outcome posixSetattrs
  split_ifs
  · rfl
  cases ans.path with
  | some e => rfl
  | none =>
    cases hchmod : chmod info cred ans attrs stat with
    | error e => rfl
    | ok ino₁ =>
      cases hchown : chown cred ans attrs stat ino₁ with
      | error e => simp only [hchown]
      | ok ino₂ =>
        cases hutime : utime cred ans attrs stat ino₂ with
        | error e => simp only [hchown, hutime]
        | ok ino₃ => simp only [hchown, hutime]

/-- No call of these changes the size, the links or the type. -/
lemma frame_outcome : Frame stat (outcome info cred ans attrs stat).1 := by
  unfold outcome posixSetattrs
  split_ifs
  · exact Frame.refl
  cases ans.path with
  | some e => exact Frame.refl
  | none =>
    cases hchmod : chmod info cred ans attrs stat with
    | error e => exact Frame.refl
    | ok ino₁ =>
      have hframe₁ := frame_chmod hchmod
      cases hchown : chown cred ans attrs stat ino₁ with
      | error e => simpa only [hchown] using hframe₁
      | ok ino₂ =>
        have hframe₂ := hframe₁.trans (frame_chown hchown)
        cases hutime : utime cred ans attrs stat ino₂ with
        | error e => simpa only [hchown, hutime] using hframe₂
        | ok ino₃ => simpa only [hchown, hutime] using hframe₂.trans (frame_utime hutime)

/-- A truncation sets the size if it is possible. -/
lemma posixTruncate_eq {length : UInt64} :
    posixTruncate trunc length ino out =
      if trunc.Truncates ino then
        let ino' := { ino with size := length, mtime := trunc.now, ctime := trunc.now }
        (ino', .ok (fillAttributes ino' out trunc.getattrs))
      else
        (ino, .error (trunc.path.getD (if ino.type = .regularFile then trunc.truncate.getD .inval
          else .inval))) := by
  unfold posixTruncate TruncateAnswer.Truncates
  rcases Option.eq_none_or_eq_some trunc.path with hpath | ⟨e, hpath⟩
  · by_cases htype : ino.type = .regularFile
    · rcases Option.eq_none_or_eq_some trunc.truncate with htrunc | ⟨e, htrunc⟩
      · simp [hpath, htype, htrunc]
      · simp [hpath, htype, htrunc]
    · simp [hpath, htype]
  · simp [hpath]

/-! ## Complete operations -/

/-- The operation leaves no change of the FSAL behind:

- a SETATTR that fails has changed nothing, one that gives a size gives the size that the file has, and
  the attributes can be read after a change
- the attributes can be read after a truncation and after a link
- after a link and after an unlink the database does not fail -/
def Complete (s : ℕ → Object) : Op → Prop
  | .setattr i info cred attrs ans trunc =>
    let ino := (s i).inode
    let out := outcome info cred ans attrs ino
    (out.2 ≠ none → Unchanged ino out.1) ∧
    (out.2 = none → (ans.getattrs ∨ Unchanged ino out.1) ∧
      ∀ length ∈ attrs.filesize, if trunc.Truncates ino then length = ino.size else Unchanged ino out.1)
  | .truncate i _ ans => ans.Truncates (s i).inode → ans.getattrs
  | .link i info refused ans _ _ => refused = none → info.linkSupport → ans.link = none →
      (s i).inode.type ≠ .dirBeginning → (s i).inode.type ≠ .dirContinue →
        ans.database = none ∧ ans.lstat
  | .remove _ refused ans => refused = none → ans.unlink = none → ans.after = none

instance (s : ℕ → Object) : DecidablePred (Complete s)
  | .setattr i info cred attrs ans trunc =>
    let out := outcome info cred ans attrs (s i).inode
    haveI : Decidable (∀ length ∈ attrs.filesize, if trunc.Truncates (s i).inode
        then length = (s i).inode.size else Unchanged (s i).inode out.1) := Option.decidableForallMem _
    inferInstanceAs (Decidable ((_ → _) ∧ (_ → _ ∧ _)))
  | .truncate _ _ _ => inferInstanceAs (Decidable (_ → _))
  | .link _ _ _ _ _ _ => inferInstanceAs (Decidable (_ → _ → _ → _ → _ → _))
  | .remove _ _ _ => inferInstanceAs (Decidable (_ → _ → _))

/-- The invariant: what is cached agrees with the inode, and is asked for in full the next time. -/
def Inv (o : Object) : Prop := ∀ a ∈ o.cached, a.askedAttributes = .attrmask ∧ Agrees a o.inode

lemma Inv.of_agrees (hmask : cached.askedAttributes = .attrmask) (h : Agrees cached ino) :
    Inv ⟨ino, some cached⟩ := by
  intro a ha
  rw [← Option.some.inj ha]
  exact ⟨hmask, h⟩

lemma Inv.of_killed : Inv ⟨ino, none⟩ := fun _ ha => absurd ha (by simp)

lemma Inv.fail {e : FsalError} (hmask : cached.askedAttributes = .attrmask) (h : Agrees cached ino) :
    Inv (.fail ino cached e) := by
  unfold Object.fail
  split_ifs
  · exact Inv.of_killed
  · exact Inv.of_agrees hmask h

lemma fillAttributes_of_ok (hmask : out.askedAttributes = .attrmask) :
    fillAttributes ino out true = ino.attributes := by
  simp [fillAttributes, hmask]

/-- The attributes that are taken over agree with the inode they were read from, if the size was not
changed. -/
lemma Inv.merge {ino' : Inode} (hmask : cached.askedAttributes = .attrmask) (h : Agrees cached ino)
    (hframe : Frame ino ino') {ok : Bool} (hok : ok ∨ Unchanged ino ino') (type : FileType) :
    (mergeAttributes type cached (fillAttributes ino' cached ok)).askedAttributes = .attrmask ∧
      Agrees (mergeAttributes type cached (fillAttributes ino' cached ok)) ino' := by
  cases ok with
  | false =>
    have hsame : mergeAttributes type cached (fillAttributes ino' cached false) = cached := by
      simp [mergeAttributes, fillAttributes]
    rw [hsame]
    exact ⟨hmask, h.unchanged (hok.resolve_left (by simp))⟩
  | true =>
    rw [fillAttributes_of_ok hmask]
    refine ⟨hmask, ?_, rfl, rfl, rfl, ?_⟩
    · show (if type = .regularFile then ino'.size else cached.filesize) = ino'.size
      split_ifs
      · rfl
      · rw [h.filesize, hframe.size]
    · show cached.numlinks = ino'.numlinks
      rw [h.numlinks, hframe.numlinks]

/-- The cached attributes agree after a SETATTR whose steps all succeed. -/
lemma Inv.setattr (hmask : cached.askedAttributes = .attrmask) (h : Agrees cached ino)
    (hfail : (outcome info cred ans attrs ino).2 ≠ none → Unchanged ino (outcome info cred ans attrs ino).1)
    (hok : (outcome info cred ans attrs ino).2 = none →
      (ans.getattrs ∨ Unchanged ino (outcome info cred ans attrs ino).1) ∧
      ∀ length ∈ attrs.filesize, if trunc.Truncates ino then length = ino.size
        else Unchanged ino (outcome info cred ans attrs ino).1) :
    Inv (cacheInodeSetattr info cred attrs ans trunc ino cached).1 := by
  have hframe : Frame ino (outcome info cred ans attrs ino).1 := frame_outcome
  unfold cacheInodeSetattr
  rw [posixSetattrs_eq]
  generalize outcome info cred ans attrs ino = r at hframe hfail hok
  obtain ⟨ino', err⟩ := r
  cases err with
  | some e => exact Inv.fail hmask (h.unchanged (hfail (by simp)))
  | none =>
    obtain ⟨hread, hsize⟩ := hok rfl
    obtain ⟨hmask', hagrees⟩ := Inv.merge hmask h hframe hread ino'.type
    cases hlength : attrs.filesize with
    | none => exact Inv.of_agrees hmask' hagrees
    | some length =>
      have htruncates : trunc.Truncates ino' ↔ trunc.Truncates ino := by
        unfold TruncateAnswer.Truncates
        rw [hframe.type]
      have hsize := hsize length hlength
      simp only [posixTruncate_eq, htruncates]
      by_cases htrunc : trunc.Truncates ino
      · rw [if_pos htrunc] at hsize ⊢
        refine Inv.of_agrees hmask' ⟨?_, hagrees.mode, hagrees.owner, hagrees.group, hagrees.numlinks⟩
        exact hagrees.filesize.trans (hframe.size.trans hsize.symm)
      · rw [if_neg htrunc] at hsize ⊢
        exact Inv.fail hmask (h.unchanged hsize)

/-- So they do after a truncation. -/
lemma Inv.truncate {length : UInt64} (hmask : cached.askedAttributes = .attrmask) (h : Agrees cached ino)
    (hok : trunc.Truncates ino → trunc.getattrs) : Inv (cacheInodeTruncate length trunc ino cached).1 := by
  unfold cacheInodeTruncate
  split_ifs
  · exact Inv.of_agrees hmask h
  have hsame : ({ cached with askedAttributes := .attrmask } : Attributes) = cached := by rw [← hmask]
  simp only [hsame, posixTruncate_eq]
  by_cases htrunc : trunc.Truncates ino
  · rw [if_pos htrunc]
    simp only [hok htrunc, fillAttributes_of_ok hmask]
    exact Inv.of_agrees rfl agrees_attributes
  · rw [if_neg htrunc]
    exact Inv.fail hmask h

/-- So they do after a link. -/
lemma Inv.link {ans : LinkAnswer} {refused : Option Status} {sourceGone : Bool} {dirent : Status}
    (hmask : cached.askedAttributes = .attrmask) (h : Agrees cached ino)
    (hok : refused = none → info.linkSupport → ans.link = none → ino.type ≠ .dirBeginning →
      ino.type ≠ .dirContinue → ans.database = none ∧ ans.lstat) :
    Inv (cacheInodeLink info refused ans sourceGone dirent ino cached).1 := by
  unfold cacheInodeLink
  cases refused with
  | some status => exact Inv.of_agrees hmask h
  | none =>
    simp only
    split_ifs with hdir
    · exact Inv.of_agrees hmask h
    unfold posixLink
    split_ifs with hsupport
    · cases hlink : ans.link with
      | some e =>
        simp only
        split_ifs
        · exact Inv.of_killed
        · exact Inv.of_agrees hmask h
      | none =>
        obtain ⟨hbegin, hcont⟩ := not_or.mp hdir
        obtain ⟨hdatabase, hlstat⟩ := hok rfl hsupport hlink hbegin hcont
        simp only [hdatabase, hlstat]
        rw [fillAttributes_of_ok rfl]
        exact Inv.of_agrees rfl agrees_attributes
    · simp only [reduceCtorEq, false_and, if_false]
      exact Inv.of_agrees hmask h

/-- So they do after a removal. -/
lemma Inv.remove {ans : UnlinkAnswer} {refused : Option Status}
    (hmask : cached.askedAttributes = .attrmask) (h : Agrees cached ino)
    (hok : refused = none → ans.unlink = none → ans.after = none) :
    Inv (cacheInodeRemove refused ans ino cached).1 := by
  unfold cacheInodeRemove posixUnlink
  cases refused with
  | some status => exact Inv.of_agrees hmask h
  | none =>
    cases hunlink : ans.unlink with
    | some e => exact Inv.of_agrees hmask h
    | none =>
      simp only [hok rfl hunlink]
      split_ifs
      · refine Inv.of_agrees hmask ⟨h.filesize, h.mode, h.owner, h.group, ?_⟩
        show cached.numlinks - 1 = ino.numlinks - 1
        rw [h.numlinks]
      · exact Inv.of_killed

/-- One object changes. -/
lemma Inv.onObject {i : ℕ} {f : Inode → Attributes → Object × Status} (h : ∀ j, Inv (s j))
    (hf : ∀ cached : Attributes, cached.askedAttributes = .attrmask → Agrees cached (s i).inode →
      Inv (f (s i).inode cached).1)
    (hs : onObject s i f = some s') : ∀ j, Inv (s' j) := by
  obtain ⟨cached, hcached, rfl⟩ := Option.map_eq_some_iff.mp hs
  intro j
  by_cases hj : j = i
  · rw [hj, Function.update_self]
    obtain ⟨hmask, hagrees⟩ := h i cached hcached
    exact hf cached hmask hagrees
  · rw [Function.update_of_ne hj]
    exact h j

/-- So they do after every complete operation. -/
lemma Inv.step {op : Op} (h : ∀ j, Inv (s j)) (hcomplete : Complete s op) (hs : step s op = some s') :
    ∀ j, Inv (s' j) := by
  cases op with
  | setattr i info cred attrs ans trunc =>
    exact Inv.onObject h (fun _ hmask hagrees => Inv.setattr hmask hagrees hcomplete.1 hcomplete.2) hs
  | truncate i length ans =>
    exact Inv.onObject h (fun _ hmask hagrees => Inv.truncate hmask hagrees hcomplete) hs
  | link i info refused ans sourceGone dirent =>
    exact Inv.onObject h (fun _ hmask hagrees => Inv.link hmask hagrees hcomplete) hs
  | remove i refused ans =>
    simp only [Setattr.step] at hs
    split_ifs at hs
    exact Inv.onObject h (fun _ hmask hagrees => Inv.remove hmask hagrees hcomplete) hs

/-- After every sequence of operations that leave no change of the FSAL behind, the attributes in the
cache are those of the FSAL. -/
theorem coherent_of_complete {inodes : ℕ → Inode} {s : ℕ → Object}
    (h : ReachableBy step Complete (initial inodes) s) (i : ℕ) : Coherent (s i) := by
  have hinv : ∀ j, Inv (s j) := by
    refine h.invariant (I := fun s : ℕ → Object => ∀ j, Inv (s j)) (fun j => ?_) fun _ _ _ h hc hs => Inv.step h hc hs
    exact Inv.of_agrees rfl agrees_attributes
  exact fun a ha => (hinv i a ha).2

/-- A file of 100 bytes. -/
def sampleInode : Inode where
  type := .regularFile
  size := 100
  mode := 0o644
  owner := 1
  group := 1
  numlinks := 1
  atime := ⟨0, 0⟩
  mtime := ⟨0, 0⟩
  ctime := ⟨0, 0⟩

/-- A system in which everything works. -/
def sampleInfo : FsInfo where
  cansettime := true
  umask := 0
  linkSupport := true

def sampleSetattrs : SetattrsAnswer := ⟨none, none, none, none, none, none, true, ⟨1, 0⟩⟩

def sampleTruncate : TruncateAnswer := ⟨none, none, true, ⟨1, 0⟩⟩

/-- The mode is set, the file is truncated, gets a second link and loses it. -/
def sampleOps : List Op :=
  [.setattr 0 sampleInfo ⟨0, 0, []⟩ ⟨none, some 0o600, none, some 7, none, none, none, none⟩ sampleSetattrs
      sampleTruncate,
    .truncate 0 10 sampleTruncate,
    .link 0 sampleInfo none ⟨none, none, true, sampleInode.attributes, ⟨2, 0⟩⟩ false .success,
    .remove 0 none ⟨none, none, ⟨3, 0⟩⟩]

theorem coherent_after_sampleOps :
    (execute step (initial fun _ => sampleInode) sampleOps).any (fun s =>
      (s 0).inode.size = 10 && (s 0).inode.mode = 0o600 && (s 0).cached.isSome) = true ∧
    ∀ s, execute step (initial fun _ => sampleInode) sampleOps = some s → Coherent (s 0) := by
  refine ⟨by decide +kernel, fun s hs => ?_⟩
  have hmeets : Meets step Complete (initial fun _ => sampleInode) sampleOps := by decide +kernel
  exact coherent_of_complete (reachableBy_of_execute hs hmeets) 0

/-- After a SETATTR of the size to 0 the cache has the old size. -/
theorem not_coherent_after_setattr_size :
    ¬ ∀ (inodes : ℕ → Inode) (s : ℕ → Object), Reachable step (initial inodes) s → ∀ i, Coherent (s i) := by
  have hrun : ∃ s, execute step (initial fun _ => sampleInode)
      [.setattr 0 sampleInfo ⟨0, 0, []⟩ ⟨some 0, none, none, none, none, none, none, none⟩ sampleSetattrs
        sampleTruncate] = some s ∧ ¬ Coherent (s 0) :=
    ⟨_, rfl, by decide +kernel⟩
  obtain ⟨s, hs, hnot⟩ := hrun
  intro h
  exact hnot (h _ s (reachable_of_execute hs) 0)

end Ganesha.CacheInode.Setattr
