import Ganesha.CacheInode.LockSteps
import Ganesha.Library.Transition

/-!
# Expiration of cached data

`cache_inode_renew_entry` of `Cache_inode/cache_inode_renew_entry.c`, for calls of the FSAL that
succeed. Attributes, the content of a link and the dirents of a directory have a grace period each,
and one `refresh_time` for all of them.
-/

namespace Ganesha.CacheInode.Expiration
open Library.Transition

/-- What is read of `cache_inode_client_t`. -/
structure Periods where
  attrmask : UInt64
  gracePeriodAttr : ℤ
  gracePeriodLink : ℤ
  gracePeriodDirent : ℤ
  getattrDirInvalidation : UInt32

/-- `CACHE_INODE_YES`, `CACHE_INODE_NO` and `CACHE_INODE_RENEW_NEEDED`. -/
inductive Flag
  | yes
  | no
  | renewNeeded
  deriving DecidableEq

/-- An entry. The times `attrTime`, `linkTime` and `direntTime` are not in the source: they say when
the attributes, the link and the dirents in the entry were asked from the FSAL. -/
structure Entry where
  type : FileType
  pentryContent : Bool
  attributes : Attributes
  content : List UInt8
  hasBeenReaddir : Flag
  refreshTime : ℤ
  attrTime : ℤ
  linkTime : ℤ
  direntTime : ℤ

/-- What the FSAL has for the handle of the entry. -/
structure Fsal where
  attributes : Attributes
  content : List UInt8

def fsalAttrMtime : UInt64 := 0x8000

variable (client : Periods) (fsal : Fsal) (now : ℤ)

/-- The attributes are asked from the FSAL and kept. -/
def Entry.getattrs (e : Entry) : Entry :=
  { e with attributes := fsal.attributes, attrTime := now, refreshTime := now }

/-- A grace period that is not 0 is over. -/
def Over (period entryTime : ℤ) : Prop := period ≠ 0 ∧ now - entryTime > period

instance (period entryTime : ℤ) : Decidable (Over now period entryTime) :=
  inferInstanceAs (Decidable (_ ∧ _))

/-- The dirents of a directory that was populated have to be renewed. -/
def Entry.invalidate (e : Entry) : Entry :=
  { e.getattrs fsal now with hasBeenReaddir := .renewNeeded }

/-- The attributes are asked to see whether the directory was changed. -/
def MtimeChecked (e : Entry) : Prop :=
  client.getattrDirInvalidation ≠ 0 ∧ e.type = .dirBeginning ∧
    client.attrmask &&& fsalAttrMtime ≠ 0 ∧ e.hasBeenReaddir = .yes

instance (e : Entry) : Decidable (MtimeChecked client e) := inferInstanceAs (Decidable (_ ∧ _))

/-- The comparison of the time of the FSAL and the cached one. -/
def checkMtime (e : Entry) : Entry :=
  if MtimeChecked client e ∧ e.attributes.mtime.seconds < fsal.attributes.mtime.seconds then
    e.invalidate fsal now
  else e

/-- The expiration of dirents and attributes. -/
def expireAttributes (entryTime : ℤ) (e : Entry) : Entry :=
  if e.type = .dirBeginning ∧ e.hasBeenReaddir = .yes ∧
      Over now client.gracePeriodDirent entryTime then
    e.invalidate fsal now
  else if e.type = .dirBeginning ∧ e.hasBeenReaddir ≠ .yes ∧
      Over now client.gracePeriodAttr entryTime then
    e.getattrs fsal now
  else if e.type ≠ .dirContinue ∧ e.type ≠ .dirBeginning ∧
      Over now client.gracePeriodAttr entryTime then
    e.getattrs fsal now
  else e

/-- The expiration of the content of a link. The attributes that come with it are not kept. -/
def expireLink (entryTime : ℤ) (e : Entry) : Entry :=
  if e.type = .symbolicLink ∧ Over now client.gracePeriodLink entryTime then
    { e with content := fsal.content, linkTime := now, refreshTime := now }
  else e

/-- `cache_inode_renew_entry`. -/
def renewEntry (e : Entry) : Entry :=
  if e.type = .regularFile ∧ e.pentryContent then e
  else
    expireLink client fsal now e.refreshTime
      (expireAttributes client fsal now e.refreshTime (checkMtime client fsal now e))

/-- `cache_inode_new_entry`. -/
def newEntry (type : FileType) : Entry where
  type := type
  pentryContent := false
  attributes := fsal.attributes
  content := fsal.content
  hasBeenReaddir := .no
  refreshTime := now
  attrTime := now
  linkTime := now
  direntTime := now

/-- The entry and the time. -/
structure State where
  entry : Entry
  time : ℤ

/-- What happens to an entry; `populate` is a success of `cache_inode_readdir_populate`. Between the
calls the FSAL may change in any way. -/
inductive Event
  | renew (now : ℤ) (fsal : Fsal)
  | populate (now : ℤ)

/-- One event; the time does not go back. -/
def step (s : State) : Event → Option State
  | .renew now fsal => if s.time ≤ now then some ⟨renewEntry client fsal now s.entry, now⟩ else none
  | .populate now =>
    if s.time ≤ now ∧ s.entry.type = .dirBeginning ∧ s.entry.hasBeenReaddir ≠ .yes then
      some ⟨{ s.entry with hasBeenReaddir := .yes, direntTime := now }, now⟩
    else none

/-- What is fetched at `time` is not older than the period, if this is not 0. -/
def Recent (period time : ℤ) : Prop := period ≠ 0 → now - period ≤ time

/-- The directory is taken as populated. -/
def Entry.Populated (e : Entry) : Prop := e.type = .dirBeginning ∧ e.hasBeenReaddir = .yes

instance (e : Entry) : Decidable e.Populated := inferInstanceAs (Decidable (_ ∧ _))

/-- Nothing in the entry is older than its period, and the dirents are not older than the last change
of the directory. An extent has no attributes. -/
structure Current (e : Entry) : Prop where
  attr : e.type ≠ .dirContinue → Recent now
    (if e.Populated then client.gracePeriodDirent else client.gracePeriodAttr) e.attrTime
  link : e.type = .symbolicLink → Recent now client.gracePeriodLink e.linkTime
  dirent : e.Populated → Recent now client.gracePeriodDirent e.direntTime
  mtime : e.Populated → client.getattrDirInvalidation ≠ 0 →
    e.attributes.mtime = fsal.attributes.mtime

/-- A call that renews what has to be renewed: the two kinds of data of a link expire together, and a
change of a directory is seen. -/
structure Sound (e : Entry) : Prop where
  attr_nonneg : 0 ≤ client.gracePeriodAttr
  link_nonneg : 0 ≤ client.gracePeriodLink
  dirent_nonneg : 0 ≤ client.gracePeriodDirent
  link : e.type = .symbolicLink → client.gracePeriodAttr ≠ 0 → client.gracePeriodLink ≠ 0 →
    (Over now client.gracePeriodAttr e.refreshTime ↔ Over now client.gracePeriodLink e.refreshTime)
  mtime : e.Populated → client.getattrDirInvalidation ≠ 0 →
    Over now client.gracePeriodDirent e.refreshTime ∨
      client.attrmask &&& fsalAttrMtime ≠ 0 ∧
        e.attributes.mtime.seconds < fsal.attributes.mtime.seconds ∨
      e.attributes.mtime = fsal.attributes.mtime

/-- The calls of a run are sound. -/
def SoundStep (s : State) : Event → Prop
  | .renew now fsal => Sound client fsal now s.entry
  | .populate _ => True

/-- What was fetched is not older than `refresh_time`. -/
structure Inv (s : State) : Prop where
  notCached : s.entry.pentryContent = false
  refresh : s.entry.refreshTime ≤ s.time
  attr : (s.entry.type = .symbolicLink → client.gracePeriodAttr ≠ 0) →
    s.entry.refreshTime ≤ s.entry.attrTime
  link : s.entry.type = .symbolicLink → client.gracePeriodLink ≠ 0 →
    s.entry.refreshTime ≤ s.entry.linkTime
  dirent : s.entry.Populated → s.entry.refreshTime ≤ s.entry.direntTime

variable {client : Periods} {fsal : Fsal} {now : ℤ} {e : Entry} {s s' : State}

/-- Before its time is over an entry is recent. -/
lemma recent_of_not_over {period entryTime time : ℤ} (h : ¬ Over now period entryTime)
    (htime : period ≠ 0 → entryTime ≤ time) : Recent now period time := by
  intro hperiod
  have hle : now - entryTime ≤ period := by
    by_contra hlt
    exact h ⟨hperiod, by omega⟩
  have hentry := htime hperiod
  omega

lemma recent_now {period : ℤ} (h : 0 ≤ period) : Recent now period now := by
  intro _
  omega

/-! ## One call -/

/-- A populated directory is renewed when its dirents are too old or its time has changed. -/
lemma renewEntry_populated (h : e.Populated) :
    renewEntry client fsal now e =
      if Over now client.gracePeriodDirent e.refreshTime ∨ MtimeChecked client e ∧
          e.attributes.mtime.seconds < fsal.attributes.mtime.seconds then e.invalidate fsal now
      else e := by
  obtain ⟨htype, hyes⟩ := h
  by_cases hmtime : MtimeChecked client e ∧
      e.attributes.mtime.seconds < fsal.attributes.mtime.seconds
  · rw [if_pos (Or.inr hmtime)]
    simp [renewEntry, checkMtime, hmtime, expireAttributes, expireLink, Entry.invalidate,
      Entry.getattrs, htype]
  · by_cases hover : Over now client.gracePeriodDirent e.refreshTime
    · rw [if_pos (Or.inl hover)]
      simp [renewEntry, checkMtime, hmtime, expireAttributes, expireLink, Entry.invalidate,
        Entry.getattrs, htype, hyes, hover]
    · simp [renewEntry, checkMtime, hmtime, expireAttributes, expireLink, htype, hyes, hover]

/-- Neither a full directory nor cached data. -/
lemma renewEntry_other (h : ¬ e.Populated) (hcont : e.type ≠ .dirContinue)
    (hdata : e.pentryContent = false) :
    renewEntry client fsal now e =
      expireLink client fsal now e.refreshTime
        (if Over now client.gracePeriodAttr e.refreshTime then e.getattrs fsal now else e) := by
  have hno : e.type = .dirBeginning → e.hasBeenReaddir ≠ .yes := fun htype hyes => h ⟨htype, hyes⟩
  have hcheck : checkMtime client fsal now e = e := by
    unfold checkMtime
    exact if_neg fun hc => hno hc.1.2.1 hc.1.2.2.2
  by_cases htype : e.type = .dirBeginning
  · simp [renewEntry, hcheck, expireAttributes, htype, hno htype]
  · simp [renewEntry, hcheck, expireAttributes, htype, hcont, hdata]

lemma renewEntry_extent (h : e.type = .dirContinue) : renewEntry client fsal now e = e := by
  simp [renewEntry, checkMtime, MtimeChecked, expireAttributes, expireLink, h]

/-- Data that need not be renewed are young enough. -/
lemma current_of_kept (hinv : Inv client s) (htime : s.time ≤ now)
    (hattr : s.entry.type ≠ .dirContinue → ¬ Over now (if s.entry.Populated then
      client.gracePeriodDirent else client.gracePeriodAttr) s.entry.refreshTime)
    (hlink : s.entry.type = .symbolicLink →
      ¬ Over now client.gracePeriodLink s.entry.refreshTime)
    (hmtime : s.entry.Populated → client.getattrDirInvalidation ≠ 0 →
      s.entry.attributes.mtime = fsal.attributes.mtime) :
    Inv client ⟨s.entry, now⟩ ∧ Current client fsal now s.entry := by
  have hrefresh : s.entry.refreshTime ≤ now := Int.le_trans hinv.refresh htime
  refine ⟨⟨hinv.notCached, hrefresh, hinv.attr, hinv.link, hinv.dirent⟩, ?_, ?_, ?_, hmtime⟩
  · refine fun hcont => recent_of_not_over (hattr hcont) fun hperiod => hinv.attr fun htype => ?_
    have hfile : ¬ s.entry.Populated := fun h => absurd (htype.symm.trans h.1) (by decide)
    rwa [if_neg hfile] at hperiod
  · exact fun htype => recent_of_not_over (hlink htype) (hinv.link htype)
  · intro hpop
    have hover := hattr fun h => absurd (h.symm.trans hpop.1) (by decide)
    rw [if_pos hpop] at hover
    exact recent_of_not_over hover fun _ => hinv.dirent hpop

/-- Data that were renewed are those of now. -/
lemma current_of_renewed (hdata : e.pentryContent = false) (hpop : ¬ e.Populated)
    (hrefresh : e.refreshTime = now) (hattr_nonneg : 0 ≤ client.gracePeriodAttr)
    (hlink_nonneg : 0 ≤ client.gracePeriodLink)
    (hattr : (e.type = .symbolicLink → client.gracePeriodAttr ≠ 0) → e.attrTime = now)
    (hlink : e.type = .symbolicLink → client.gracePeriodLink ≠ 0 → e.linkTime = now) :
    Inv client ⟨e, now⟩ ∧ Current client fsal now e := by
  refine ⟨⟨hdata, Int.le_of_eq hrefresh, ?_, ?_, fun h => absurd h hpop⟩, ?_, ?_,
    fun h => absurd h hpop, fun h => absurd h hpop⟩
  · intro hperiod
    exact Int.le_of_eq (hrefresh.trans (hattr hperiod).symm)
  · intro htype hperiod
    exact Int.le_of_eq (hrefresh.trans (hlink htype hperiod).symm)
  · rw [if_neg hpop]
    intro _ hperiod
    rw [hattr fun _ => hperiod]
    exact recent_now hattr_nonneg hperiod
  · intro htype hperiod
    rw [hlink htype hperiod]
    exact recent_now hlink_nonneg hperiod

/-- After a call the entry is current, if the times agree. -/
lemma current_renewEntry (hinv : Inv client s) (hsound : Sound client fsal now s.entry)
    (htime : s.time ≤ now) :
    Inv client ⟨renewEntry client fsal now s.entry, now⟩ ∧
      Current client fsal now (renewEntry client fsal now s.entry) := by
  have hrenewed := @current_of_renewed client fsal now
  by_cases hpop : s.entry.Populated
  · have hlink : s.entry.type ≠ .symbolicLink := fun h => absurd (h.symm.trans hpop.1) (by decide)
    rw [renewEntry_populated hpop]
    split_ifs with hrenew
    · -- the attributes are new, and the dirents are not taken as populated any more
      exact hrenewed hinv.notCached (fun h => absurd h.2 (by simp [Entry.invalidate])) rfl
        hsound.attr_nonneg hsound.link_nonneg (fun _ => rfl) (fun h => absurd h hlink)
    · rw [not_or] at hrenew
      refine current_of_kept hinv htime (fun _ => ?_) (fun h => absurd h hlink) fun _ hinval => ?_
      · rw [if_pos hpop]
        exact hrenew.1
      · rcases hsound.mtime hpop hinval with hover | ⟨hmask, hlt⟩ | heq
        · exact absurd hover hrenew.1
        · exact absurd ⟨⟨hinval, hpop.1, hmask, hpop.2⟩, hlt⟩ hrenew.2
        · exact heq
  have hkept (hattr : s.entry.type ≠ .dirContinue →
        ¬ Over now client.gracePeriodAttr s.entry.refreshTime)
      (hlink : s.entry.type = .symbolicLink →
        ¬ Over now client.gracePeriodLink s.entry.refreshTime) :
      Inv client ⟨s.entry, now⟩ ∧ Current client fsal now s.entry := by
    refine current_of_kept hinv htime ?_ hlink fun h => absurd h hpop
    rw [if_neg hpop]
    exact hattr
  by_cases hcont : s.entry.type = .dirContinue
  · rw [renewEntry_extent hcont]
    exact hkept (fun h => absurd hcont h) fun h => absurd (hcont.symm.trans h) (by decide)
  rw [renewEntry_other hpop hcont hinv.notCached]
  unfold expireLink
  by_cases hattr : Over now client.gracePeriodAttr s.entry.refreshTime <;>
    by_cases hlink : s.entry.type = .symbolicLink ∧ Over now client.gracePeriodLink s.entry.refreshTime
  · simp only [hattr, if_true, Entry.getattrs]
    rw [if_pos hlink]
    exact hrenewed hinv.notCached hpop rfl hsound.attr_nonneg hsound.link_nonneg (fun _ => rfl)
      fun _ _ => rfl
  · -- only the attributes expire: the link has no period
    simp only [hattr, if_true, Entry.getattrs]
    rw [if_neg hlink]
    refine hrenewed hinv.notCached hpop rfl hsound.attr_nonneg hsound.link_nonneg (fun _ => rfl)
      fun htype hperiod => ?_
    exact absurd ⟨htype, (hsound.link htype hattr.1 hperiod).mp hattr⟩ hlink
  · -- only the link expires: the attributes have no period
    simp only [hattr, if_false]
    rw [if_pos hlink]
    refine hrenewed hinv.notCached hpop rfl hsound.attr_nonneg hsound.link_nonneg (fun hperiod => ?_)
      fun _ _ => rfl
    exact absurd ((hsound.link hlink.1 (hperiod hlink.1) hlink.2.1).mpr hlink.2) hattr
  · simp only [hattr, if_false]
    rw [if_neg hlink]
    exact hkept (fun _ => hattr) fun htype hover => hlink ⟨htype, hover⟩

/-! ## Runs of calls -/

/-- A step keeps the invariant. -/
lemma Inv.step {ev : Event} (hinv : Inv client s) (hsound : SoundStep client s ev)
    (hstep : step client s ev = some s') : Inv client s' := by
  cases ev with
  | renew now fsal =>
    simp only [Expiration.step, Option.ite_none_right_eq_some, Option.some.injEq] at hstep
    obtain ⟨htime, rfl⟩ := hstep
    exact (current_renewEntry hinv hsound htime).1
  | populate now =>
    simp only [Expiration.step, Option.ite_none_right_eq_some, Option.some.injEq] at hstep
    obtain ⟨⟨htime, htype, -⟩, rfl⟩ := hstep
    have hrefresh : s.entry.refreshTime ≤ now := Int.le_trans hinv.refresh htime
    exact ⟨hinv.notCached, hrefresh, hinv.attr, hinv.link, fun _ => hrefresh⟩

lemma inv_newEntry (client : Periods) (fsal : Fsal) (now : ℤ) (type : FileType) :
    Inv client ⟨newEntry fsal now type, now⟩ where
  notCached := rfl
  refresh := Int.le_refl _
  attr _ := Int.le_refl _
  link _ _ := Int.le_refl _
  dirent _ := Int.le_refl _

/-- In a run whose calls are all sound, what is cached is not too old after each call. -/
theorem current_of_renew (client : Periods) (fsal₀ : Fsal) (t₀ : ℤ) (type : FileType) (s s' : State)
    (h : ReachableBy (step client) (SoundStep client) ⟨newEntry fsal₀ t₀ type, t₀⟩ s)
    (fsal : Fsal) (now : ℤ) (hsound : Sound client fsal now s.entry)
    (hstep : step client s (.renew now fsal) = some s') : Current client fsal now s'.entry := by
  have hinv : Inv client s := h.invariant (inv_newEntry client fsal₀ t₀ type)
    fun _ _ _ hinv hsound hstep => hinv.step hsound hstep
  simp only [step, Option.ite_none_right_eq_some, Option.some.injEq] at hstep
  obtain ⟨htime, rfl⟩ := hstep
  exact (current_renewEntry hinv hsound htime).2

/-- A link and a directory of which the FSAL has this. -/
def sampleFsal : Fsal := ⟨⟨0x8000, 0, 0, ⟨0, 0⟩, ⟨0, 0⟩, ⟨0, 0⟩⟩, []⟩

/-- The periods of a client that does not look at the time of directories. -/
def periods (attr link : ℤ) : Periods := ⟨0x8000, attr, link, 0, 0⟩

/-- Both kinds of data of a link expire after one second. -/
theorem current_of_renew_link :
    Current (periods 1 1) sampleFsal 2
      (renewEntry (periods 1 1) sampleFsal 2 (newEntry sampleFsal 0 .symbolicLink)) := by
  have hsound : Sound (periods 1 1) sampleFsal 2 (newEntry sampleFsal 0 .symbolicLink) :=
    ⟨by decide, by decide, by decide, fun _ _ _ => Iff.rfl, fun h => absurd h.1 (by decide)⟩
  exact current_of_renew (periods 1 1) sampleFsal 0 .symbolicLink
    ⟨newEntry sampleFsal 0 .symbolicLink, 0⟩
    ⟨renewEntry (periods 1 1) sampleFsal 2 (newEntry sampleFsal 0 .symbolicLink), 2⟩ .init sampleFsal 2
    hsound rfl

/-- The link of the time 0 is there at the time 6 when it may be 5 seconds old: at the time 4 the
attributes were asked for, and with them began the period of the link. -/
theorem not_current_link : ¬ ∀ (client : Periods) (fsal₀ : Fsal) (t₀ : ℤ) (type : FileType)
    (s s' : State), Reachable (step client) ⟨newEntry fsal₀ t₀ type, t₀⟩ s →
    ∀ (fsal : Fsal) (now : ℤ), step client s (.renew now fsal) = some s' →
      Current client fsal now s'.entry := by
  intro h
  have hcurrent := h (periods 1 5) sampleFsal 0 .symbolicLink _ _
    (ReachableBy.init.next trivial (show step _ _ (.renew 4 sampleFsal) = _ from rfl)) sampleFsal 6 rfl
  have hlink := hcurrent.link rfl (by decide)
  exact absurd hlink (by decide)

/-! ## A link in steady use -/

/-- The calls come at intervals that are longer than the period of the attributes, and not longer than
that of the link. -/
def Steady (client : Periods) (s : State) : Event → Prop
  | .renew now _ => client.gracePeriodAttr < now - s.time ∧ now - s.time ≤ client.gracePeriodLink
  | .populate _ => True

/-- However long a link is used so, its content is the one that was read first: each call asks for the
attributes, and from then on the period of the link is counted. -/
theorem content_of_steady (client : Periods) (hattr : client.gracePeriodAttr ≠ 0) (fsal₀ : Fsal) (t₀ : ℤ)
    (s : State) (h : ReachableBy (step client) (Steady client)
      ⟨newEntry fsal₀ t₀ .symbolicLink, t₀⟩ s) :
    s.entry.content = fsal₀.content ∧ s.entry.linkTime = t₀ ∧ s.entry.attrTime = s.time := by
  refine (h.invariant (I := fun s => s.entry.type = .symbolicLink ∧ s.entry.pentryContent = false ∧
    s.entry.refreshTime = s.time ∧ s.entry.content = fsal₀.content ∧ s.entry.linkTime = t₀ ∧
    s.entry.attrTime = s.time) ⟨rfl, rfl, rfl, rfl, rfl, rfl⟩ ?_).2.2.2
  intro s ev s' hinv hsteady hstep
  obtain ⟨htype, hdata, hrefresh, hcontent, hlink, -⟩ := hinv
  cases ev with
  | renew now fsal =>
    simp only [Expiration.step, Option.ite_none_right_eq_some, Option.some.injEq] at hstep
    obtain ⟨-, rfl⟩ := hstep
    have hpop : ¬ s.entry.Populated := fun hp => absurd (htype.symm.trans hp.1) (by decide)
    have hover : Over now client.gracePeriodAttr s.entry.refreshTime := ⟨hattr, by
      rw [hrefresh]
      exact hsteady.1⟩
    have hfresh : ¬ (s.entry.type = .symbolicLink ∧
        Over now client.gracePeriodLink s.entry.refreshTime) := fun hl => by
      have hlt := hl.2.2
      have hle := hsteady.2
      omega
    rw [renewEntry_other hpop (by simp [htype]) hdata, if_pos hover, expireLink]
    rw [show (s.entry.getattrs fsal now).type = s.entry.type from rfl, if_neg hfresh]
    exact ⟨htype, hdata, rfl, hcontent, hlink, rfl⟩
  | populate now =>
    simp only [Expiration.step, Option.ite_none_right_eq_some] at hstep
    exact absurd (htype.symm.trans hstep.1.2.1) (by decide)

/-- Two calls after the link was changed. -/
theorem content_of_steady_twice :
    ∃ s, execute (step (periods 1 2)) ⟨newEntry sampleFsal 0 .symbolicLink, 0⟩
        [.renew 2 ⟨sampleFsal.attributes, [1]⟩, .renew 4 ⟨sampleFsal.attributes, [1]⟩] = some s ∧
      s.entry.content = [] ∧ s.entry.linkTime = 0 ∧ s.entry.attrTime = s.time := by
  have hsteady : Meets (step (periods 1 2)) (Steady (periods 1 2))
      ⟨newEntry sampleFsal 0 .symbolicLink, 0⟩
      [.renew 2 ⟨sampleFsal.attributes, [1]⟩, .renew 4 ⟨sampleFsal.attributes, [1]⟩] :=
    ⟨⟨by decide, by decide⟩, ⟨by decide, by decide⟩, trivial⟩
  exact ⟨_, rfl, content_of_steady (periods 1 2) (by decide) sampleFsal 0 _
    (reachableBy_of_execute rfl hsteady)⟩

end Ganesha.CacheInode.Expiration
