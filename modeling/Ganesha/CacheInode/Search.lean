import Ganesha.Library.Transition
import Ganesha.CacheInode.GcTheorems
import Ganesha.CacheInode.Populate

/-!
# Runs of the directory cache

One step is a call of one of the functions that change dirents, or one with which an entry comes into
the cache. A step that has no result is one in which the server reads through `NULL`.
-/

namespace Ganesha.CacheInode.Dirents
open Library.Transition Gc

/-- What happens to the cache. -/
inductive Event
  | newEntry (e : ℕ) (type : FileType)
  | valid (e : ℕ)
  | add (dir : ℕ) (name : Name) (added : ℕ) (env : AddEnv)
  | operate (dir : ℕ) (name : Name) (op : DirentOp)
  | remove (dir : ℕ) (name : Name)
  | invalidateAll (dir : ℕ)
  | populate (dir : ℕ) (env : PopulateEnv)
  | kill (e : ℕ) (env : KillEnv) (conts : ℕ → KillEnv)
  | gc (e : ℕ) (env : GcEnv) (hash : ℕ → ℕ → Bool) (nbToBePurged : UInt32)

/-- The entries that are made for the items were in the pool. -/
def PopulateEnv.fresh (env : PopulateEnv) (c : Cache) : Bool :=
  (allItems env.readdirs).all fun item => match item.newEntry with
    | .ok (e, true) => !(c e).allocated
    | _ => true

/-- The cache after an event. -/
def step (c : Cache) : Event → Option Cache
  | .newEntry e type =>
    if (c e).allocated then none else some (Function.update c e (Entry.new type))
  | .valid e => some (c.modify e fun entry => { entry with validState := true })
  | .add dir name added env => (cacheInodeAddCachedDirent c dir 0 name added env).map fun r => r.2.2
  | .operate dir name op => (cacheInodeOperateCachedDirent c dir name op).map fun r => r.2.2
  | .remove dir name => (cacheInodeRemoveCachedDirent c dir name).map Prod.snd
  | .invalidateAll dir => some (cacheInodeInvalidateAllCachedDirent c dir).2
  | .populate dir env =>
    if (c dir).allocated && env.fresh c then (cacheInodeReaddirPopulate c dir env).map Prod.snd
    else none
  | .kill e env conts => some (cacheInodeKillEntry c e env conts).2
  | .gc e env hash nbToBePurged =>
    some (cacheInodeGcFunction env ⟨c, hash, nbToBePurged⟩ e).2.cache

/-- The cache when the server starts. -/
def emptyCache : Cache := fun _ =>
  { allocated := false
    type := .unassigned
    validState := false
    parentList := []
    nodes := []
    hasBeenReaddir := false
    pdirLast := 0
    nbdircont := 0 }

variable {Q : Bool → Prop} {c c' : Cache} {dir : ℕ} {name : Name} {ev : Event} {env : PopulateEnv}

/-- The step leaves active dirents for entries of which `valid_state` meets `Q` only. -/
def Keeps (Q : Bool → Prop) (c : Cache) : Event → Prop
  | .add _ _ added _ => Q (c added).validState
  | .populate dir env => Given Q dir (fun e => (c e).validState) (allItems env.readdirs)
  | .gc e env hash nbToBePurged => Q false ∨ Collects env ⟨c, hash, nbToBePurged⟩ e
  | _ => True

/-- An entry may become valid again. -/
lemma Directories.valid (h : Directories Q c) (hQ : Q true) (e : ℕ) :
    Directories Q (c.modify e fun entry => { entry with validState := true }) := by
  have hother : ∀ e', (c.modify e fun entry => { entry with validState := true }) e' =
      { c e' with validState := if e' = e then true else (c e').validState } := by
    intro e'
    unfold Cache.modify
    rcases eq_or_ne e' e with rfl | hne
    · rw [Function.update_self, if_pos rfl]
    · rw [Function.update_of_ne hne, if_neg hne]
  intro dir htype
  simp only [hother] at htype ⊢
  refine ⟨(h dir htype).1, fun pos i d hd hactive => ?_⟩
  obtain ⟨e', hpentry, he'⟩ := (h dir htype).2 pos i d hd hactive
  refine ⟨e', hpentry, ?_⟩
  split
  · exact hQ
  · exact he'

/-- The collector keeps the directories well formed. -/
lemma Directories.gc {w : Gc.World} {e : ℕ} {env : GcEnv} (h : Directories Q w.cache)
    (hkeeps : Q false ∨ Collects env w e) :
    Directories Q (cacheInodeGcFunction env w e).2.cache := by
  rcases cacheInodeGcFunction_fades env w e with ⟨hconsidered, hfades⟩ | hsame
  swap
  · rw [hsame]
    exact h
  intro dir htype
  rw [hfades.type, invalid_type] at htype
  have hchained := (h dir htype).1
  have hnodes := hfades.nodes dir
  rw [invalid_nodes] at hnodes
  refine ⟨hnodes.chained hchained, fun pos i d' hd' hactive => ?_⟩
  obtain ⟨d, hd, hactive', hsame⟩ := hnodes.active pos i d' hd' hactive
  obtain ⟨e', hpentry, he'⟩ := (h dir htype).2 pos i d hd hactive'
  refine ⟨e', hsame ▸ hpentry, ?_⟩
  rw [hfades.validState]
  rcases eq_or_ne e' e with rfl | hne
  · rw [invalid_validState]
    refine hkeeps.resolve_right fun hcollects => ?_
    have htype' : ((cacheInodeGcFunction env w e').2.cache dir).type = .dirBeginning := by
      rw [hfades.type, invalid_type]
      exact htype
    exact hcollects.unnamed hconsidered dir htype' pos i d' hd' hactive (hsame ▸ hpentry)
  · unfold invalid Cache.modify
    rw [Function.update_of_ne hne]
    exact he'

/-- So does `cache_inode_readdir_populate`. -/
lemma Directories.populate {r : Status × Cache} (h : Directories Q c) (hQ : Q true)
    (hgiven : Given Q dir (fun e => (c e).validState) (allItems env.readdirs))
    (hr : cacheInodeReaddirPopulate c dir env = some r) : Directories Q r.2 := by
  by_cases htype : (c dir).type = .dirBeginning
  swap
  · unfold cacheInodeReaddirPopulate at hr
    rw [if_pos htype] at hr
    cases hr
    exact h
  cases hread : (c dir).hasBeenReaddir with
  | true =>
    unfold cacheInodeReaddirPopulate at hr
    rw [if_neg (not_not_intro htype), hread, if_pos rfl] at hr
    cases hr
    exact h
  | false =>
    rcases cacheInodeReaddirPopulate_spec hQ h htype hread hgiven with
      ⟨-, hnone⟩ | ⟨-, r', hr', hpopulated⟩
    · rw [hnone] at hr
      cases hr
    · rw [hr'] at hr
      cases hr
      exact hpopulated.directories

/-- One step keeps the directories in order. -/
theorem step_directories (hQ : Q true) (h : Directories Q c) (hkeeps : Keeps Q c ev)
    (hstep : step c ev = some c') : Directories Q c' := by
  cases ev with
  | newEntry e type =>
    rw [step] at hstep
    split at hstep
    · cases hstep
    · cases hstep
      exact h.new hQ e type
  | valid e =>
    cases hstep
    exact h.valid hQ e
  | add dir name added env =>
    obtain ⟨⟨status, next, c₁⟩, hadd, rfl⟩ := Option.map_eq_some_iff.mp hstep
    by_cases htype : (c dir).type = .dirBeginning
    · obtain ⟨status', next', c₂, hadd', hadded, -⟩ :=
        cacheInodeAddCachedDirent_spec htype (h dir htype).1 (h.named htype) (.inl rfl)
          (List.length_pos_of_ne_nil (h dir htype).1.ne) name added env
      rw [hadd'] at hadd
      cases hadd
      exact h.added htype hadded hkeeps
    · unfold cacheInodeAddCachedDirent at hadd
      rw [if_pos htype] at hadd
      cases hadd
      exact h
  | operate dir name op =>
    obtain ⟨⟨found, status, c₁⟩, hop, rfl⟩ := Option.map_eq_some_iff.mp hstep
    exact h.fades (cacheInodeOperateCachedDirent_fades hop)
  | remove dir name =>
    obtain ⟨⟨status, c₁⟩, hremove, rfl⟩ := Option.map_eq_some_iff.mp hstep
    exact h.fades (cacheInodeRemoveCachedDirent_fades hremove)
  | invalidateAll dir =>
    cases hstep
    exact h.invalidateAll dir
  | populate dir env =>
    rw [step] at hstep
    split at hstep
    · obtain ⟨r, hr, rfl⟩ := Option.map_eq_some_iff.mp hstep
      exact h.populate hQ hkeeps hr
    · cases hstep
  | kill e env conts =>
    cases hstep
    exact h.fades (cacheInodeKillEntry_fades c e env conts)
  | gc e env hash nbToBePurged =>
    cases hstep
    exact Directories.gc (w := ⟨c, hash, nbToBePurged⟩) h hkeeps

lemma directories_emptyCache : Directories Q emptyCache := by
  intro dir htype
  cases htype

/-! ## Populating a directory -/

/-- New entries are none of the directory's. -/
lemma given_of_fresh {items : List Item} {v : ℕ → Bool}
    (h : ∀ item ∈ items, ∀ e, item.newEntry = .ok (e, true) → e ≠ dir) :
    Given (fun _ => True) dir v items := by
  induction items generalizing v with
  | nil => trivial
  | cons item items ih =>
    rw [Given]
    split
    · exact ih fun item' hitem' => h item' (List.mem_cons_of_mem item hitem')
    · refine ⟨h item List.mem_cons_self, fun _ _ => trivial, ?_⟩
      exact ih fun item' hitem' => h item' (List.mem_cons_of_mem item hitem')

lemma PopulateEnv.fresh_ne (hfresh : env.fresh c = true) (hlive : (c dir).allocated = true) :
    ∀ item ∈ allItems env.readdirs, ∀ e, item.newEntry = .ok (e, true) → e ≠ dir := by
  intro item hitem e hentry
  rintro rfl
  have hitem' := List.all_eq_true.mp hfresh item hitem
  rw [hentry] at hitem'
  simp only [hlive, Bool.not_true, Bool.false_eq_true] at hitem'

/-- They are well formed in every run. -/
lemma directories_of_reachable (h : Reachable step emptyCache c) : Directories (fun _ => True) c := by
  refine h.invariant (I := Directories fun _ => True) directories_emptyCache ?_
  intro c ev c' hc _ hstep
  refine step_directories trivial hc ?_ hstep
  cases ev with
  | add => trivial
  | populate dir env =>
    rw [step] at hstep
    split at hstep
    · rename_i hguard
      rw [Bool.and_eq_true] at hguard
      exact given_of_fresh (env.fresh_ne hguard.2 hguard.1)
    · cases hstep
  | gc => exact .inl trivial
  | _ => trivial

/-- What populating a directory is to do: the call returns, and if it succeeds, then each name that is
listed, but `.` and `..`, is in one active slot and the directory is marked as populated, which it is
not if the call fails. -/
def PopulatesAll (c : Cache) (dir : ℕ) (env : PopulateEnv) : Prop :=
  ∃ r, cacheInodeReaddirPopulate c dir env = some r ∧
    (r.1 = .success → (r.2 dir).hasBeenReaddir = true ∧
      ∀ item ∈ allItems env.readdirs, item.special = false →
        ∃! p, Holds (r.2 dir).nodes p item.name) ∧
    (r.1 ≠ .success → (r.2 dir).hasBeenReaddir = false)

/-- In every cache that has been reached, populating a directory that is not populated does what it is
to do, whatever `FSAL_readdir` lists, unless the first name that is cached comes in a later call than
the first one. -/
theorem populatesAll_iff (h : Reachable step emptyCache c) (htype : (c dir).type = .dirBeginning)
    (hlive : (c dir).allocated = true) (hread : (c dir).hasBeenReaddir = false)
    (hfresh : env.fresh c = true) (hnames : ((allItems env.readdirs).map Item.name).Nodup) :
    PopulatesAll c dir env ↔ ¬ env.LateStart := by
  have hdirs := directories_of_reachable h
  have hgiven := given_of_fresh (v := fun e => (c e).validState) (env.fresh_ne hfresh hlive)
  rcases cacheInodeReaddirPopulate_spec trivial hdirs htype hread hgiven with
    ⟨hlate, hnone⟩ | ⟨hlate, r, hr, hpopulated⟩
  · constructor
    · intro ⟨r, hr, _⟩
      rw [hnone] at hr
      cases hr
    · exact fun hnot => absurd hlate hnot
  · refine ⟨fun _ => hlate, fun _ => ⟨r, hr, fun hsuccess => ⟨hpopulated.flag hsuccess, ?_⟩,
      hpopulated.failure⟩⟩
    intro item hitem hregular
    have hsub : (regularNames (allItems env.readdirs)).Sublist
        ((allItems env.readdirs).map Item.name) :=
      List.filter_sublist.map Item.name
    have hheld := (hpopulated.puts hsuccess).held (hnames.sublist hsub)
      fun name _ p => not_holds_invalidateNodes _ p name
    refine hheld.1 item.name ?_
    refine List.mem_map.mpr ⟨item, List.mem_filter.mpr ⟨hitem, ?_⟩, rfl⟩
    rw [hregular]
    rfl

/-- A directory is listed in calls that all succeed; its files are new. -/
def plainPopulate (first : List Item) (rest : List (List Item)) : PopulateEnv where
  opendir := none
  readdirs := .ok first :: rest.map .ok
  readdirs_ne := List.cons_ne_nil _ _
  closedir := none
  kill := ⟨true, true, true⟩
  killConts _ := ⟨true, true, true⟩

/-- A file of a directory. -/
def plainItem (name : Name) (e : ℕ) : Item where
  name := name
  type := .regularFile
  readlink := none
  newEntry := .ok (e, true)
  add := ⟨none, true, true⟩

/-- The first call lists `.`, `..` and a file, the second one another file. -/
theorem populatesAll_of_specials_along :
    ∃ c, execute step emptyCache [.newEntry 0 .dirBeginning] = some c ∧
      (PopulatesAll c 0 (plainPopulate [plainItem dot 1, plainItem dotDot 1, plainItem [97] 1]
        [[plainItem [98] 2]]) ↔
      ¬ (plainPopulate [plainItem dot 1, plainItem dotDot 1, plainItem [97] 1]
        [[plainItem [98] 2]]).LateStart) := by
  have hs : execute step emptyCache [.newEntry 0 .dirBeginning] = some _ := rfl
  exact ⟨_, rfl, populatesAll_iff (reachable_of_execute hs) rfl rfl rfl (by decide +kernel)
    (by decide +kernel)⟩

/-- The first call lists `.` and `..` only, the second one a file. -/
theorem not_populatesAll_of_specials_first :
    ∃ c, execute step emptyCache [.newEntry 0 .dirBeginning] = some c ∧
      ¬ PopulatesAll c 0
        (plainPopulate [plainItem dot 1, plainItem dotDot 1] [[plainItem [97] 1]]) := by
  refine ⟨_, rfl, ?_⟩
  intro ⟨r, hr, _⟩
  have hnone : (cacheInodeReaddirPopulate (Function.update emptyCache 0 (Entry.new .dirBeginning)) 0
      (plainPopulate [plainItem dot 1, plainItem dotDot 1] [[plainItem [97] 1]])).isNone = true := by
    decide +kernel
  rw [hr] at hnone
  cases hnone

/-! ## Looking for a name -/

/-- The loop of `cache_inode_lookup_sw` and `cache_inode_operate_cached_dirent` agree on the name: no
active slot has it and neither finds it, or both find the same active slot that has it, with the same
entry, and what is to be done is done with this slot. -/
def Agrees (c : Cache) (dir : ℕ) (name : Name) : Prop :=
  (lookupCachedDirent c dir name = some none ∧ (∀ p, ¬ Holds (c dir).nodes p name) ∧
    ∀ op, cacheInodeOperateCachedDirent c dir name op = some (none, .notFound, c)) ∨
  ∃ pos i d e, lookupCachedDirent c dir name = some (some (pos, i)) ∧
    slotAt (c dir).nodes pos i = some d ∧ d.active = true ∧ d.name = name ∧ d.pentry = some e ∧
    ∀ op, cacheInodeOperateCachedDirent c dir name op = some (some e, operateAt c dir pos i op)

/-- With valid entries the two searches test the same. -/
lemma Directories.lookupTest_eq (h : Directories (fun valid => valid = true) c)
    (htype : (c dir).type = .dirBeginning) :
    ∀ n ∈ (c dir).nodes, ∀ i, Dirent.operateTest c name (n.dirEntries i) =
      Dirent.lookupTest name (n.dirEntries i) := by
  intro n hn i
  obtain ⟨pos, hpos⟩ := List.mem_iff_getElem?.mp hn
  unfold Dirent.operateTest Dirent.lookupTest
  cases hactive : (n.dirEntries i).active with
  | false => rfl
  | true =>
    obtain ⟨e, hpentry, hvalid⟩ :=
      (h dir htype).2 pos i _ (slotAt_eq_some.mpr ⟨n, hpos, rfl⟩) hactive
    rw [hpentry, Option.any_some, hvalid]
    rfl

/-- So they find the same. -/
theorem Directories.agrees (h : Directories (fun valid => valid = true) c)
    (htype : (c dir).type = .dirBeginning) (name : Name) : Agrees c dir name := by
  have hsame : scan (Dirent.operateTest c name) 0 (c dir).nodes = lookupCachedDirent c dir name :=
    scan_congr (h.lookupTest_eq htype)
  have htest : ∀ d, Dirent.lookupTest name d = true ↔ d.active = true ∧ d.name = name := by
    intro d
    unfold Dirent.lookupTest
    rw [Bool.and_eq_true, decide_eq_true_eq]
  rcases scan_spec (h dir htype).1 fun d hd => ((htest d).mp hd).1 with
    ⟨pos, i, d, hscan, hd, hP⟩ | ⟨hscan, hall⟩
  · obtain ⟨hactive, hname⟩ := (htest d).mp hP
    obtain ⟨e, hpentry, -⟩ := (h dir htype).2 pos i d hd hactive
    refine .inr ⟨pos, i, d, e, hscan, hd, hactive, hname, hpentry, fun op => ?_⟩
    obtain ⟨n, hn, rfl⟩ := slotAt_eq_some.mp hd
    unfold cacheInodeOperateCachedDirent
    rw [if_neg (not_not_intro htype), hsame, lookupCachedDirent, hscan, Option.bind_some]
    dsimp only
    rw [hn, Option.map_some, hpentry]
  · refine .inl ⟨hscan, fun p hp => ?_, fun op => ?_⟩
    · obtain ⟨d, hd, hactive, hname⟩ := hp
      have hfalse := hall p.1 p.2 d hd
      rw [(htest d).mpr ⟨hactive, hname⟩] at hfalse
      cases hfalse
    · unfold cacheInodeOperateCachedDirent
      rw [if_neg (not_not_intro htype), hsame, lookupCachedDirent, hscan, Option.bind_some]

/-- In every run in which dirents are made for `VALID` entries only, and in which the garbage collector
takes no entry that has an active dirent beside those of its links, and no directory that is not empty
and has an active dirent, the two agree on every name in every directory. -/
theorem agrees_of_reachableBy (h : ReachableBy step (Keeps fun valid => valid = true) emptyCache c)
    (htype : (c dir).type = .dirBeginning) (name : Name) : Agrees c dir name := by
  refine Directories.agrees ?_ htype name
  exact h.invariant (I := Directories fun valid => valid = true) directories_emptyCache
    fun _ _ _ hc hkeeps hstep => step_directories rfl hc hkeeps hstep

/-- A directory with a file. -/
def oneFile : List Event :=
  [.newEntry 0 .dirBeginning, .newEntry 1 .regularFile, .add 0 [97] 1 ⟨none, true, true⟩]

theorem agrees_after_oneFile :
    ∃ c, execute step emptyCache oneFile = some c ∧ Agrees c 0 [97] := by
  have hs : execute step emptyCache oneFile = some _ := rfl
  have hkeeps : Meets step (Keeps fun valid => valid = true) emptyCache oneFile :=
    ⟨trivial, trivial, rfl, trivial⟩
  exact ⟨_, rfl, agrees_of_reachableBy (reachableBy_of_execute hs hkeeps) rfl [97]⟩

/-- A directory has a directory with a file, on which the garbage collector is called. -/
def fullDirectory : List Event :=
  [.newEntry 0 .dirBeginning, .newEntry 1 .dirBeginning, .add 0 [100] 1 ⟨none, true, true⟩,
    .newEntry 2 .regularFile, .add 1 [102] 2 ⟨none, true, true⟩,
    .gc 1 plainGc (fun _ _ => true) 1]

/-- The directory is not collected, but `INVALID` from then on. -/
theorem not_agrees_after_fullDirectory :
    ∃ c, execute step emptyCache fullDirectory = some c ∧ ¬ Agrees c 0 [100] := by
  have hrun : (execute step emptyCache fullDirectory).any (fun c =>
      lookupCachedDirent c 0 [100] = some (some (0, 0)) &&
        (cacheInodeOperateCachedDirent c 0 [100] .lookup).map Prod.fst = some none) = true := by
    decide +kernel
  rw [Option.any_eq_true] at hrun
  obtain ⟨c, hc, hfound⟩ := hrun
  rw [Bool.and_eq_true, decide_eq_true_eq, decide_eq_true_eq] at hfound
  obtain ⟨hlookup, hoperate⟩ := hfound
  refine ⟨c, hc, ?_⟩
  rintro (⟨hnone, -, -⟩ | ⟨pos, i, d, e, -, -, -, -, -, hop⟩)
  · rw [hlookup] at hnone
    cases hnone
  · rw [hop .lookup] at hoperate
    cases hoperate

end Ganesha.CacheInode.Dirents
