import Mathlib.Data.Set.Card
import Ganesha.CacheInode.Gc
import Ganesha.CacheInode.Changes

/-!
# What the garbage collector does
-/

namespace Ganesha.CacheInode.Gc
open Dirents

variable {w w' w'' : World} {e pos : ℕ} {env : GcEnv}

/-! ## The directories -/

/-- The entry is marked as `INVALID`. -/
def invalid (c : Cache) (e : ℕ) : Cache := c.modify e fun entry => { entry with validState := false }

/-- The parents of an entry are directories. -/
def Parented (c : Cache) (e : ℕ) : Prop := ∀ l ∈ (c e).parentList, (c l.parent).type = .dirBeginning

/-- No active dirent is for the entry. -/
def Unnamed (c : Cache) (e : ℕ) : Prop :=
  ∀ dir, (c dir).type = .dirBeginning → ∀ pos i d, slotAt (c dir).nodes pos i = some d →
    d.active = true → d.pentry ≠ some e

/-- The links of an entry to its parents lead to directories, and to all active dirents that are for
it. -/
structure Linked (c : Cache) (e : ℕ) : Prop where
  parents : Parented c e
  dirents : ∀ dir, (c dir).type = .dirBeginning → ∀ pos i d, slotAt (c dir).nodes pos i = some d →
    d.active = true → d.pentry = some e → ⟨dir, pos, i⟩ ∈ (c e).parentList

/-- The clean-up of an entry takes no dirent in. -/
lemma cacheInodeGcCleanEntry_fades (w : World) (e pos : ℕ) (env : CleanEnv) :
    Fades w.cache (cacheInodeGcCleanEntry w e pos env).2.cache := by
  unfold cacheInodeGcCleanEntry
  split
  · exact .refl _
  split
  · exact .refl _
  split
  · exact .refl _
  · dsimp only
    split
    · apply Fades.modify
      · rfl
      · exact .refl _
      · exact fun h => h
      · rfl
    · exact .refl _

/-- Nor does that of its extents. -/
lemma cleanDirConts_fades (e : ℕ) (env : ℕ → CleanEnv) (l : List ℕ) (w : World) :
    Fades w.cache (cleanDirConts e env l w).2.cache := by
  induction l generalizing w with
  | nil => exact .refl _
  | cons pos l ih =>
    unfold cleanDirConts
    have hclean := cacheInodeGcCleanEntry_fades w e pos (env pos)
    rcases hres : cacheInodeGcCleanEntry w e pos (env pos) with ⟨answer, w₁⟩
    rw [hres] at hclean
    cases answer with
    | false => exact hclean
    | true => exact hclean.trans (ih w₁)

@[simp] lemma invalid_parentList (c : Cache) (e : ℕ) :
    (invalid c e e).parentList = (c e).parentList := by
  simp [invalid, Cache.modify]

@[simp] lemma invalid_nodes (c : Cache) (e e' : ℕ) : (invalid c e e').nodes = (c e').nodes := by
  unfold invalid Cache.modify
  rcases eq_or_ne e' e with rfl | hne
  · rw [Function.update_self]
  · rw [Function.update_of_ne hne]

@[simp] lemma invalid_type (c : Cache) (e e' : ℕ) : (invalid c e e').type = (c e').type := by
  unfold invalid Cache.modify
  rcases eq_or_ne e' e with rfl | hne
  · rw [Function.update_self]
  · rw [Function.update_of_ne hne]

lemma cacheInodeGcSuppressFile_eq (w : World) (e : ℕ) (env : CleanEnv) :
    cacheInodeGcSuppressFile w e env =
      match invalidateRelatedDirent (invalid w.cache e) (w.cache e).parentList with
      | (false, cache) => (false, { w with cache })
      | (true, cache) => cacheInodeGcCleanEntry { w with cache } e 0 env := by
  rw [← invalid_parentList]
  rfl

/-- A directory with dirents is only marked; an empty one is taken from its parents and cleaned. -/
lemma cacheInodeGcSuppressDirectory_eq (w : World) (e : ℕ) (env : ℕ → CleanEnv) :
    cacheInodeGcSuppressDirectory w e env =
      if cacheInodeIsDirEmpty w.cache e ≠ .success then
        (false, { w with cache := invalid w.cache e })
      else match invalidateRelatedDirent (invalid w.cache e) (w.cache e).parentList with
        | (false, cache) => (false, { w with cache })
        | (true, cache) =>
          match cleanDirConts e env ((List.range (w.cache e).nodes.length).tail)
            { w with cache } with
          | (false, w) => (false, w)
          | (true, w) => cacheInodeGcCleanEntry w e 0 (env 0) := by
  have hempty : cacheInodeIsDirEmpty (invalid w.cache e) e = cacheInodeIsDirEmpty w.cache e := by
    unfold cacheInodeIsDirEmpty
    rw [invalid_type, invalid_nodes]
  have hfades := invalidateRelatedDirent_fades (w.cache e).parentList (invalid w.cache e)
  have hlen := (hfades.nodes e).length
  rw [invalid_nodes] at hlen
  show (if cacheInodeIsDirEmpty (invalid w.cache e) e ≠ .success then
      (false, { w with cache := invalid w.cache e })
    else match invalidateRelatedDirent (invalid w.cache e) (invalid w.cache e e).parentList with
      | (false, cache) => (false, { w with cache })
      | (true, cache) =>
        match cleanDirConts e env ((List.range (cache e).nodes.length).tail)
          { w with cache } with
        | (false, w) => (false, w)
        | (true, w) => cacheInodeGcCleanEntry w e 0 (env 0)) = _
  rw [hempty, invalid_parentList]
  rcases hres : invalidateRelatedDirent (invalid w.cache e) (w.cache e).parentList with ⟨answer, c⟩
  rw [hres] at hlen
  cases answer with
  | false => rfl
  | true =>
    dsimp only at hlen ⊢
    rw [hlen]

/-- A file is suppressed. -/
lemma cacheInodeGcSuppressFile_fades (w : World) (e : ℕ) (env : CleanEnv) :
    Fades (invalid w.cache e) (cacheInodeGcSuppressFile w e env).2.cache := by
  rw [cacheInodeGcSuppressFile_eq]
  have hlinks := invalidateRelatedDirent_fades (w.cache e).parentList (invalid w.cache e)
  rcases hres : invalidateRelatedDirent (invalid w.cache e) (w.cache e).parentList with ⟨answer, c⟩
  rw [hres] at hlinks
  cases answer with
  | false => exact hlinks
  | true => exact hlinks.trans (cacheInodeGcCleanEntry_fades { w with cache := c } e 0 env)

/-- A directory with its continuations is cleaned. -/
lemma cleanDirectory_fades (w : World) (e : ℕ) (env : ℕ → CleanEnv) (l : List ℕ) :
    Fades w.cache (match cleanDirConts e env l w with
      | (false, w) => (false, w)
      | (true, w) => cacheInodeGcCleanEntry w e 0 (env 0)).2.cache := by
  have hconts := cleanDirConts_fades e env l w
  rcases hres : cleanDirConts e env l w with ⟨answer, w₁⟩
  rw [hres] at hconts
  cases answer with
  | false => exact hconts
  | true => exact hconts.trans (cacheInodeGcCleanEntry_fades w₁ e 0 (env 0))

/-- A directory is suppressed. -/
lemma cacheInodeGcSuppressDirectory_fades (w : World) (e : ℕ) (env : ℕ → CleanEnv) :
    Fades (invalid w.cache e) (cacheInodeGcSuppressDirectory w e env).2.cache := by
  rw [cacheInodeGcSuppressDirectory_eq]
  split
  · exact .refl _
  have hlinks := invalidateRelatedDirent_fades (w.cache e).parentList (invalid w.cache e)
  rcases hres : invalidateRelatedDirent (invalid w.cache e) (w.cache e).parentList with ⟨answer, c⟩
  rw [hres] at hlinks
  cases answer with
  | false => exact hlinks
  | true => exact hlinks.trans (cleanDirectory_fades { w with cache := c } e env _)

/-- An entry is considered: there are entries to be purged, and it has expired. -/
def Considered (env : GcEnv) (w : World) (e : ℕ) : Prop :=
  w.nbToBePurged ≠ 0 ∧ env.expired (w.cache e).type e = true

lemma cacheInodeGcFunction_of_considered (h : Considered env w e) : cacheInodeGcFunction env w e =
    if (w.cache e).type = .dirBeginning then cacheInodeGcSuppressDirectory w e (env.clean e)
    else cacheInodeGcSuppressFile w e (env.clean e 0) :=
  if_pos h

lemma cacheInodeGcFunction_of_not_considered (h : ¬ Considered env w e) :
    cacheInodeGcFunction env w e = (false, w) :=
  if_neg h

/-- The directories after one entry has been treated. -/
theorem cacheInodeGcFunction_fades (env : GcEnv) (w : World) (e : ℕ) :
    Considered env w e ∧ Fades (invalid w.cache e) (cacheInodeGcFunction env w e).2.cache ∨
      cacheInodeGcFunction env w e = (false, w) := by
  by_cases hconsidered : Considered env w e
  · refine .inl ⟨hconsidered, ?_⟩
    rw [cacheInodeGcFunction_of_considered hconsidered]
    split
    · exact cacheInodeGcSuppressDirectory_fades w e (env.clean e)
    · exact cacheInodeGcSuppressFile_fades w e (env.clean e 0)
  · exact .inr (cacheInodeGcFunction_of_not_considered hconsidered)

/-! ## The dirents for an entry that is collected -/

/-- Every dirent of the entry in its parents is switched off. -/
lemma invalidateRelatedDirent_inactive (links : List ParentEntry) (c : Cache)
    (h : ∀ l ∈ links, (c l.parent).type = .dirBeginning) :
    (invalidateRelatedDirent c links).1 = true ∧
      ∀ l ∈ links, ∀ d, slotAt ((invalidateRelatedDirent c links).2 l.parent).nodes l.node
        l.subdirpos = some d → d.active = false := by
  induction links generalizing c with
  | nil => exact ⟨rfl, nofun⟩
  | cons l links ih =>
    unfold invalidateRelatedDirent
    rw [if_neg (not_not_intro (h l List.mem_cons_self))]
    dsimp only
    set c₁ := c.modifyNode l.parent l.node fun n =>
      { n.modifySlot l.subdirpos fun d => { d with active := false } with
        nbactive := n.nbactive - 1 } with hc₁
    set c₂ := c₁.modify l.parent fun d =>
      { d with hasBeenReaddir := if l.node = 0 then false else d.hasBeenReaddir } with hc₂
    have hsame : ∀ e, (c₂ e).type = (c e).type := by
      intro e
      rw [hc₂, hc₁]
      unfold Cache.modifyNode Cache.modify
      rw [Function.update_idem]
      rcases eq_or_ne e l.parent with rfl | hne
      · simp
      · simp [hne]
    -- the entry that leads to the file is not active any more
    have hslot : ∀ d, slotAt (c₂ l.parent).nodes l.node l.subdirpos = some d → d.active = false := by
      intro d hd
      rw [hc₂, hc₁] at hd
      unfold Cache.modifyNode Cache.modify at hd
      rw [Function.update_self, Function.update_self] at hd
      obtain ⟨n', hn', rfl⟩ := slotAt_eq_some.mp hd
      rw [getElem?_modify_self] at hn'
      obtain ⟨n, -, rfl⟩ := Option.map_eq_some_iff.mp hn'
      simp [Node.modifySlot]
    obtain ⟨hok, hrest⟩ := ih c₂ fun l' hl' => by
      rw [hsame]
      exact h l' (List.mem_cons_of_mem l hl')
    refine ⟨hok, fun l' hl' d hd => ?_⟩
    rcases List.mem_cons.mp hl' with rfl | hl'
    · by_contra hactive
      have hfades := invalidateRelatedDirent_fades links c₂
      obtain ⟨d₂, hd₂, hactive₂, -⟩ :=
        (hfades.nodes l'.parent).active l'.node l'.subdirpos d hd (by simpa using hactive)
      rw [hslot d₂ hd₂] at hactive₂
      cases hactive₂
    · exact hrest l' hl' d hd

lemma Unnamed.fades {c c' : Cache} (h : Unnamed c e) (hfades : Fades c c') : Unnamed c' e := by
  intro dir htype pos i d' hd' hactive
  rw [hfades.type] at htype
  obtain ⟨d, hd, hactive', hsame⟩ := (hfades.nodes dir).active pos i d' hd' hactive
  rw [← hsame]
  exact h dir htype pos i d hd hactive'

lemma Unnamed.invalid {c : Cache} (h : Unnamed c e) (e' : ℕ) : Unnamed (invalid c e') e := by
  intro dir htype pos i d hd
  rw [invalid_type] at htype
  rw [invalid_nodes] at hd
  exact h dir htype pos i d hd

/-- No parent names the entry afterwards. -/
lemma Linked.unnamed {c : Cache} (h : Linked c e) :
    Unnamed (invalidateRelatedDirent (Gc.invalid c e) (c e).parentList).2 e := by
  have hfades := invalidateRelatedDirent_fades (c e).parentList (Gc.invalid c e)
  obtain ⟨-, hinactive⟩ := invalidateRelatedDirent_inactive (c e).parentList (Gc.invalid c e)
    fun l hl => by
      rw [invalid_type]
      exact h.parents l hl
  intro dir htype pos i d' hd' hactive hpentry
  rw [hfades.type, invalid_type] at htype
  obtain ⟨d, hd, hactive', hsame⟩ := (hfades.nodes dir).active pos i d' hd' hactive
  rw [invalid_nodes] at hd
  have hlink := h.dirents dir htype pos i d hd hactive' (hsame.trans hpentry)
  rw [hinactive _ hlink d' hd'] at hactive
  cases hactive

/-- The entry is collected with all its dirents, or stays without having any. -/
def Collects (env : GcEnv) (w : World) (e : ℕ) : Prop :=
  Considered env w e →
    if (w.cache e).type = .dirBeginning ∧ cacheInodeIsDirEmpty w.cache e ≠ .success then
      Unnamed w.cache e
    else Linked w.cache e

/-- No active dirent is left for an entry that has been considered. -/
theorem Collects.unnamed (h : Collects env w e) (hconsidered : Considered env w e) :
    Unnamed (cacheInodeGcFunction env w e).2.cache e := by
  have hcase := h hconsidered
  rw [cacheInodeGcFunction_of_considered hconsidered]
  by_cases htype : (w.cache e).type = .dirBeginning
  · rw [if_pos htype]
    by_cases hempty : cacheInodeIsDirEmpty w.cache e = .success
    · rw [if_neg fun hboth => hboth.2 hempty] at hcase
      rw [cacheInodeGcSuppressDirectory_eq, if_neg (not_not_intro hempty)]
      have hunnamed := hcase.unnamed
      rcases hres : invalidateRelatedDirent (Gc.invalid w.cache e) (w.cache e).parentList with
        ⟨answer, c⟩
      rw [hres] at hunnamed
      cases answer with
      | false => exact hunnamed
      | true => exact hunnamed.fades (cleanDirectory_fades { w with cache := c } e _ _)
    · rw [if_pos ⟨htype, hempty⟩] at hcase
      exact (hcase.invalid e).fades (cacheInodeGcSuppressDirectory_fades w e (env.clean e))
  · rw [if_neg fun hboth => htype hboth.1] at hcase
    rw [if_neg htype, cacheInodeGcSuppressFile_eq]
    have hunnamed := hcase.unnamed
    rcases hres : invalidateRelatedDirent (Gc.invalid w.cache e) (w.cache e).parentList with
      ⟨answer, c⟩
    rw [hres] at hunnamed
    cases answer with
    | false => exact hunnamed
    | true => exact hunnamed.fades (cacheInodeGcCleanEntry_fades { w with cache := c } e 0 _)

/-! ## The keys and the counter -/

/-- The keys that are in the hash table before, and not afterwards. -/
def evicted (w w' : World) : Set (ℕ × ℕ) :=
  { p | w.hash p.1 p.2 = true ∧ w'.hash p.1 p.2 = false }

lemma mem_evicted {p : ℕ × ℕ} :
    p ∈ evicted w w' ↔ w.hash p.1 p.2 = true ∧ w'.hash p.1 p.2 = false :=
  Iff.rfl

/-- `k` keys go from the hash table, and the counter is decremented for each of them. -/
structure Purged (w w' : World) (k : ℕ) : Prop where
  hash : ∀ e pos, w'.hash e pos = true → w.hash e pos = true
  count : (evicted w w').encard = k
  counter : w'.nbToBePurged = w.nbToBePurged - UInt32.ofNat k

/-- Nothing is purged if the table and the counter stay. -/
lemma Purged.of_eq (hhash : w'.hash = w.hash) (hcounter : w'.nbToBePurged = w.nbToBePurged) :
    Purged w w' 0 := by
  refine ⟨fun e pos h => hhash ▸ h, ?_, ?_⟩
  · have hempty : evicted w w' = ∅ := by
      ext p
      simp only [mem_evicted, hhash, Set.mem_empty_iff_false, iff_false, not_and]
      intro htrue hfalse
      rw [htrue] at hfalse
      cases hfalse
    rw [hempty, Set.encard_empty]
    rfl
  · rw [hcounter]
    simp

/-- What is purged by two steps adds up. -/
lemma Purged.trans {k k' : ℕ} (h : Purged w w' k) (h' : Purged w' w'' k') :
    Purged w w'' (k + k') := by
  refine ⟨fun e pos hkey => h.hash e pos (h'.hash e pos hkey), ?_, ?_⟩
  · have hunion : evicted w w'' = evicted w w' ∪ evicted w' w'' := by
      ext p
      have hback := h.hash p.1 p.2
      have hback' := h'.hash p.1 p.2
      rw [Set.mem_union, mem_evicted, mem_evicted, mem_evicted]
      cases hmid : w'.hash p.1 p.2 with
      | true => simp [hback hmid]
      | false =>
        have hlast : w''.hash p.1 p.2 = false := by
          by_contra htrue
          rw [hback' (by simpa using htrue)] at hmid
          cases hmid
        simp [hlast]
    have hdisjoint : Disjoint (evicted w w') (evicted w' w'') := by
      rw [Set.disjoint_left]
      intro p hp hp'
      have hfalse := hp.2
      rw [hp'.1] at hfalse
      cases hfalse
    rw [hunion, Set.encard_union_eq hdisjoint, h.count, h'.count]
    rfl
  · rw [h'.counter, h.counter, UInt32.ofNat_add]
    grind

/-- What an entry keeps if it is not evicted. Its dirents are those that it has and those that name it
in its parents, with the number of the active ones, so no directory changes. -/
structure Kept (w w' : World) (e : ℕ) : Prop where
  validState : (w'.cache e).validState = (w.cache e).validState
  nodes : ∀ dir, (w'.cache dir).nodes = (w.cache dir).nodes
  hash : w'.hash e = w.hash e

/-- The calls made for a node succeed. -/
def CleanEnv.ok (env : CleanEnv) : Bool := env.key && env.hashDel

/-- The first link of an entry does not lead to a directory. -/
def Unparented (c : Cache) (e : ℕ) : Prop :=
  ∀ l ∈ (c e).parentList.head?, (c l.parent).type ≠ .dirBeginning

@[simp] lemma invalid_validState (c : Cache) (e : ℕ) : (invalid c e e).validState = false := by
  simp [invalid, Cache.modify]

/-- An entry without a parent fails at its `parent_list`, before any dirent is changed. -/
lemma Unparented.invalidate {c : Cache} (h : Unparented c e) :
    (invalidateRelatedDirent (invalid c e) (c e).parentList).2 = invalid c e ∧
      ((c e).parentList ≠ [] →
        (invalidateRelatedDirent (invalid c e) (c e).parentList).1 = false) := by
  unfold Unparented at h
  cases hlinks : (c e).parentList with
  | nil => exact ⟨rfl, fun hne => absurd rfl hne⟩
  | cons l links =>
    rw [hlinks] at h
    have htype : ((invalid c e) l.parent).type ≠ .dirBeginning := by
      rw [invalid_type]
      exact h l rfl
    unfold invalidateRelatedDirent
    rw [if_pos htype]
    exact ⟨rfl, fun _ => rfl⟩

/-- The policy and the calls of the runs below: both water marks are 2, everything has expired and no
call fails. -/
def plainGc : GcEnv where
  policy := ⟨1, 1, 2, 2⟩
  age _ := 5
  clean _ _ := ⟨true, true⟩

end Ganesha.CacheInode.Gc
