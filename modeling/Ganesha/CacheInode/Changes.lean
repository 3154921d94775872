import Ganesha.CacheInode.Chains

/-!
# What the functions do to the directories
-/

namespace Ganesha.CacheInode.Dirents
open Readdir (childrenArraySize)

variable {c c' c'' : Cache} {Q : Bool → Prop} {dir e : ℕ}

/-- The nodes of every directory are in order, and its active dirents are for entries of which
`valid_state` meets `Q`. -/
def Directories (Q : Bool → Prop) (c : Cache) : Prop :=
  ∀ dir, (c dir).type = .dirBeginning → Chained (c dir).nodes ∧
    ∀ pos i d, slotAt (c dir).nodes pos i = some d → d.active = true →
      ∃ e, d.pentry = some e ∧ Q (c e).validState

lemma Directories.named (h : Directories Q c) (htype : (c dir).type = .dirBeginning) :
    Named (c dir).nodes := by
  intro pos i d hd hactive
  obtain ⟨e, hpentry, -⟩ := (h dir htype).2 pos i d hd hactive
  rw [hpentry]
  exact Option.some_ne_none e

lemma Directories.congr (h : Directories Q c) (htype : ∀ e, (c' e).type = (c e).type)
    (hnodes : ∀ e, (c' e).nodes = (c e).nodes) (hvalid : ∀ e, (c' e).validState = (c e).validState) :
    Directories Q c' := by
  intro dir hdir
  rw [htype] at hdir
  simp only [hnodes, hvalid]
  exact h dir hdir

/-! ## Changes after which there are no new dirents -/

/-- The nodes stay, and each dirent that is active was it before, for the same entry. -/
structure NodesFade (nodes nodes' : List Node) : Prop where
  ends : ∀ pos : ℕ, (nodes'[pos]?).map Node.endOfDir = (nodes[pos]?).map Node.endOfDir
  active : ∀ pos i d', slotAt nodes' pos i = some d' → d'.active = true →
    ∃ d, slotAt nodes pos i = some d ∧ d.active = true ∧ d.pentry = d'.pentry

lemma NodesFade.refl (nodes : List Node) : NodesFade nodes nodes :=
  ⟨fun _ => rfl, fun _ _ d hd hactive => ⟨d, hd, hactive, rfl⟩⟩

variable {nodes nodes' : List Node}

lemma NodesFade.trans {nodes'' : List Node} (h : NodesFade nodes nodes') (h' : NodesFade nodes' nodes'') :
    NodesFade nodes nodes'' := by
  refine ⟨fun pos => (h'.ends pos).trans (h.ends pos), fun pos i d'' hd'' hactive => ?_⟩
  obtain ⟨d', hd', hactive', hsame'⟩ := h'.active pos i d'' hd'' hactive
  obtain ⟨d, hd, hactive, hsame⟩ := h.active pos i d' hd' hactive'
  exact ⟨d, hd, hactive, hsame.trans hsame'⟩

/-- A node may lose dirents, but not its place nor its end. -/
lemma NodesFade.modify (nodes : List Node) (pos : ℕ) {f : Node → Node}
    (hend : ∀ n, (f n).endOfDir = n.endOfDir)
    (hactive : ∀ n i, ((f n).dirEntries i).active = true →
      (n.dirEntries i).active = true ∧ (n.dirEntries i).pentry = ((f n).dirEntries i).pentry) :
    NodesFade nodes (nodes.modify pos f) := by
  refine ⟨fun k => ?_, fun k i d' hd' hact => ?_⟩
  · rcases eq_or_ne pos k with rfl | hne
    · rw [getElem?_modify_self, Option.map_map]
      congr 1
      funext n
      exact hend n
    · rw [getElem?_modify_of_ne hne]
  · rcases eq_or_ne pos k with rfl | hne
    · obtain ⟨n', hn', rfl⟩ := slotAt_eq_some.mp hd'
      rw [getElem?_modify_self] at hn'
      obtain ⟨n, hn, rfl⟩ := Option.map_eq_some_iff.mp hn'
      have hboth := hactive n i hact
      exact ⟨_, slotAt_eq_some.mpr ⟨n, hn, rfl⟩, hboth.1, hboth.2⟩
    · rw [slotAt_modify_of_ne hne] at hd'
      exact ⟨d', hd', hact, rfl⟩

/-- No node is lost. -/
lemma NodesFade.length (h : NodesFade nodes nodes') : nodes'.length = nodes.length := by
  refine Nat.le_antisymm ?_ ?_
  · by_contra hlt
    push Not at hlt
    have hnone := h.ends nodes.length
    rw [List.getElem?_eq_none le_rfl, List.getElem?_eq_getElem hlt] at hnone
    cases hnone
  · by_contra hlt
    push Not at hlt
    have hnone := h.ends nodes'.length
    rw [List.getElem?_eq_none le_rfl, List.getElem?_eq_getElem hlt] at hnone
    cases hnone

/-- The nodes are chained as before. -/
lemma NodesFade.chained (h : NodesFade nodes nodes') (hchained : Chained nodes) : Chained nodes' := by
  have hget : ∀ (pos : ℕ) (n' : Node), nodes'[pos]? = some n' →
      ∃ n : Node, nodes[pos]? = some n ∧ n.endOfDir = n'.endOfDir := by
    intro pos n' hn'
    have heq := h.ends pos
    rw [hn', Option.map_some] at heq
    exact Option.map_eq_some_iff.mp heq.symm
  have hlen := h.length
  refine ⟨fun hnil => hchained.ne ?_, fun hone n' hn' => ?_, fun pos n' hn' => ?_,
    fun n₀' hn₀' hend pos n' hn' i => ?_⟩
  · rw [hnil, List.length_nil] at hlen
    exact List.length_eq_zero_iff.mp hlen.symm
  · obtain ⟨n, hn, heq⟩ := hget 0 n' hn'
    rw [← heq]
    exact hchained.single (hlen ▸ hone) n hn
  · obtain ⟨n, hn, heq⟩ := hget (pos + 1) n' hn'
    rw [← heq, hlen]
    exact hchained.conts pos n hn
  · obtain ⟨n₀, hn₀, heq₀⟩ := hget 0 n₀' hn₀'
    rw [← heq₀] at hend
    by_contra hactive
    obtain ⟨d, hd, hact, -⟩ :=
      h.active (pos + 1) i _ (slotAt_eq_some.mpr ⟨n', hn', rfl⟩) (by simpa using hactive)
    obtain ⟨n, hn, rfl⟩ := slotAt_eq_some.mp hd
    rw [hchained.hidden n₀ hn₀ hend pos n hn i] at hact
    cases hact

/-- No dirent of any directory is new, and no directory is marked as populated. -/
structure Fades (c c' : Cache) : Prop where
  type : ∀ e, (c' e).type = (c e).type
  nodes : ∀ e, NodesFade (c e).nodes (c' e).nodes
  hasBeenReaddir : ∀ e, (c' e).hasBeenReaddir = true → (c e).hasBeenReaddir = true
  validState : ∀ e, (c' e).validState = (c e).validState

lemma Fades.refl (c : Cache) : Fades c c :=
  ⟨fun _ => rfl, fun _ => .refl _, fun _ h => h, fun _ => rfl⟩

lemma Fades.trans (h : Fades c c') (h' : Fades c' c'') : Fades c c'' :=
  ⟨fun e => (h'.type e).trans (h.type e), fun e => (h.nodes e).trans (h'.nodes e),
    fun e hflag => h.hasBeenReaddir e (h'.hasBeenReaddir e hflag),
    fun e => (h'.validState e).trans (h.validState e)⟩

/-- An entry that loses dirents, or the mark that it is populated. -/
lemma Fades.modify {f : Entry → Entry} (htype : (f (c e)).type = (c e).type)
    (hnodes : NodesFade (c e).nodes (f (c e)).nodes)
    (hflag : (f (c e)).hasBeenReaddir = true → (c e).hasBeenReaddir = true)
    (hvalid : (f (c e)).validState = (c e).validState) : Fades c (c.modify e f) := by
  unfold Cache.modify
  refine ⟨fun e' => ?_, fun e' => ?_, fun e' => ?_, fun e' => ?_⟩
  all_goals rcases eq_or_ne e' e with rfl | hne
  all_goals first | rw [Function.update_self] | rw [Function.update_of_ne hne]
  · exact htype
  · exact hnodes
  · exact NodesFade.refl _
  · exact hflag
  · exact fun h => h
  · exact hvalid

/-- A node may fade. -/
lemma Fades.modifyNode {pos : ℕ} {f : Node → Node}
    (hnodes : NodesFade (c dir).nodes ((c dir).nodes.modify pos f)) :
    Fades c (c.modifyNode dir pos f) := by
  unfold Cache.modifyNode
  apply Fades.modify
  · rfl
  · exact hnodes
  · exact fun h => h
  · rfl

/-- A property of directories that survives fading. -/
lemma Directories.fades (h : Directories Q c) (hfades : Fades c c') : Directories Q c' := by
  intro dir htype
  rw [hfades.type] at htype
  refine ⟨(hfades.nodes dir).chained (h dir htype).1, fun pos i d' hd' hactive => ?_⟩
  obtain ⟨d, hd, hactive, hsame⟩ := (hfades.nodes dir).active pos i d' hd' hactive
  obtain ⟨e, hpentry, he⟩ := (h dir htype).2 pos i d hd hactive
  refine ⟨e, hsame ▸ hpentry, ?_⟩
  rw [hfades.validState e]
  exact he

/-- An entry is made inactive. -/
lemma NodesFade.deactivate (nodes : List Node) (pos : ℕ) (i : Slot) (nbactive : Node → UInt32) :
    NodesFade nodes (nodes.modify pos fun n =>
      { n.modifySlot i fun d => { d with active := false } with nbactive := nbactive n }) := by
  refine .modify nodes pos (fun _ => rfl) fun n j hactive => ?_
  simp only [Node.modifySlot] at hactive ⊢
  rcases eq_or_ne j i with rfl | hne
  · rw [Function.update_self] at hactive
    cases hactive
  · rw [Function.update_of_ne hne] at hactive ⊢
    exact ⟨hactive, rfl⟩

/-- The dirents of the parents are lost. -/
lemma invalidateRelatedDirent_fades (links : List ParentEntry) (c : Cache) :
    Fades c (invalidateRelatedDirent c links).2 := by
  induction links generalizing c with
  | nil => exact .refl c
  | cons l links ih =>
    unfold invalidateRelatedDirent
    split
    · exact .refl c
    · have hslot : Fades c (c.modifyNode l.parent l.node fun n =>
          { n.modifySlot l.subdirpos fun d => { d with active := false } with
            nbactive := n.nbactive - 1 }) :=
        .modifyNode (.deactivate _ _ _ _)
      refine (hslot.trans ?_).trans (ih _)
      · refine .modify rfl (.refl _) (fun h => ?_) rfl
        simp only at h
        split at h
        · cases h
        · exact h

lemma NodesFade.clear (nodes : List Node) (pos : ℕ) :
    NodesFade nodes (nodes.modify pos Node.clear) :=
  .modify nodes pos (fun _ => rfl) fun _ _ hactive => nomatch hactive

/-- All dirents of some nodes are lost. -/
lemma NodesFade.mapIdx_clear (nodes : List Node) (P : ℕ → Prop) [DecidablePred P] :
    NodesFade nodes (nodes.mapIdx fun pos n => if P pos then n.clear else n) := by
  refine ⟨fun pos => ?_, fun pos i d' hd' hactive => ?_⟩
  · rw [List.getElem?_mapIdx, Option.map_map]
    congr 1
    funext n
    simp only [Function.comp]
    split <;> rfl
  · obtain ⟨n', hn', rfl⟩ := slotAt_eq_some.mp hd'
    rw [List.getElem?_mapIdx] at hn'
    obtain ⟨n, hn, rfl⟩ := Option.map_eq_some_iff.mp hn'
    split at hactive
    · cases hactive
    · rename_i hP
      rw [if_neg hP]
      exact ⟨_, slotAt_eq_some.mpr ⟨n, hn, rfl⟩, hactive, rfl⟩

/-- A killed entry only takes dirents away. -/
theorem cacheInodeKillEntry_fades (c : Cache) (e : ℕ) (env : KillEnv) (conts : ℕ → KillEnv) :
    Fades c (cacheInodeKillEntry c e env conts).2 := by
  unfold cacheInodeKillEntry
  split
  · exact .refl c
  split
  · exact .refl c
  set c₁ := c.modify e fun entry =>
    { entry with nodes := entry.nodes.mapIdx fun pos n =>
        if pos ≠ 0 ∧ (conts pos).ok then n.clear else n } with hc₁
  have hconts : Fades c c₁ := by
    rw [hc₁]
    apply Fades.modify
    · rfl
    · exact .mapIdx_clear _ fun pos => pos ≠ 0 ∧ (conts pos).ok = true
    · exact fun h => h
    · rfl
  have hlinks := hconts.trans (invalidateRelatedDirent_fades (c₁ e).parentList c₁)
  dsimp only
  split
  · exact hlinks
  · refine hlinks.trans ?_
    dsimp only
    apply Fades.modify
    · rfl
    · exact .clear _ 0
    · exact fun h => h
    · rfl

/-- An operation on a dirent only takes it away. -/
lemma operateAt_fades (c : Cache) (dir pos : ℕ) (i : Slot) (op : DirentOp) :
    Fades c (operateAt c dir pos i op).2 := by
  cases op with
  | lookup => exact .refl c
  | rename newname namecpy =>
    cases namecpy with
    | some err => exact .refl c
    | none =>
      refine .modifyNode (.modify _ _ (fun _ => rfl) fun n j hactive => ?_)
      simp only [Node.modifySlot] at hactive ⊢
      rcases eq_or_ne j i with rfl | hne
      · rw [Function.update_self] at hactive ⊢
        exact ⟨hactive, rfl⟩
      · rw [Function.update_of_ne hne] at hactive ⊢
        exact ⟨hactive, rfl⟩
  | remove => exact .modifyNode (.deactivate _ _ _ _)

/-- So does the search with the operation. -/
lemma cacheInodeOperateCachedDirent_fades {name : Name} {op : DirentOp} {found : Option ℕ}
    {status : Status} (h : cacheInodeOperateCachedDirent c dir name op = some (found, status, c')) :
    Fades c c' := by
  unfold cacheInodeOperateCachedDirent at h
  split at h
  · cases h
    exact .refl c
  · obtain ⟨r, -, hr⟩ := Option.bind_eq_some_iff.mp h
    cases r with
    | none =>
      cases hr
      exact .refl c
    | some p =>
      obtain ⟨n, -, heq⟩ := Option.map_eq_some_iff.mp hr
      have hat := operateAt_fades c dir p.1 p.2 op
      rw [Prod.mk.injEq] at heq
      rw [heq.2] at hat
      exact hat

/-- So does the removal of a name. -/
lemma cacheInodeRemoveCachedDirent_fades {name : Name} {status : Status}
    (h : cacheInodeRemoveCachedDirent c dir name = some (status, c')) : Fades c c' := by
  unfold cacheInodeRemoveCachedDirent at h
  split at h
  · cases h
    exact .refl c
  · obtain ⟨⟨found, status', c₁⟩, hop, hr⟩ := Option.map_eq_some_iff.mp h
    have hfades := cacheInodeOperateCachedDirent_fades hop
    cases found with
    | none =>
      cases hr
      exact hfades
    | some removed =>
      cases hr
      exact hfades.trans (.modify rfl (.refl _) (fun h => h) rfl)

/-! ## Changes after which there may be new dirents -/

lemma Chained.singleton {n : Node} (hend : n.endOfDir = true) : Chained [n] := by
  refine ⟨List.cons_ne_nil n [], fun _ n' hn' => ?_, fun pos n' hn' => ?_, fun _ _ _ pos n' hn' => ?_⟩
  · cases hn'
    exact hend
  · cases hn'
  · cases hn'

/-- A new directory has one empty node that is its end. -/
lemma Directories.new (h : Directories Q c) (hQ : Q true) (e : ℕ) (type : FileType) :
    Directories Q (Function.update c e (Entry.new type)) := by
  intro dir htype
  rcases eq_or_ne dir e with rfl | hne
  · rw [Function.update_self] at htype ⊢
    have hnodes : (Entry.new type).nodes = [Node.new 0] := if_pos htype
    rw [hnodes]
    refine ⟨.singleton rfl, fun pos i d hd hactive => ?_⟩
    obtain ⟨n, hn, rfl⟩ := slotAt_eq_some.mp hd
    obtain rfl : n = Node.new 0 := List.mem_singleton.mp (List.mem_of_getElem? hn)
    cases hactive
  · rw [Function.update_of_ne hne] at htype ⊢
    refine ⟨(h dir htype).1, fun pos i d hd hactive => ?_⟩
    obtain ⟨e', hpentry, he'⟩ := (h dir htype).2 pos i d hd hactive
    refine ⟨e', hpentry, ?_⟩
    rcases eq_or_ne e' e with rfl | hne'
    · rw [Function.update_self]
      exact hQ
    · rw [Function.update_of_ne hne']
      exact he'

/-- The directories are well formed after a dirent is added. -/
lemma Directories.added {added : ℕ} (h : Directories Q c) (htype : (c dir).type = .dirBeginning)
    (hadded : Added c c' dir added) (hQ : Q (c added).validState) : Directories Q c' := by
  intro dir' htype'
  rw [hadded.only.type] at htype'
  simp only [hadded.only.validState]
  rcases eq_or_ne dir' dir with rfl | hne
  · refine ⟨hadded.chained, fun pos i d hd hactive => ?_⟩
    rcases hadded.active pos i d hd hactive with hold | hnew
    · exact (h dir' htype).2 pos i d hold hactive
    · exact ⟨added, hnew, hQ⟩
  · rw [hadded.only.others dir' hne]
    exact h dir' htype'

/-- The nodes of a directory after `cache_inode_invalidate_all_cached_dirent`. -/
def invalidateNodes (nodes : List Node) : List Node :=
  (nodes.map Node.invalidate).modify 0 fun n => { n with endOfDir := true }

/-- No entry is active afterwards. -/
lemma slotAt_invalidateNodes {pos : ℕ} {i : Slot} {d : Dirent}
    (hd : slotAt (invalidateNodes nodes) pos i = some d) : d.active = false := by
  obtain ⟨n', hn', rfl⟩ := slotAt_eq_some.mp hd
  unfold invalidateNodes at hn'
  rw [List.getElem?_modify, List.getElem?_map] at hn'
  obtain ⟨n, hn, rfl⟩ := Option.map_eq_some_iff.mp hn'
  obtain ⟨n₀, -, rfl⟩ := Option.map_eq_some_iff.mp hn
  split <;> rfl

/-- A directory that was emptied ends at its first node. -/
lemma Chained.invalidateNodes (h : Chained nodes) : Chained (invalidateNodes nodes) := by
  have hlen : (Dirents.invalidateNodes nodes).length = nodes.length := by
    rw [Dirents.invalidateNodes, List.length_modify, List.length_map]
  refine ⟨fun hnil => h.ne ?_, fun _ n' hn' => ?_, fun pos n' hn' => ?_, fun _ _ _ pos n' hn' i => ?_⟩
  · rw [hnil, List.length_nil] at hlen
    exact List.length_eq_zero_iff.mp hlen.symm
  · unfold Dirents.invalidateNodes at hn'
    rw [getElem?_modify_self] at hn'
    obtain ⟨_, -, rfl⟩ := Option.map_eq_some_iff.mp hn'
    rfl
  · unfold Dirents.invalidateNodes at hn'
    rw [getElem?_modify_of_ne (Nat.succ_ne_zero pos).symm, List.getElem?_map] at hn'
    obtain ⟨n, hn, rfl⟩ := Option.map_eq_some_iff.mp hn'
    rw [hlen]
    exact h.conts pos n hn
  · exact slotAt_invalidateNodes (slotAt_eq_some.mpr ⟨n', hn', rfl⟩)

lemma cacheInodeInvalidateAllCachedDirent_of_dir (htype : (c dir).type = .dirBeginning) :
    cacheInodeInvalidateAllCachedDirent c dir = (.success, c.modify dir fun d =>
      { d with nodes := invalidateNodes d.nodes, hasBeenReaddir := false }) := by
  unfold cacheInodeInvalidateAllCachedDirent
  rw [if_neg (not_not_intro htype)]
  rfl

/-- Validity is untouched. -/
lemma invalidateAll_validState (c : Cache) (dir e : ℕ) :
    ((cacheInodeInvalidateAllCachedDirent c dir).2 e).validState = (c e).validState := by
  unfold cacheInodeInvalidateAllCachedDirent
  split
  · rfl
  · simp only [Cache.modify]
    rcases eq_or_ne e dir with rfl | hne
    · rw [Function.update_self]
    · rw [Function.update_of_ne hne]

/-- The directories are well formed after one is emptied. -/
lemma Directories.invalidateAll (h : Directories Q c) (dir : ℕ) :
    Directories Q (cacheInodeInvalidateAllCachedDirent c dir).2 := by
  by_cases htype : (c dir).type = .dirBeginning
  · intro dir' htype'
    simp only [invalidateAll_validState]
    rw [cacheInodeInvalidateAllCachedDirent_of_dir htype] at htype' ⊢
    simp only [Cache.modify] at htype' ⊢
    rcases eq_or_ne dir' dir with rfl | hne
    · rw [Function.update_self]
      refine ⟨(h dir' htype).1.invalidateNodes, fun pos i d hd hactive => ?_⟩
      rw [slotAt_invalidateNodes hd] at hactive
      cases hactive
    · rw [Function.update_of_ne hne] at htype' ⊢
      exact h dir' htype'
  · unfold cacheInodeInvalidateAllCachedDirent
    rw [if_pos htype]
    exact h

end Ganesha.CacheInode.Dirents
