import Mathlib.Data.List.Count
import Ganesha.CacheInode.EntryPools
import Ganesha.Pools

/-!
# The objects of the pools are conserved
-/

namespace Ganesha.CacheInode.Pools
open Ganesha.Hash (getPrealloc releasePrealloc)
open Ganesha.Pools (Stocked)

variable {H : Type} {w w' : World H} {e c d p : ℕ} {k : KeyPtr} {o : Obj} {r : Record H}

/-! ## The balance of an object -/

/-- What an entry holds besides its key. -/
def contents (heap : ℕ → Entry H) (e : ℕ) : List Obj :=
  (heap e).parentList.map .parent ++ if isDir (heap e).type then [.dirData (heap e).pdirData] else []

lemma contents_congr {heap heap' : ℕ → Entry H} (h : heap' e = heap e) :
    contents heap' e = contents heap e := by
  simp only [contents, h]

/-- The objects of a record of the hash table. -/
def objects (heap : ℕ → Entry H) (r : Record H) : List Obj :=
  .key r.key :: .entry r.entry :: contents heap r.entry

/-- The objects of the hash table. -/
def World.held (w : World H) : List Obj := w.ht.flatMap (objects w.heap)

/-- How often an object was released or is held, less how often it was taken. -/
def World.balance (w : World H) (o : Obj) : ℤ :=
  w.log.count (.release o) + w.held.count o - w.log.count (.get o)

/-- One for the object itself. -/
def unit (a o : Obj) : ℤ := if a = o then 1 else 0

/-- The same entries and records. -/
structure SameTable (w w' : World H) : Prop where
  heap : w'.heap = w.heap
  ht : w'.ht = w.ht

lemma SameTable.held (h : SameTable w w') : w'.held = w.held := by
  rw [World.held, World.held, h.heap, h.ht]

lemma balance_of_get (a : Obj) (h : SameTable w w') (hlog : w'.log = w.log ++ [.get a]) :
    w'.balance o = w.balance o - unit a o := by
  rw [World.balance, World.balance, h.held, hlog, unit]
  simp only [List.count_append, List.count_singleton, beq_iff_eq, Event.get.injEq, reduceCtorEq,
    if_false]
  split_ifs <;> omega

lemma balance_of_release (a : Obj) (h : SameTable w w') (hlog : w'.log = w.log ++ [.release a]) :
    w'.balance o = w.balance o + unit a o := by
  rw [World.balance, World.balance, h.held, hlog, unit]
  simp only [List.count_append, List.count_singleton, beq_iff_eq, Event.release.injEq, reduceCtorEq,
    if_false]
  split_ifs <;> omega

lemma sameTable_getEntry : SameTable w w.getEntry.2 := ⟨rfl, rfl⟩

lemma sameTable_getDirData : SameTable w w.getDirData.2 := ⟨rfl, rfl⟩

lemma sameTable_getKey : SameTable w w.getKey.2 := ⟨rfl, rfl⟩

lemma balance_getEntry (h : w.getEntry.1 = some p) :
    w.getEntry.2.balance o = w.balance o - unit (.entry p) o := by
  apply balance_of_get _ sameTable_getEntry
  have hlog : w.getEntry.2.log = w.log ++ (w.getEntry.1.map (.get ∘ .entry)).toList := rfl
  rw [hlog, h]
  rfl

lemma balance_getDirData (h : w.getDirData.1 = some p) :
    w.getDirData.2.balance o = w.balance o - unit (.dirData p) o := by
  apply balance_of_get _ sameTable_getDirData
  have hlog : w.getDirData.2.log = w.log ++ (w.getDirData.1.map (.get ∘ .dirData)).toList := rfl
  rw [hlog, h]
  rfl

lemma balance_getKey (h : w.getKey.1 = some k) :
    w.getKey.2.balance o = w.balance o - unit (.key k) o := by
  apply balance_of_get _ sameTable_getKey
  have hlog : w.getKey.2.log = w.log ++ (w.getKey.1.map (.get ∘ .key)).toList := rfl
  rw [hlog, h]
  rfl

lemma balance_getEntry_none (h : w.getEntry.1 = none) : w.getEntry.2.balance o = w.balance o := by
  have hlog : w.getEntry.2.log = w.log ++ (w.getEntry.1.map (.get ∘ .entry)).toList := rfl
  rw [World.balance, World.balance, sameTable_getEntry.held, hlog, h, Option.map_none,
    Option.toList_none, List.append_nil]

lemma balance_getDirData_none (h : w.getDirData.1 = none) :
    w.getDirData.2.balance o = w.balance o := by
  have hlog : w.getDirData.2.log = w.log ++ (w.getDirData.1.map (.get ∘ .dirData)).toList := rfl
  rw [World.balance, World.balance, sameTable_getDirData.held, hlog, h, Option.map_none,
    Option.toList_none, List.append_nil]

lemma balance_getKey_none (h : w.getKey.1 = none) : w.getKey.2.balance o = w.balance o := by
  have hlog : w.getKey.2.log = w.log ++ (w.getKey.1.map (.get ∘ .key)).toList := rfl
  rw [World.balance, World.balance, sameTable_getKey.held, hlog, h, Option.map_none,
    Option.toList_none, List.append_nil]

lemma balance_releaseEntry : (w.releaseEntry p).balance o = w.balance o + unit (.entry p) o :=
  balance_of_release (.entry p) ⟨rfl, rfl⟩ rfl

lemma balance_releaseDirData : (w.releaseDirData p).balance o = w.balance o + unit (.dirData p) o :=
  balance_of_release (.dirData p) ⟨rfl, rfl⟩ rfl

lemma balance_releaseFsaldataKey :
    (w.releaseFsaldataKey k).balance o = w.balance o + unit (.key k) o :=
  balance_of_release (.key k) ⟨rfl, rfl⟩ rfl

lemma balance_releaseParent : (w.releaseParent p).balance o = w.balance o + unit (.parent p) o :=
  balance_of_release (.parent p) ⟨rfl, rfl⟩ rfl

/-- Parent links go back to their pool. -/
lemma releaseParents_spec (l : List ℕ) (w : World H) :
    SameTable w (l.foldl World.releaseParent w) ∧
      (l.foldl World.releaseParent w).poolKey = w.poolKey ∧
      ∀ o, (l.foldl World.releaseParent w).balance o = w.balance o + (l.map Obj.parent).count o := by
  induction l generalizing w with
  | nil => exact ⟨⟨rfl, rfl⟩, rfl, fun o => by simp⟩
  | cons p rest ih =>
    obtain ⟨hsame, hkey, hbal⟩ := ih (w.releaseParent p)
    refine ⟨⟨hsame.heap, hsame.ht⟩, hkey, fun o => ?_⟩
    rw [List.foldl_cons, hbal, balance_releaseParent, List.map_cons, List.count_cons, unit]
    simp only [beq_iff_eq]
    split_ifs <;> omega

/-- The data of a directory and the content of a file go back, and no more. -/
lemma releaseContents_spec (w : World H) (e : ℕ) :
    SameTable w (w.releaseContents e) ∧ (w.releaseContents e).poolKey = w.poolKey ∧
      ∀ o, (w.releaseContents e).balance o = w.balance o + (contents w.heap e).count o := by
  obtain ⟨hsame, hkey, hbal⟩ := releaseParents_spec (w.heap e).parentList w
  unfold World.releaseContents contents
  dsimp only
  rw [hsame.heap]
  by_cases hdir : isDir (w.heap e).type = true
  · rw [if_pos hdir, if_pos hdir]
    refine ⟨⟨hsame.heap, hsame.ht⟩, hkey, fun o => ?_⟩
    rw [balance_releaseDirData, hbal, List.count_append, List.count_singleton, unit]
    simp only [beq_iff_eq]
    split_ifs <;> omega
  · rw [if_neg hdir, if_neg hdir]
    refine ⟨hsame, hkey, fun o => ?_⟩
    rw [hbal, List.append_nil]

/-- An entry that is not in the table does not count. -/
lemma balance_modify (f : Entry H → Entry H) (hfree : ∀ r ∈ w.ht, r.entry ≠ e) :
    (w.modify e f).balance o = w.balance o := by
  have hheld : (w.modify e f).held = w.held := by
    rw [World.held, World.held, List.flatMap_def, List.flatMap_def]
    congr 1
    apply List.map_congr_left
    intro r hr
    have hheap : (w.modify e f).heap r.entry = w.heap r.entry :=
      Function.update_of_ne (hfree r hr) _ _
    rw [objects, objects, contents_congr hheap]
  rw [World.balance, World.balance, hheld]
  rfl

lemma getKey_isSome (h : w.poolKey ≠ []) : w.getKey.1.isSome = true := by
  rw [World.getKey, getPrealloc]
  cases hpool : w.poolKey with
  | nil => exact absurd hpool h
  | cons k rest => rfl

section Table
variable [DecidableEq H] {data : FsalData H}

/-- A record that is deleted does not count any more. -/
lemma hashTableDel_spec (h : hashTableGet w.ht data = some r) :
    ∃ w', w.hashTableDel data = some (r, w') ∧ w'.heap = w.heap ∧ w'.poolKey = w.poolKey ∧
      (∀ data' ≠ data, hashTableGet w'.ht data' = hashTableGet w.ht data') ∧
      ∀ o, w'.balance o = w.balance o - (objects w.heap r).count o := by
  obtain ⟨hr, before, after, hht, hbefore⟩ := List.find?_eq_some_iff_append.mp h
  have herase : (w.ht.eraseP fun r => r.data = data) = before ++ after := by
    rw [hht, List.eraseP_append_right _ (by simpa using hbefore)]
    exact congrArg (before ++ ·) (List.eraseP_cons_of_pos hr)
  refine ⟨{ w with ht := w.ht.eraseP fun r => r.data = data }, by rw [World.hashTableDel, h]; rfl,
    rfl, rfl, fun data' hne => ?_, fun o => ?_⟩
  · dsimp only
    have hne : ¬ (decide (r.data = data') = true) := by
      rw [decide_eq_true_eq] at hr ⊢
      exact fun heq => hne (heq.symm.trans hr)
    rw [herase, hashTableGet, hashTableGet, hht, List.find?_append, List.find?_append]
    have hskip := List.find?_cons_of_neg (p := fun r : Record H => r.data = data') (l := after) hne
    exact congrArg (Option.or _) hskip.symm
  · rw [World.balance, World.balance, World.held, World.held]
    dsimp only
    rw [herase, hht, List.flatMap_append, List.flatMap_append, List.flatMap_cons,
      List.count_append, List.count_append, List.count_append]
    omega

/-! ## Cached entries -/

/-- The entry is in the hash table, under its own key. -/
def Cached (w : World H) (data : FsalData H) (e : ℕ) : Prop :=
  fsaldata w.heap e = some (some data) ∧ ∃ r, hashTableGet w.ht data = some r ∧ r.entry = e

lemma Cached.of_rest (h : Cached w data c) (hheap : w'.heap = w.heap)
    (hget : hashTableGet w'.ht data = hashTableGet w.ht data) : Cached w' data c := by
  rw [Cached, hheap, hget]
  exact h

/-- What is left once an entry and its key are back in their pools. -/
structure Gone (w w' : World H) (data : FsalData H) : Prop where
  heap : w'.heap = w.heap
  rest : ∀ data' ≠ data, hashTableGet w'.ht data' = hashTableGet w.ht data'
  balance : ∀ o, w'.balance o = w.balance o
  key : w'.getKey.1.isSome = true

/-- The record of an entry is taken out of the table; its key, the key that was used to find it and
the contents of the entry are released. The entry is still to be released. -/
lemma release_spec (hc : Cached w data e) (k : KeyPtr) :
    ∃ r w', w.hashTableDel data = some (r, w') ∧
      ∀ w'', w'' = ((w'.releaseFsaldataKey r.key).releaseFsaldataKey k).releaseContents e →
        w''.heap = w.heap ∧ w''.poolKey ≠ [] ∧
        (∀ data' ≠ data, hashTableGet w''.ht data' = hashTableGet w.ht data') ∧
        ∀ o, w''.balance o = w.balance o + unit (.key k) o - unit (.entry e) o := by
  obtain ⟨_, r, hget, hentry⟩ := hc
  obtain ⟨w', hdel, hheap, _, hrest, hbal⟩ := hashTableDel_spec hget
  refine ⟨r, w', hdel, ?_⟩
  rintro w'' rfl
  obtain ⟨hsame, hkey, hcontents⟩ :=
    releaseContents_spec ((w'.releaseFsaldataKey r.key).releaseFsaldataKey k) e
  refine ⟨hsame.heap.trans hheap, ?_, fun data' hne => ?_, fun o => ?_⟩
  · rw [hkey]
    exact List.cons_ne_nil _ _
  · rw [← hrest data' hne]
    exact congrArg (hashTableGet · data') hsame.ht
  · have hobjects : (objects w.heap r).count o =
        unit (.key r.key) o + unit (.entry e) o + (contents w.heap e).count o := by
      rw [objects, hentry, List.count_cons, List.count_cons, unit, unit]
      simp only [beq_iff_eq]
      split_ifs <;> omega
    have hheap' : ((w'.releaseFsaldataKey r.key).releaseFsaldataKey k).heap = w.heap := hheap
    rw [hcontents, balance_releaseFsaldataKey, balance_releaseFsaldataKey, hbal, hobjects, hheap']
    omega

/-- An entry is gone after its release. -/
lemma gone_of_release (hc : Cached w data e) (hkey : w.getKey.1 = some k) :
    ∃ r w', w.getKey.2.hashTableDel data = some (r, w') ∧ Gone w
      ((((w'.releaseFsaldataKey r.key).releaseFsaldataKey k).releaseContents e).releaseEntry e)
      data := by
  have hc' : Cached w.getKey.2 data e :=
    hc.of_rest sameTable_getKey.heap (congrArg (hashTableGet · data) sameTable_getKey.ht)
  obtain ⟨r, w', hdel, hspec⟩ := release_spec hc' k
  obtain ⟨hheap, hpool, hrest, hbal⟩ := hspec _ rfl
  refine ⟨r, w', hdel, hheap, hrest, fun o => ?_, getKey_isSome hpool⟩
  rw [balance_releaseEntry, hbal, balance_getKey hkey]
  omega

/-- The pointer and the `pdir_cont` fields lead through these entries. -/
def Linked (heap : ℕ → Entry H) : Option ℕ → List ℕ → Prop
  | p, [] => p = none
  | p, c :: rest => p = some c ∧ Linked heap (heap c).pdirCont rest

omit [DecidableEq H] in
/-- The walk through the extents ends at the last one. -/
lemma chain_of_linked {heap : ℕ → Entry H} {l : List ℕ} {p : Option ℕ} (h : Linked heap p l)
    {fuel : ℕ} (hfuel : l.length ≤ fuel) : chain heap fuel p = some l := by
  induction l generalizing p fuel with
  | nil =>
    rw [show p = none from h]
    cases fuel <;> rfl
  | cons c rest ih =>
    obtain ⟨rfl, hrest⟩ := h
    obtain ⟨n, rfl⟩ : ∃ n, fuel = n + 1 := Nat.exists_eq_succ_of_ne_zero (by
      rintro rfl
      exact absurd hfuel (Nat.not_succ_le_zero _))
    rw [chain, ih hrest (Nat.le_of_succ_le_succ hfuel)]
    rfl

/-- The `DIR_CONTINUE` entries with their keys. -/
structure Conts (w : World H) (conts : List (FsalData H × ℕ)) : Prop where
  type : ∀ c ∈ conts, (w.heap c.2).type = .dirContinue
  cached : ∀ c ∈ conts, Cached w c.1 c.2
  nodup : (conts.map Prod.fst).Nodup

/-- The entry is in the hash table, and so are the `DIR_CONTINUE` entries of its chain. -/
structure Intact (w : World H) (e : ℕ) (data : FsalData H) (conts : List (FsalData H × ℕ)) :
    Prop where
  cached : Cached w data e
  members : Conts w conts
  fresh : data ∉ conts.map Prod.fst
  linked : if (w.heap e).type = .dirBeginning then
    Linked w.heap (w.heap e).pdirCont (conts.map Prod.snd) else conts = []

/-- The continuations left after the first. -/
lemma Conts.tail {a : FsalData H × ℕ} {conts : List (FsalData H × ℕ)} (h : Conts w (a :: conts))
    (hgone : Gone w w' a.1) : Conts w' conts := by
  have hnd := List.nodup_cons.mp h.nodup
  refine ⟨fun c hc => ?_, fun c hc => ?_, hnd.2⟩
  · rw [hgone.heap]
    exact h.type c (List.mem_cons_of_mem a hc)
  · refine (h.cached c (List.mem_cons_of_mem a hc)).of_rest hgone.heap (hgone.rest c.1 ?_)
    exact fun heq => hnd.1 (List.mem_map.mpr ⟨c, hc, heq⟩)

/-! ## `cache_inode_kill_entry` -/

/-- An extent is killed if there is a key for it; if not, the function fails. -/
lemma killCont_spec (fuel : ℕ) (hc : Cached w data c) (htype : (w.heap c).type = .dirContinue) :
    if w.getKey.1.isSome then
      ∃ w', cacheInodeKillEntry (fuel + 1) c w = some (.success, w') ∧ Gone w w' data
    else cacheInodeKillEntry (fuel + 1) c w = none := by
  rw [cacheInodeKillEntry, hc.1]
  dsimp only
  rw [World.cacheInodeFsaldata2Key, if_pos rfl]
  cases hget : w.getKey with
  | mk key w₁ =>
    have hkey : w.getKey.1 = key := by rw [hget]
    obtain rfl : w.getKey.2 = w₁ := by rw [hget]
    cases key with
    | none => rfl
    | some k =>
      dsimp only [Option.isSome_some]
      rw [if_pos rfl, sameTable_getKey.heap, if_neg (by rw [htype]; decide)]
      obtain ⟨r, w', hdel, hgone⟩ := gone_of_release hc hkey
      refine ⟨_, ?_, hgone⟩
      show Option.map _ (some w.getKey.2) = _
      rw [Option.map_some, hdel]

/-- What is left once the entries of a list are back in their pools. -/
structure AllGone (w w' : World H) (gone : List (FsalData H)) : Prop where
  heap : w'.heap = w.heap
  rest : ∀ data ∉ gone, hashTableGet w'.ht data = hashTableGet w.ht data
  balance : ∀ o, w'.balance o = w.balance o
  key : w.getKey.1.isSome = true → w'.getKey.1.isSome = true

lemma AllGone.cons {w₁ : World H} {gone : List (FsalData H)} (h : Gone w w₁ data)
    (hrest : AllGone w₁ w' gone) : AllGone w w' (data :: gone) where
  heap := hrest.heap.trans h.heap
  rest data' hnot := by
    rw [List.mem_cons, not_or] at hnot
    rw [hrest.rest data' hnot.2, h.rest data' hnot.1]
  balance o := (hrest.balance o).trans (h.balance o)
  key _ := hrest.key h.key

/-- The extents are killed one after the other. -/
lemma killConts_spec (fuel : ℕ) {conts : List (FsalData H × ℕ)} (h : Conts w conts)
    (hkey : conts ≠ [] → w.getKey.1.isSome = true) :
    ∃ w', (conts.map Prod.snd).foldlM
        (fun w c => (cacheInodeKillEntry (fuel + 1) c w).map Prod.snd) w = some w' ∧
      AllGone w w' (conts.map Prod.fst) := by
  induction conts generalizing w with
  | nil => exact ⟨w, rfl, rfl, fun _ _ => rfl, fun _ => rfl, fun hk => hk⟩
  | cons a conts ih =>
    have hspec := killCont_spec fuel (h.cached a List.mem_cons_self) (h.type a List.mem_cons_self)
    rw [if_pos (hkey (List.cons_ne_nil _ _))] at hspec
    obtain ⟨w₁, hkill, hgone⟩ := hspec
    obtain ⟨w', hfold, hall⟩ := ih (h.tail hgone) (fun _ => hgone.key)
    refine ⟨w', ?_, AllGone.cons hgone hall⟩
    rw [List.map_cons, List.foldlM_cons, hkill]
    exact hfold

/-- The keys that `cache_inode_kill_entry` needs at one time can be had. -/
def KillKeys (w : World H) (e : ℕ) : Prop :=
  w.getKey.1.isSome = true ∧
    ((w.heap e).type = .dirBeginning → (w.heap e).pdirCont ≠ none → w.getKey.2.getKey.1.isSome = true)

/-- The continuations by walking the chain. -/
lemma Intact.conts_eq {conts : List (FsalData H × ℕ)} (h : Intact w e data conts) (fuel : ℕ)
    (hfuel : conts.length ≤ fuel) :
    (if (w.heap e).type = .dirBeginning then chain w.heap fuel (w.heap e).pdirCont else some []) =
      some (conts.map Prod.snd) := by
  have hchain := h.linked
  by_cases htype : (w.heap e).type = .dirBeginning
  · rw [if_pos htype] at hchain ⊢
    exact chain_of_linked hchain (by rwa [List.length_map])
  · rw [if_neg htype] at hchain ⊢
    rw [hchain, List.map_nil]

/-- A directory without extents has no first one. -/
lemma Intact.conts_nil_iff {conts : List (FsalData H × ℕ)} (h : Intact w e data conts) :
    conts = [] ↔ ((w.heap e).type = .dirBeginning → (w.heap e).pdirCont = none) := by
  have hchain := h.linked
  by_cases htype : (w.heap e).type = .dirBeginning
  · rw [if_pos htype] at hchain
    cases conts with
    | nil => exact ⟨fun _ _ => hchain, fun _ => rfl⟩
    | cons a conts =>
      constructor
      · intro hnil
        cases hnil
      · intro hnone
        have hsome : (w.heap e).pdirCont = some a.2 := hchain.1
        rw [hnone htype] at hsome
        cases hsome
  · rw [if_neg htype] at hchain
    exact ⟨fun _ hdir => absurd hdir htype, fun _ => hchain⟩

/-- A killed entry gives back all that it has. -/
lemma kill_spec {conts : List (FsalData H × ℕ)} (h : Intact w e data conts) (hkeys : KillKeys w e)
    {fuel : ℕ} (hfuel : conts.length + 2 ≤ fuel) :
    ∃ w', cacheInodeKillEntry fuel e w = some (.success, w') ∧ ∀ o, w'.balance o = w.balance o := by
  obtain ⟨n, rfl⟩ : ∃ n, fuel = n + 2 := ⟨fuel - 2, by omega⟩
  obtain ⟨k, hk⟩ := Option.isSome_iff_exists.mp hkeys.1
  -- the key of the entry is taken before its chain is killed
  have hmembers : Conts w.getKey.2 conts :=
    ⟨h.members.type, h.members.cached, h.members.nodup⟩
  obtain ⟨w₁, hfold, hall⟩ := killConts_spec n hmembers fun hne => by
    apply hkeys.2
    · by_contra htype
      exact hne (h.conts_nil_iff.mpr fun hdir => absurd hdir htype)
    · intro hnone
      exact hne (h.conts_nil_iff.mpr fun _ => hnone)
  have hcached : Cached w₁ data e := by
    refine h.cached.of_rest hall.heap ?_
    rw [hall.rest data h.fresh]
    rfl
  obtain ⟨r, w', hdel, hspec⟩ := release_spec hcached k
  obtain ⟨_, _, _, hbal⟩ := hspec _ rfl
  refine ⟨((((w'.releaseFsaldataKey r.key).releaseFsaldataKey k).releaseContents e).releaseEntry e),
    ?_, fun o => ?_⟩
  · have hget : w.getKey = (some k, w.getKey.2) := Prod.ext hk rfl
    rw [cacheInodeKillEntry, h.cached.1]
    dsimp only
    rw [World.cacheInodeFsaldata2Key, if_pos rfl, hget]
    dsimp only
    have hconts := h.conts_eq (n + 1) (by omega)
    rw [sameTable_getKey.heap, hconts, Option.bind_some, hfold, Option.map_some, hdel]
  · rw [balance_releaseEntry, hbal, hall.balance, balance_getKey hk]
    omega

/-- Without keys for the entry and its extents the kill fails. -/
lemma kill_none {conts : List (FsalData H × ℕ)} (h : Intact w e data conts)
    (hkeys : ¬ KillKeys w e) {fuel : ℕ} (hfuel : conts.length + 2 ≤ fuel) :
    cacheInodeKillEntry fuel e w = none := by
  obtain ⟨n, rfl⟩ : ∃ n, fuel = n + 2 := ⟨fuel - 2, by omega⟩
  rw [cacheInodeKillEntry, h.cached.1]
  dsimp only
  rw [World.cacheInodeFsaldata2Key, if_pos rfl]
  cases hget : w.getKey with
  | mk key w₁ =>
    obtain rfl : w.getKey.2 = w₁ := by rw [hget]
    cases key with
    | none => rfl
    | some k =>
      dsimp only
      have hconts := h.conts_eq (n + 1) (by omega)
      rw [sameTable_getKey.heap, hconts, Option.bind_some]
      cases hlist : conts with
      | nil =>
        -- the entry is alone, and its key was there
        refine absurd ⟨by rw [hget]; rfl, fun hdir hne => ?_⟩ hkeys
        exact absurd (h.conts_nil_iff.mp hlist hdir) hne
      | cons a rest =>
        have hsecond : ¬ w.getKey.2.getKey.1.isSome = true :=
          fun hsome => hkeys ⟨by rw [hget]; rfl, fun _ _ => hsome⟩
        have ha : a ∈ conts := by
          rw [hlist]
          exact List.mem_cons_self
        have hspec := killCont_spec (w := w.getKey.2) n (h.members.cached a ha) (h.members.type a ha)
        rw [if_neg hsecond] at hspec
        rw [List.map_cons, List.foldlM_cons, hspec]
        rfl

/-! ## `cache_inode_clean_internal` -/

/-- The record is deleted, and the key that was taken stays out of its pool. -/
lemma cleanInternal_spec (hc : Cached w data e) :
    if w.getKey.1.isSome then
      ∃ w', cacheInodeCleanInternal e w = some (.success, w') ∧ w'.heap = w.heap ∧
        w'.poolKey ≠ [] ∧ (∀ data' ≠ data, hashTableGet w'.ht data' = hashTableGet w.ht data') ∧
        ∀ o, w'.balance o = w.balance o - unit (.entry e) o
    else cacheInodeCleanInternal e w = some (.inconsistentEntry, w.getKey.2) := by
  rw [cacheInodeCleanInternal, hc.1]
  dsimp only
  rw [World.cacheInodeFsaldata2Key, if_pos rfl]
  cases hget : w.getKey with
  | mk key w₁ =>
    have hkey : w.getKey.1 = key := by rw [hget]
    obtain rfl : w.getKey.2 = w₁ := by rw [hget]
    cases key with
    | none => rfl
    | some k =>
      dsimp only [Option.isSome_some]
      rw [if_pos rfl]
      have hc' : Cached w.getKey.2 data e :=
        hc.of_rest sameTable_getKey.heap (congrArg (hashTableGet · data) sameTable_getKey.ht)
      obtain ⟨r, w', hdel, hspec⟩ := release_spec hc' k
      obtain ⟨hheap, hpool, hrest, hbal⟩ := hspec _ rfl
      refine ⟨_, by rw [hdel], hheap, hpool, hrest, fun o => ?_⟩
      rw [hbal, balance_getKey hkey]
      omega

/-- The extents of a removed directory go back. -/
lemma removeConts_spec {conts : List (FsalData H × ℕ)} (h : Conts w conts) {p : Option ℕ}
    (hlinked : Linked w.heap p (conts.map Prod.snd)) (hkey : w.getKey.1.isSome = true) {fuel : ℕ}
    (hfuel : conts.length ≤ fuel) :
    ∃ w', removeLoop fuel p w = some (.success, w') ∧ ∀ o, w'.balance o = w.balance o := by
  induction conts generalizing w p fuel with
  | nil =>
    rw [show p = none from hlinked]
    exact ⟨w, by cases fuel <;> rfl, fun _ => rfl⟩
  | cons a conts ih =>
    obtain ⟨rfl, hnext⟩ := hlinked
    obtain ⟨n, rfl⟩ : ∃ n, fuel = n + 1 := ⟨fuel - 1, by rw [List.length_cons] at hfuel; omega⟩
    have hspec := cleanInternal_spec (h.cached a List.mem_cons_self)
    rw [if_pos hkey] at hspec
    obtain ⟨w₁, hclean, hheap, hpool, hrest, hbal⟩ := hspec
    have hgone : Gone w (w₁.releaseEntry a.2) a.1 :=
      ⟨hheap, hrest, fun o => by rw [balance_releaseEntry, hbal]; omega, getKey_isSome hpool⟩
    rw [← hheap] at hnext
    obtain ⟨w', hloop, hbal'⟩ := ih (h.tail hgone) hnext hgone.key (Nat.le_of_succ_le_succ hfuel)
    refine ⟨w', ?_, fun o => (hbal' o).trans (hgone.balance o)⟩
    rw [removeLoop, hclean, Option.bind_some]
    dsimp only
    rw [if_neg (by decide), hheap, h.type a List.mem_cons_self, ← hheap]
    exact hloop

/-- A removal gives back what the entry has, or leaves it. -/
lemma remove_spec {conts : List (FsalData H × ℕ)} (h : Intact w e data conts)
    (htype : (w.heap e).type ≠ .dirContinue) {fuel : ℕ} (hfuel : conts.length + 1 ≤ fuel) :
    ∃ status w', removeEntry fuel e w = some (status, w') ∧ ∀ o, w'.balance o = w.balance o := by
  obtain ⟨n, rfl⟩ : ∃ n, fuel = n + 1 := ⟨fuel - 1, by omega⟩
  have hspec := cleanInternal_spec h.cached
  rw [removeEntry, removeLoop]
  by_cases hkey : w.getKey.1.isSome = true
  · rw [if_pos hkey] at hspec
    obtain ⟨w₁, hclean, hheap, hpool, hrest, hbal⟩ := hspec
    have hgone : Gone w (w₁.releaseEntry e) data :=
      ⟨hheap, hrest, fun o => by rw [balance_releaseEntry, hbal]; omega, getKey_isSome hpool⟩
    rw [hclean, Option.bind_some]
    dsimp only
    rw [if_neg (by decide)]
    have hmembers : Conts w₁ conts :=
      ⟨fun c hc => by rw [hheap]; exact h.members.type c hc,
        fun c hc => (h.members.cached c hc).of_rest hheap (hrest c.1 fun heq =>
          h.fresh (List.mem_map.mpr ⟨c, hc, heq⟩)), h.members.nodup⟩
    have hlast : ∀ w' : World H, (∀ o, w'.balance o = w₁.balance o) →
        ∀ o, (w'.releaseEntry e).balance o = w.balance o := by
      intro w' hbal' o
      rw [balance_releaseEntry, hbal', hbal]
      omega
    -- a directory goes on with its chain, another entry has none
    have hchain := h.linked
    rw [hheap]
    cases htyp : (w.heap e).type with
    | dirContinue => exact absurd htyp htype
    | dirBeginning =>
      rw [if_pos htyp, ← hheap] at hchain
      rw [← hheap]
      have hlen : conts.length ≤ n := Nat.le_of_succ_le_succ hfuel
      obtain ⟨w', hloop, hbal'⟩ := removeConts_spec hmembers hchain (getKey_isSome hpool) hlen
      exact ⟨.success, w'.releaseEntry e, (congrArg (Option.map _) hloop).trans rfl, hlast w' hbal'⟩
    | _ => exact ⟨.success, w₁.releaseEntry e, by cases n <;> rfl, hlast w₁ fun _ => rfl⟩
  · rw [if_neg hkey] at hspec
    rw [hspec]
    have hnone : w.getKey.1 = none := by simpa using hkey
    exact ⟨.inconsistentEntry, w.getKey.2, rfl, fun o => balance_getKey_none hnone⟩

end Table

end Ganesha.CacheInode.Pools
