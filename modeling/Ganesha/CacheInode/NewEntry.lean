import Ganesha.CacheInode.EntryPoolsTheorems

/-!
# The objects of a new entry
-/

namespace Ganesha.CacheInode.Pools
open Ganesha.Pools (Stocked)

variable {H : Type} [DecidableEq H] {w w' : World H} {e d : ℕ} {o : Obj} {a : NewArgs H}
  {env : NewEnv}

/-! ## The entry is filled -/

/-- The entry is in no record. -/
def Free (w : World H) (e : ℕ) : Prop := ∀ r ∈ w.ht, r.entry ≠ e

omit [DecidableEq H] in
lemma Free.modify (h : Free w e) (f : Entry H → Entry H) : Free (w.modify e f) e := h

omit [DecidableEq H] in
lemma Free.balance (h : Free w e) (f : Entry H → Entry H) :
    (w.modify e f).balance o = w.balance o := balance_modify f h

/-- The types for which nothing is created. -/
def Unknown (type : FileType) : Prop :=
  type = .unassigned ∨ type = .fsJunction ∨ type = .recycled

instance (type : FileType) : Decidable (Unknown type) := by unfold Unknown; infer_instance

/-- `pentry_dir_prev` is a directory if it is used. -/
def PrevOk (w : World H) (a : NewArgs H) : Prop :=
  a.type = .dirContinue → isDir (w.heap a.entryDirPrev).type = true

/-- The symbolic link could not be copied. -/
def LinkLost (a : NewArgs H) (env : NewEnv) : Prop :=
  a.type = .symbolicLink ∧ env.pathcpy.isSome = true

instance (a : NewArgs H) (env : NewEnv) : Decidable (LinkLost a env) := by
  unfold LinkLost
  infer_instance

instance (w : World H) (a : NewArgs H) : Decidable (PrevOk w a) := by
  unfold PrevOk
  infer_instance

omit [DecidableEq H] in
lemma heap_modify_self (f : Entry H → Entry H) : (w.modify e f).heap e = f (w.heap e) :=
  Function.update_self ..

omit [DecidableEq H] in
lemma heap_modify_of_ne (f : Entry H → Entry H) (h : d ≠ e) : (w.modify e f).heap d = w.heap d :=
  Function.update_of_ne h ..

/-- The entry for which `cache_inode_valid` does its work: the entry itself, or the directory of a
`DIR_CONTINUE`. -/
def Begins (heap : ℕ → Entry H) (e b : ℕ) : Prop :=
  if (heap e).type = .dirContinue then (heap e).pdirBegin = some b ∧ (heap b).type = .dirBeginning
  else b = e

/-- The directory of a `DIR_CONTINUE` before the new one is not the entry that is filled. -/
def PrevBegins (w : World H) (a : NewArgs H) (e : ℕ) : Prop :=
  a.type = .dirContinue → (w.heap a.entryDirPrev).type = .dirContinue →
    ∃ b ≠ e, (w.heap a.entryDirPrev).pdirBegin = some b ∧ (w.heap b).type = .dirBeginning

/-- What the `switch` over the type leaves of an entry that goes on. -/
structure Filled (w w' : World H) (a : NewArgs H) (env : NewEnv) (e : ℕ) : Prop where
  ht : w'.ht = w.ht
  key : w'.getKey.1 = w.getKey.1
  type : (w'.heap e).type = a.type
  dirData : (w'.heap e).pdirData = (w.heap e).pdirData
  parents : (w'.heap e).parentList = []
  begins : ∃ b, Begins w'.heap e b
  balance : ∀ o, w'.balance o = w.balance o + if LinkLost a env then unit (.entry e) o else 0

omit [DecidableEq H] in
lemma modify_modify (f g : Entry H → Entry H) :
    (w.modify e f).modify e g = w.modify e fun entry => g (f entry) := by
  have hheap : ((w.modify e f).modify e g).heap = (w.modify e fun entry => g (f entry)).heap := by
    show Function.update (Function.update w.heap e _) e (g (Function.update w.heap e _ e)) = _
    rw [Function.update_self, Function.update_idem]
    rfl
  exact congrArg (fun heap => ({ w with heap } : World H)) hheap

omit [DecidableEq H] in
/-- An entry is filled if its type and its first directory are set. -/
lemma filled_of_modify (hfree : Free w e) (hlost : ¬ LinkLost a env) (f : Entry H → Entry H)
    (hf : ∀ entry, (f entry).type = a.type ∧ (f entry).pdirData = entry.pdirData ∧
      (f entry).parentList = [])
    (hbegins : a.type = .dirContinue → ∃ b ≠ e, (f (w.heap e)).pdirBegin = some b ∧
      (w.heap b).type = .dirBeginning) : Filled w (w.modify e f) a env e where
  ht := rfl
  key := rfl
  type := by rw [heap_modify_self, (hf _).1]
  dirData := by rw [heap_modify_self, (hf _).2.1]
  parents := by rw [heap_modify_self, (hf _).2.2]
  begins := by
    unfold Begins
    rw [heap_modify_self, (hf _).1]
    by_cases htype : a.type = .dirContinue
    · obtain ⟨b, hne, hbegin, hdir⟩ := hbegins htype
      refine ⟨b, ?_⟩
      rw [if_pos htype, heap_modify_of_ne _ hne]
      exact ⟨hbegin, hdir⟩
    · exact ⟨e, if_neg htype ▸ rfl⟩
  balance o := by rw [hfree.balance, if_neg hlost, add_zero]

omit [DecidableEq H] in
/-- An unknown type or a bad previous directory fails, and the entry stays out of its pool. -/
lemma initObject_fails (hfree : Free w e) (hprev : a.type = .dirContinue → a.entryDirPrev ≠ e)
    (h : Unknown a.type ∨ ¬ PrevOk w a) :
    ∃ status w', initObject a env e w = (some status, w') ∧
      ∀ o, w'.balance o = w.balance o + unit (.entry e) o := by
  have hbal (f : Entry H → Entry H) (o : Obj) :
      ((w.modify e f).releaseEntry e).balance o = w.balance o + unit (.entry e) o := by
    rw [balance_releaseEntry, hfree.balance]
  rcases h with hunknown | hprevOk
  · rw [initObject]
    rcases hunknown with htype | htype | htype <;> rw [htype] <;> exact ⟨_, _, rfl, hbal _⟩
  · rw [PrevOk, Classical.not_imp] at hprevOk
    obtain ⟨htype, hdir⟩ := hprevOk
    have hne := hprev htype
    rw [initObject, htype]
    dsimp only
    rw [heap_modify_of_ne _ hne, heap_modify_of_ne _ hne]
    cases hprevType : (w.heap a.entryDirPrev).type with
    | dirBeginning => exact absurd (by rw [hprevType]; rfl) hdir
    | dirContinue => exact absurd (by rw [hprevType]; rfl) hdir
    | _ =>
      refine ⟨_, _, rfl, fun o => ?_⟩
      rw [balance_releaseEntry, (hfree.modify _).balance, hfree.balance]

omit [DecidableEq H] in
/-- In the other cases the entry is filled. -/
lemma initObject_goes (hfree : Free w e) (hprev : a.type = .dirContinue → a.entryDirPrev ≠ e)
    (hprevBegins : PrevBegins w a e) (hknown : ¬ Unknown a.type) (hprevOk : PrevOk w a) :
    ∃ w', initObject a env e w = (none, w') ∧ Filled w w' a env e := by
  have hkept : a.type ≠ .symbolicLink → ¬ LinkLost a env := fun hne h => hne h.1
  rw [initObject]
  cases htype : a.type with
  | unassigned => exact absurd (Or.inl htype) hknown
  | fsJunction => exact absurd (Or.inr (Or.inl htype)) hknown
  | recycled => exact absurd (Or.inr (Or.inr htype)) hknown
  | dirContinue =>
    have hne := hprev htype
    have hdir := hprevOk htype
    have hlost := hkept (by rw [htype]; decide)
    dsimp only
    rw [heap_modify_of_ne _ hne, heap_modify_of_ne _ hne, ← htype]
    cases hprevType : (w.heap a.entryDirPrev).type with
    | dirBeginning =>
      refine ⟨_, rfl, ?_⟩
      simp only [modify_modify]
      refine filled_of_modify hfree hlost _ (fun _ => ⟨rfl, rfl, rfl⟩) fun _ => ?_
      exact ⟨a.entryDirPrev, hne, rfl, hprevType⟩
    | dirContinue =>
      refine ⟨_, rfl, ?_⟩
      simp only [modify_modify]
      exact filled_of_modify hfree hlost _ (fun _ => ⟨rfl, rfl, rfl⟩) fun _ =>
        hprevBegins htype hprevType
    | _ =>
      rw [hprevType] at hdir
      cases hdir
  | symbolicLink =>
    refine ⟨_, rfl, ?_⟩
    rw [modify_modify, ← htype]
    by_cases hpathcpy : env.pathcpy.isSome = true
    · -- the entry is released, and stays where it is
      rw [if_pos hpathcpy]
      refine ⟨rfl, rfl, ?_, ?_, ?_, ⟨e, ?_⟩, fun o => ?_⟩
      · show (Function.update w.heap e _ e).type = _
        rw [Function.update_self]
      · show (Function.update w.heap e _ e).pdirData = _
        rw [Function.update_self]
      · show (Function.update w.heap e _ e).parentList = _
        rw [Function.update_self]
      · have hlink : a.type ≠ .dirContinue := by
          rw [htype]
          decide
        have hheap (w : World H) : (w.releaseEntry e).heap = w.heap := rfl
        unfold Begins
        rw [hheap, heap_modify_self, if_neg hlink]
      · rw [balance_releaseEntry, hfree.balance, if_pos ⟨htype, hpathcpy⟩]
    · rw [if_neg hpathcpy]
      exact filled_of_modify hfree (fun h => hpathcpy h.2) _ (fun _ => ⟨rfl, rfl, rfl⟩) fun hcont =>
        absurd (htype.symm.trans hcont) (by decide)
  | _ =>
    refine ⟨_, rfl, ?_⟩
    rw [modify_modify, ← htype]
    exact filled_of_modify hfree (hkept (by rw [htype]; decide)) _ (fun _ => ⟨rfl, rfl, rfl⟩)
      fun hcont => absurd (htype.symm.trans hcont) (by decide)

/-! ## The entry is put into the table -/

/-- The directory data that a new entry has got. -/
def dirUnit (type : FileType) (d : ℕ) (o : Obj) : ℤ := if isDir type then unit (.dirData d) o else 0

omit [DecidableEq H] in
lemma balance_cons (r : Record H) :
    ({ w with ht := r :: w.ht } : World H).balance o = w.balance o + (objects w.heap r).count o := by
  rw [World.balance, World.balance, World.held, World.held]
  dsimp only
  rw [List.flatMap_cons, List.count_append]
  omega

omit [DecidableEq H] in
/-- The objects of an entry. -/
lemma count_objects {heap : ℕ → Entry H} {data : FsalData H} {k : KeyPtr}
    (hparents : (heap e).parentList = []) :
    ((objects heap ⟨data, k, e⟩).count o : ℤ) =
      unit (.key k) o + unit (.entry e) o + dirUnit (heap e).type (heap e).pdirData o := by
  rw [objects, contents, dirUnit, hparents, List.map_nil, List.nil_append]
  cases isDir (heap e).type
  · simp only [Bool.false_eq_true, if_false, List.count_cons, List.count_nil, unit, beq_iff_eq]
    split_ifs <;> rfl
  · simp only [if_true, List.count_cons, List.count_nil, unit, beq_iff_eq]
    split_ifs <;> rfl

omit [DecidableEq H] in
/-- The validation keeps the entry, or its beginning goes to the pool. -/
lemma cacheInodeValid_eq {b : ℕ} (h : Begins w.heap e b) {fuel : ℕ} (hfuel : 2 ≤ fuel)
    (lruNewEntry : Bool) : cacheInodeValid lruNewEntry fuel (some e) w =
      some (if lruNewEntry then w else w.releaseEntry b) := by
  obtain ⟨n, rfl⟩ : ∃ n, fuel = n + 2 := ⟨fuel - 2, by omega⟩
  unfold Begins at h
  rw [cacheInodeValid]
  by_cases htype : (w.heap e).type = .dirContinue
  · rw [if_pos htype] at h ⊢
    have hdir : (w.heap b).type ≠ .dirContinue := by
      rw [h.2]
      decide
    rw [h.1, cacheInodeValid, if_neg hdir]
  · rw [if_neg htype] at h ⊢
    rw [h]

variable {fuel : ℕ}

omit [DecidableEq H] in
lemma insertEntry_none (hkey : w.getKey.1 = none) :
    ∃ r, insertEntry fuel a env e w = some r ∧
      ∀ o, r.2.2.balance o = w.balance o + unit (.key .argument) o := by
  have hget : w.getKey = (none, w.getKey.2) := Prod.ext hkey rfl
  rw [insertEntry, World.cacheInodeFsaldata2Key, if_pos rfl, hget]
  refine ⟨_, rfl, fun o => ?_⟩
  dsimp only
  rw [balance_releaseFsaldataKey, balance_getKey_none hkey]

omit [DecidableEq H] in
/-- With a key and a place in the table the entry is cached. -/
lemma insertEntry_success {k : KeyPtr} {b : ℕ} (hkey : w.getKey.1 = some k)
    (hset : env.testAndSet = true) (hparents : (w.heap e).parentList = [])
    (hbegins : Begins w.heap e b) (hfuel : 2 ≤ fuel) :
    ∃ r, insertEntry fuel a env e w = some r ∧ ∀ o, r.2.2.balance o = w.balance o +
      unit (.entry e) o + dirUnit (w.heap e).type (w.heap e).pdirData o +
        if env.lruNewEntry then 0 else unit (.entry b) o := by
  have hget : w.getKey = (some k, w.getKey.2) := Prod.ext hkey rfl
  have hvalid := @cacheInodeValid_eq H
    { w.getKey.2 with ht := ⟨a.fsdata, k, e⟩ :: w.getKey.2.ht } e b hbegins fuel hfuel
    env.lruNewEntry
  rw [insertEntry, World.cacheInodeFsaldata2Key, if_pos rfl, hget]
  dsimp only
  rw [if_pos hset, hvalid]
  refine ⟨_, rfl, fun o => ?_⟩
  have hbal : ({ w.getKey.2 with ht := ⟨a.fsdata, k, e⟩ :: w.getKey.2.ht } : World H).balance o =
      w.balance o + unit (.entry e) o + dirUnit (w.heap e).type (w.heap e).pdirData o := by
    rw [balance_cons, sameTable_getKey.heap, count_objects hparents, balance_getKey hkey]
    omega
  dsimp only
  cases env.lruNewEntry with
  | true => rw [if_pos rfl, hbal, if_pos rfl, add_zero]
  | false => rw [if_neg Bool.false_ne_true, balance_releaseEntry, hbal, if_neg Bool.false_ne_true]

omit [DecidableEq H] in
/-- The exit after a failed insertion. -/
lemma insertEntry_failure {k : KeyPtr} (hkey : w.getKey.1 = some k) (hset : ¬ env.testAndSet = true) :
    ∃ r, insertEntry fuel a env e w = some r ∧
      ∀ o, r.2.2.balance o = w.balance o + unit (.entry e) o - unit (.key k) o := by
  have hget : w.getKey = (some k, w.getKey.2) := Prod.ext hkey rfl
  rw [insertEntry, World.cacheInodeFsaldata2Key, if_pos rfl, hget]
  dsimp only
  rw [if_neg hset]
  refine ⟨_, rfl, fun o => ?_⟩
  dsimp only
  rw [balance_releaseEntry, balance_getKey hkey]
  omega

/-! ## The whole call -/

/-- The calls made for an entry that has what it needs let it come into the table. -/
def Completes (w : World H) (a : NewArgs H) (env : NewEnv) : Prop :=
  PrevOk w a ∧ ¬ LinkLost a env ∧ w.getKey.1.isSome = true ∧ env.testAndSet = true ∧
    env.lruNewEntry = true

/-- An entry that has got its directory data, if it needs any, is filled without a loss. -/
def Fills (w : World H) (a : NewArgs H) (env : NewEnv) : Prop :=
  if isDir a.type then env.rwLockInit = true ∧ attributesError a env = none ∧ Completes w a env
  else env.rwLockInit = false ∨
    match attributesError a env with
    | some err => err ≠ .stale
    | none => Unknown a.type ∨ Completes w a env

/-- The balance that an entry and its directory data have when they have been taken. -/
structure Got (w₀ w : World H) (a : NewArgs H) (e : ℕ) : Prop where
  free : Free w e
  prev : a.type = .dirContinue → a.entryDirPrev ≠ e
  prevType : a.type = .dirContinue → w.heap a.entryDirPrev = w₀.heap a.entryDirPrev
  prevBegins : PrevBegins w a e
  key : w.getKey.1 = w₀.getKey.1
  balance : ∀ o, w.balance o =
    w₀.balance o - unit (.entry e) o - dirUnit a.type (w.heap e).pdirData o

omit [DecidableEq H] in
/-- An entry given back balances unless its directory data stay out. -/
lemma Got.release_iff {w₀ : World H} (h : Got w₀ w a e)
    (hbal : ∀ o, w'.balance o = w.balance o + unit (.entry e) o) :
    (∀ o, w'.balance o = w₀.balance o) ↔ isDir a.type = false := by
  constructor
  · intro hall
    by_contra hdir
    have hlost := hall (.dirData (w.heap e).pdirData)
    rw [hbal, h.balance, dirUnit, if_pos (by simpa using hdir)] at hlost
    simp only [unit, if_true, reduceCtorEq, if_false] at hlost
    omega
  · intro hdir o
    rw [hbal, h.balance, dirUnit, hdir, if_neg (by decide)]
    omega

lemma isDir_of_unknown {type : FileType} (h : Unknown type) : isDir type = false := by
  rcases h with rfl | rfl | rfl <;> rfl

omit [DecidableEq H] in
/-- The insertion balances if nothing fails in it. -/
lemma Got.insert_iff {w₀ : World H} (h : Got w₀ w a e) (hfilled : Filled w w' a env e)
    (hfuel : 2 ≤ fuel) :
    ∃ r, insertEntry fuel a env e w' = some r ∧ ((∀ o, r.2.2.balance o = w₀.balance o) ↔
      ¬ LinkLost a env ∧ w₀.getKey.1.isSome = true ∧ env.testAndSet = true ∧
        env.lruNewEntry = true) := by
  have hkey : w'.getKey.1 = w₀.getKey.1 := hfilled.key.trans h.key
  have hbal (o : Obj) : w'.balance o = w₀.balance o - unit (.entry e) o -
      dirUnit a.type (w.heap e).pdirData o + if LinkLost a env then unit (.entry e) o else 0 := by
    rw [hfilled.balance, h.balance]
  -- the key is taken from its pool, or the pool is empty
  cases hk : w₀.getKey.1 with
  | none =>
    obtain ⟨r, hr, hrbal⟩ := @insertEntry_none H w' e a env fuel (hkey.trans hk)
    refine ⟨r, hr, iff_of_false (fun hall => ?_) (fun hall => Bool.noConfusion hall.2.1)⟩
    have hlost := hall (.key .argument)
    rw [hrbal, hbal] at hlost
    simp only [unit, dirUnit, if_true, reduceCtorEq, if_false, ite_self] at hlost
    omega
  | some k =>
    by_cases hset : env.testAndSet = true
    · obtain ⟨b, hbegins⟩ := hfilled.begins
      obtain ⟨r, hr, hrbal⟩ := @insertEntry_success H w' e a env fuel k b (hkey.trans hk) hset
        hfilled.parents hbegins hfuel
      refine ⟨r, hr, ?_⟩
      rw [hset, Option.isSome_some, eq_self, true_and, true_and]
      have htotal (o : Obj) : r.2.2.balance o =
          w₀.balance o + (if LinkLost a env then unit (.entry e) o else 0) +
            if env.lruNewEntry then 0 else unit (.entry b) o := by
        rw [hrbal, hbal, hfilled.type, hfilled.dirData]
        omega
      have hnonneg (p : ℕ) (o : Obj) : 0 ≤ unit (.entry p) o := by
        unfold unit
        split_ifs <;> omega
      constructor
      · intro hall
        constructor
        · intro hlink
          have hlost := hall (.entry e)
          have hpos := hnonneg b (.entry e)
          rw [htotal, if_pos hlink, unit, if_pos rfl] at hlost
          split_ifs at hlost <;> omega
        · by_contra hlru
          have hlost := hall (.entry b)
          have hpos := hnonneg e (.entry b)
          have hone : unit (.entry b) (.entry b) = 1 := if_pos rfl
          rw [htotal, if_neg hlru, hone] at hlost
          split_ifs at hlost <;> omega
      · rintro ⟨hlink, hlru⟩ o
        rw [htotal, if_neg hlink, if_pos hlru, add_zero, add_zero]
    · obtain ⟨r, hr, hrbal⟩ := @insertEntry_failure H w' e a env fuel k (hkey.trans hk) hset
      refine ⟨r, hr, iff_of_false (fun hall => ?_) (fun hall => hset hall.2.2.1)⟩
      have hlost := hall (.key k)
      rw [hrbal, hbal] at hlost
      simp only [unit, dirUnit, if_true, reduceCtorEq, if_false, ite_self] at hlost
      omega

/-- What is filled balances under the condition on the answers. -/
lemma fillEntry_iff {w₀ : World H} (h : Got w₀ w a e) {fuel : ℕ} (hfuel : 2 ≤ fuel)
    (hstale : env.rwLockInit = true → attributesError a env ≠ some .stale) :
    ∃ r, fillEntry fuel a env e w = some r ∧
      ((∀ o, r.2.2.balance o = w₀.balance o) ↔ Fills w₀ a env) := by
  have hrelease : (∀ o, (w.releaseEntry e).balance o = w₀.balance o) ↔ isDir a.type = false :=
    h.release_iff fun o => balance_releaseEntry
  rw [fillEntry]
  by_cases hlock : env.rwLockInit = true
  · rw [if_neg (not_not.mpr hlock)]
    cases herr : attributesError a env with
    | some err =>
      have hne : err ≠ .stale := fun heq => hstale hlock (heq ▸ herr)
      refine ⟨(none, errorConvert err, w.releaseEntry e), ?_, hrelease.trans ?_⟩
      · cases err <;> first | rfl | exact absurd rfl hne
      · rw [Fills, herr]
        cases isDir a.type
        · exact iff_of_true rfl (Or.inr hne)
        · exact iff_of_false Bool.noConfusion fun hall =>
            absurd hall.2.1 (Option.some_ne_none err)
    | none =>
      dsimp only
      have hprevOk : PrevOk w a ↔ PrevOk w₀ a := by
        unfold PrevOk
        exact forall_congr' fun htype => by rw [h.prevType htype]
      by_cases hfails : Unknown a.type ∨ ¬ PrevOk w a
      · obtain ⟨status, w', hinit, hbal⟩ : ∃ status w', initObject a env e w = (some status, w') ∧
            ∀ o, w'.balance o = w.balance o + unit (.entry e) o :=
          initObject_fails h.free h.prev hfails
        rw [hinit]
        refine ⟨_, rfl, (h.release_iff hbal).trans ?_⟩
        rw [Fills, herr]
        rcases hfails with hunknown | hprev
        · rw [isDir_of_unknown hunknown]
          exact iff_of_true rfl (Or.inr (Or.inl hunknown))
        · -- only a `DIR_CONTINUE` has a directory before it
          have htype : a.type = .dirContinue := by
            by_contra hne
            exact hprev fun htype => absurd htype hne
          rw [htype]
          exact iff_of_false Bool.noConfusion fun hall => hprev (hprevOk.mpr hall.2.2.1)
      · rw [not_or, not_not] at hfails
        obtain ⟨w', hinit, hfilled⟩ : ∃ w', initObject a env e w = (none, w') ∧ Filled w w' a env e :=
          initObject_goes h.free h.prev h.prevBegins hfails.1 hfails.2
        rw [hinit]
        obtain ⟨r, hr, hiff⟩ := h.insert_iff hfilled hfuel
        refine ⟨r, hr, hiff.trans ?_⟩
        have hcompletes : Completes w₀ a env ↔ ¬ LinkLost a env ∧ w₀.getKey.1.isSome = true ∧
            env.testAndSet = true ∧ env.lruNewEntry = true :=
          ⟨fun hall => hall.2, fun hall => ⟨hprevOk.mp hfails.2, hall⟩⟩
        rw [Fills, herr, ← hcompletes]
        cases isDir a.type
        · rw [if_neg (by decide), hlock]
          exact ⟨fun hall => Or.inr (Or.inr hall), fun hall =>
            (hall.resolve_left Bool.noConfusion).resolve_left hfails.1⟩
        · rw [if_pos rfl]
          exact ⟨fun hall => ⟨hlock, rfl, hall⟩, fun hall => hall.2.2⟩
  · -- the lock of the entry could not be made
    rw [if_pos hlock]
    refine ⟨_, rfl, hrelease.trans ?_⟩
    rw [Fills]
    cases isDir a.type
    · exact iff_of_true rfl (Or.inl (by simpa using hlock))
    · exact iff_of_false Bool.noConfusion fun hall => hlock hall.1

/-! ## The calls -/

/-- A call of one of the functions. -/
inductive Call (H : Type)
  | newEntry (a : NewArgs H) (env : NewEnv)
  | killEntry (e : ℕ)
  | remove (e : ℕ)

/-- What a call leaves. -/
def exec (fuel : ℕ) (junk : Entry H) (w : World H) : Call H → Option (World H)
  | .newEntry a env => (cacheInodeNewEntry fuel junk a env w).map fun r => r.2.2
  | .killEntry e => (cacheInodeKillEntry fuel e w).map Prod.snd
  | .remove e => (removeEntry fuel e w).map Prod.snd

/-- What the callers of the functions see to: an entry that is killed or removed is cached with its
chain, and a removed one is no `DIR_CONTINUE`; the objects of the pool are not in use, and the
`pdir_begin` of the `DIR_CONTINUE` before a new one leads to a directory. -/
def Proper (w : World H) : Call H → Prop
  | .newEntry a _ => (∀ p, Stocked w.poolEntry w.entryArrays p → Free w p) ∧
      (a.type = .dirContinue → ¬ Stocked w.poolEntry w.entryArrays a.entryDirPrev) ∧
      (a.type = .dirContinue → (w.heap a.entryDirPrev).type = .dirContinue →
        ∃ b, (w.heap a.entryDirPrev).pdirBegin = some b ∧ (w.heap b).type = .dirBeginning ∧
          ¬ Stocked w.poolEntry w.entryArrays b)
  | .killEntry e => ∃ data conts, Intact w e data conts
  | .remove e => (∃ data conts, Intact w e data conts) ∧ (w.heap e).type ≠ .dirContinue

/-- The call ends, whatever is in the memory of a new entry, and every object is released and held
as often as it was taken since. -/
def PoolLaw (w : World H) (call : Call H) : Prop :=
  ∃ n, ∀ fuel ≥ n, ∀ junk, ∃ w', exec fuel junk w call = some w' ∧
    ∀ o, w'.balance o = w.balance o

/-- The calls that lose nothing and release nothing twice. -/
def Conserves (w : World H) : Call H → Prop
  | .newEntry a env => (hashTableGet w.ht a.fsdata).isSome = true ∨ w.getEntry.1 = none ∨
      (isDir a.type = true → w.getDirData.1.isSome = true) ∧ Fills w a env
  | .killEntry e => KillKeys w e
  | .remove _ => True

/-- An entry from the pool is free. -/
lemma got_getEntry (hproper : Proper w (.newEntry a env)) (he : w.getEntry.1 = some e) :
    Free w e ∧ (a.type = .dirContinue → a.entryDirPrev ≠ e) ∧ PrevBegins w a e := by
  have hget := Ganesha.Pools.stocked_get w.poolEntry w.entryArrays w.nbPrealloc
  have he' : (Ganesha.Hash.getPrealloc w.nbPrealloc w.poolEntry w.entryArrays).1 = some e := he
  cases hres : Ganesha.Hash.getPrealloc w.nbPrealloc w.poolEntry w.entryArrays with
  | mk p rest =>
    rw [hres] at hget he'
    obtain rfl : p = some e := he'
    have hstocked : Stocked w.poolEntry w.entryArrays e := (hget e).mpr (Or.inl rfl)
    refine ⟨hproper.1 e hstocked, fun htype heq => hproper.2.1 htype (heq ▸ hstocked),
      fun htype hprevType => ?_⟩
    obtain ⟨b, hbegin, hdir, hnot⟩ := hproper.2.2 htype hprevType
    exact ⟨b, fun heq => hnot (heq ▸ hstocked), hbegin, hdir⟩

omit [DecidableEq H] in
/-- Other entries may change. -/
lemma PrevBegins.congr (h : PrevBegins w a e) (hne : a.type = .dirContinue → a.entryDirPrev ≠ e)
    (hheap : ∀ p ≠ e, w'.heap p = w.heap p) : PrevBegins w' a e := by
  intro htype hprevType
  rw [hheap _ (hne htype)] at hprevType ⊢
  obtain ⟨b, hb, hbegin, hdir⟩ := h htype hprevType
  refine ⟨b, hb, hbegin, ?_⟩
  rw [hheap b hb]
  exact hdir

/-- An object that is not cached gets an entry from the pool. -/
lemma newEntry_got (hproper : Proper w (.newEntry a env)) (hht : hashTableGet w.ht a.fsdata = none)
    (he : w.getEntry.1 = some e) (hdata : isDir a.type = true → w.getDirData.1.isSome = true)
    (junk : Entry H) :
    ∃ w', Got w w' a e ∧ (w'.heap e).type = junk.type ∧ (w'.heap e).pdirBegin = junk.pdirBegin ∧
      ∀ fuel, cacheInodeNewEntry fuel junk a env w = fillEntry fuel a env e w' := by
  obtain ⟨hfree, hne, hbegins⟩ := got_getEntry hproper he
  have hget : w.getEntry = (some e, w.getEntry.2) := Prod.ext he rfl
  have hfree' : Free w.getEntry.2 e := hfree
  -- a directory takes its data as well
  by_cases hdir : isDir a.type = true
  · obtain ⟨d, hd⟩ := Option.isSome_iff_exists.mp (hdata hdir)
    let w₁ := w.getEntry.2.modify e fun _ => junk
    have hd₁ : w₁.getDirData = (some d, w₁.getDirData.2) := Prod.ext hd rfl
    have hfree₁ : Free w₁.getDirData.2 e := hfree
    have hheap : ∀ p ≠ e, (w₁.getDirData.2.modify e fun entry => { entry with pdirData := d }).heap p =
        w.heap p := by
      intro p hp
      rw [heap_modify_of_ne _ hp, sameTable_getDirData.heap, heap_modify_of_ne _ hp]
      rfl
    refine ⟨w₁.getDirData.2.modify e fun entry => { entry with pdirData := d },
      ⟨hfree, hne, fun htype => hheap _ (hne htype), hbegins.congr hne hheap, rfl, fun o => ?_⟩, ?_, ?_,
      fun fuel => ?_⟩
    · rw [hfree₁.balance, balance_getDirData (w := w₁) hd, hfree'.balance, balance_getEntry he,
        heap_modify_self, dirUnit, if_pos hdir]
    · rw [heap_modify_self, sameTable_getDirData.heap, heap_modify_self]
    · rw [heap_modify_self, sameTable_getDirData.heap, heap_modify_self]
    · rw [cacheInodeNewEntry, World.cacheInodeFsaldata2Key, if_neg (by decide)]
      dsimp only
      rw [hht, hget]
      dsimp only
      rw [if_pos hdir, hd₁]
  · have hheap : ∀ p ≠ e, (w.getEntry.2.modify e fun _ => junk).heap p = w.heap p := by
      intro p hp
      rw [heap_modify_of_ne _ hp]
      rfl
    refine ⟨w.getEntry.2.modify e fun _ => junk,
      ⟨hfree, hne, fun htype => hheap _ (hne htype), hbegins.congr hne hheap, rfl, fun o => ?_⟩, ?_, ?_,
      fun fuel => ?_⟩
    · rw [hfree'.balance, balance_getEntry he, dirUnit, if_neg hdir, sub_zero]
    · rw [heap_modify_self]
    · rw [heap_modify_self]
    · rw [cacheInodeNewEntry, World.cacheInodeFsaldata2Key, if_neg (by decide)]
      dsimp only
      rw [hht, hget]
      dsimp only
      rw [if_neg hdir]

/-- The contents of a new entry for which a stale handle is found out too late. -/
def staleJunk (dir : Bool) (handle : H) : Entry H :=
  ⟨if dir then .unassigned else .dirContinue, handle, 0, none, none, 0, []⟩

/-- With a stale handle and what was left in the entry, an entry is lost. -/
lemma fillEntry_stale {w₀ : World H} (h : Got w₀ w a e) {handle : H} (fuel : ℕ)
    (htype : (w.heap e).type = (staleJunk (isDir a.type) handle).type)
    (hbegin : (w.heap e).pdirBegin = none) (hlock : env.rwLockInit = true)
    (herr : attributesError a env = some .stale) :
    ∀ r, fillEntry (fuel + 1) a env e w = some r → ¬ ∀ o, r.2.2.balance o = w₀.balance o := by
  intro r hr hall
  have hheap : (w.releaseEntry e).heap = w.heap := rfl
  rw [fillEntry, if_neg (not_not.mpr hlock), herr] at hr
  dsimp only at hr
  rw [cacheInodeKillEntry, fsaldata, hheap, htype, hbegin] at hr
  cases hdir : isDir a.type with
  | false =>
    rw [hdir] at hr
    cases hr
  | true =>
    -- the directory data stays behind
    rw [hdir] at hr
    obtain rfl : (none, errorConvert .stale, w.releaseEntry e) = r := Option.some.inj hr
    rw [h.release_iff fun o => balance_releaseEntry, hdir] at hall
    cases hall

/-- A new entry, its directory data and its key are lost, or released twice, unless the calls that
are made for them succeed. -/
lemma newEntry_iff (hproper : Proper w (.newEntry a env)) :
    PoolLaw w (.newEntry a env) ↔ Conserves w (.newEntry a env) := by
  have hargument : w.cacheInodeFsaldata2Key false = (some .argument, w) := rfl
  rw [Conserves]
  cases hht : hashTableGet w.ht a.fsdata with
  | some r =>
    -- the object is cached already
    refine iff_of_true ⟨0, fun fuel _ junk => ⟨w, ?_, fun _ => rfl⟩⟩ (Or.inl rfl)
    rw [exec, cacheInodeNewEntry, hargument]
    dsimp only
    rw [hht]
    rfl
  | none =>
    cases he : w.getEntry.1 with
    | none =>
      refine iff_of_true ⟨0, fun fuel _ junk => ⟨w.getEntry.2, ?_, fun o => balance_getEntry_none he⟩⟩
        (Or.inr (Or.inl rfl))
      have hget : w.getEntry = (none, w.getEntry.2) := Prod.ext he rfl
      rw [exec, cacheInodeNewEntry, hargument]
      dsimp only
      rw [hht, hget]
      rfl
    | some e =>
      have hcond : ((none : Option (Record H)).isSome = true ∨ some e = none ∨
          (isDir a.type = true → w.getDirData.1.isSome = true) ∧ Fills w a env) ↔
          (isDir a.type = true → w.getDirData.1.isSome = true) ∧ Fills w a env :=
        ⟨fun h => (h.resolve_left Bool.noConfusion).resolve_left (Option.some_ne_none e),
          fun h => Or.inr (Or.inr h)⟩
      rw [hcond]
      by_cases hdata : isDir a.type = true → w.getDirData.1.isSome = true
      · rw [and_iff_right hdata]
        by_cases hstale : env.rwLockInit = true ∧ attributesError a env = some .stale
        · refine iff_of_false ?_ ?_
          · rintro ⟨n, hn⟩
            obtain ⟨w', hgot, htype, hbegin, heq⟩ := newEntry_got hproper hht he hdata
              (staleJunk (isDir a.type) (w.heap e).handle)
            obtain ⟨w'', hexec, hall⟩ := hn (n + 1) (Nat.le_succ n)
              (staleJunk (isDir a.type) (w.heap e).handle)
            rw [exec, heq, Option.map_eq_some_iff] at hexec
            obtain ⟨r, hr, rfl⟩ := hexec
            exact fillEntry_stale hgot n htype hbegin hstale.1 hstale.2 r hr hall
          · rw [Fills, hstale.2]
            cases isDir a.type
            · rw [if_neg (by decide), hstale.1]
              exact fun h => (h.resolve_left Bool.noConfusion) rfl
            · exact fun h => Option.some_ne_none _ h.2.1
        · rw [not_and] at hstale
          constructor
          · rintro ⟨n, hn⟩
            obtain ⟨w', hgot, _, _, heq⟩ := newEntry_got hproper hht he hdata (w.heap e)
            obtain ⟨w'', hexec, hall⟩ := hn (n + 2) (Nat.le_add_right n 2) (w.heap e)
            obtain ⟨r, hr, hiff⟩ := fillEntry_iff hgot (Nat.le_add_left 2 n) hstale
            rw [exec, heq, hr] at hexec
            have hsame : r.2.2 = w'' := Option.some.inj hexec
            rw [← hsame] at hall
            exact hiff.mp hall
          · intro hfills
            refine ⟨2, fun fuel hfuel junk => ?_⟩
            obtain ⟨w', hgot, _, _, heq⟩ := newEntry_got hproper hht he hdata junk
            obtain ⟨r, hr, hiff⟩ := fillEntry_iff hgot hfuel hstale
            refine ⟨r.2.2, ?_, hiff.mpr hfills⟩
            rw [exec, heq, hr]
            rfl
      · -- the entry has been taken, and there is no directory data for it
        refine iff_of_false ?_ fun h => hdata h.1
        rintro ⟨n, hn⟩
        obtain ⟨w', hexec, hall⟩ := hn n (Nat.le_refl n) (w.heap e)
        rw [Classical.not_imp] at hdata
        have hnone : w.getDirData.1 = none := by simpa using hdata.2
        have hfree : Free w.getEntry.2 e := (got_getEntry hproper he).1
        have hget : w.getEntry = (some e, w.getEntry.2) := Prod.ext he rfl
        let w₁ := w.getEntry.2.modify e fun _ => w.heap e
        have hget₁ : w₁.getDirData = (none, w₁.getDirData.2) := Prod.ext hnone rfl
        rw [exec, cacheInodeNewEntry, hargument] at hexec
        dsimp only at hexec
        rw [hht, hget] at hexec
        dsimp only at hexec
        rw [if_pos hdata.1, hget₁] at hexec
        obtain rfl : w₁.getDirData.2 = w' := Option.some.inj hexec
        have hlost := hall (.entry e)
        rw [balance_getDirData_none (w := w₁) hnone, hfree.balance, balance_getEntry he, unit,
          if_pos rfl] at hlost
        omega

/-- The calls after which every object has been released and is held as often as it was taken: what
is removed always is; an entry is killed without a loss if there are two keys; a new entry is made
without one if no call fails after the directory data, or after the key, has been taken. -/
theorem poolLaw_iff {w : World H} {call : Call H} (hproper : Proper w call) :
    PoolLaw w call ↔ Conserves w call := by
  cases call with
  | newEntry a env => exact newEntry_iff hproper
  | killEntry e =>
    obtain ⟨data, conts, hintact⟩ := hproper
    constructor
    · rintro ⟨n, hn⟩
      by_contra hkeys
      obtain ⟨w', hexec, _⟩ := hn (n + conts.length + 2) (by omega) (w.heap e)
      rw [exec, kill_none hintact hkeys (by omega)] at hexec
      cases hexec
    · intro hkeys
      refine ⟨conts.length + 2, fun fuel hfuel junk => ?_⟩
      obtain ⟨w', hkill, hbal⟩ := kill_spec hintact hkeys hfuel
      refine ⟨w', ?_, hbal⟩
      rw [exec, hkill]
      rfl
  | remove e =>
    obtain ⟨⟨data, conts, hintact⟩, htype⟩ := hproper
    refine iff_of_true ⟨conts.length + 1, fun fuel hfuel junk => ?_⟩ trivial
    obtain ⟨status, w', hremove, hbal⟩ := remove_spec hintact htype hfuel
    refine ⟨w', ?_, hbal⟩
    rw [exec, hremove]
    rfl

/-- Pools with what one directory needs, and an empty hash table. -/
def oneOfEach : World ℕ where
  nbPrealloc := 0
  nbPreDirData := 0
  poolEntry := [1]
  entryArrays _ := []
  poolDirData := [2]
  dirDataArrays _ := []
  poolKey := [.pooled 3]
  keyArrays _ := []
  poolParent := []
  heap _ := ⟨.recycled, 0, 0, none, none, 0, []⟩
  ht := []
  log := []

/-- A directory, whose attributes are asked for. -/
def directory : NewArgs ℕ := ⟨⟨64, 0⟩, false, .dirBeginning, 0⟩

lemma proper_directory (env : NewEnv) : Proper oneOfEach (.newEntry directory env) :=
  ⟨fun _ _ r hr => absurd hr List.not_mem_nil, fun htype => absurd htype (by decide),
    fun htype => absurd htype (by decide)⟩

/-- All calls succeed. -/
theorem poolLaw_of_directory : PoolLaw oneOfEach (.newEntry directory ⟨true, none, none, true, true⟩) := by
  apply (poolLaw_iff (proper_directory ⟨true, none, none, true, true⟩)).mpr
  refine Or.inr (Or.inr ⟨fun _ => rfl, ?_⟩)
  rw [Fills, if_pos (by decide)]
  exact ⟨rfl, rfl, fun htype => absurd htype (by decide), fun hlink => absurd hlink.1 (by decide), rfl,
    rfl, rfl⟩

/-- The attributes of the directory may not be read: its directory data is lost. -/
theorem not_poolLaw_of_deniedAttributes :
    ¬ PoolLaw oneOfEach (.newEntry directory ⟨true, some .access, none, true, true⟩) := by
  rw [newEntry_iff (proper_directory ⟨true, some .access, none, true, true⟩)]
  rintro (hstored | hnone | ⟨_, hfills⟩)
  · exact Bool.noConfusion hstored
  · exact Option.some_ne_none 1 hnone
  · rw [Fills, if_pos (by decide)] at hfills
    exact Option.some_ne_none _ hfills.2.1

end Ganesha.CacheInode.Pools
