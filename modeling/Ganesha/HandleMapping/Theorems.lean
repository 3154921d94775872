import Mathlib.Data.List.Nodup
import Ganesha.HandleMapping.Common

/-!
# The handle map of the proxy, theorems

After a flush the databases hold the pairs of the hash table, and a restart brings them back, if no
digest is set while a deletion of it is in the queue of low priority (`persistent_of_careful`). Else
the insertion overtakes the deletion, and the pair is lost (`not_persistent_of_set_again`).
-/

namespace Ganesha.HandleMapping
open Library.Transition

variable {Handle Text : Type} {cfg : Config Handle Text} {d : Digest}

@[simp] lemma digest_insert {h : Handle} : (DbOp.insert d h).digest = d := rfl

@[simp] lemma digest_delete : (DbOp.delete d : DbOp Handle).digest = d := rfl

/-! ## A database -/

/-- The text that the rows hold for a digest. -/
def held (rows : List (Digest × Text)) (d : Digest) : Option Text :=
  (rows.find? fun row => row.1 = d).map Prod.snd

variable {rows : List (Digest × Text)}

lemma held_eq_none : held rows d = none ↔ d ∉ rows.map Prod.fst := by
  rw [held, Option.map_eq_none_iff, List.find?_eq_none]
  simp only [decide_eq_true_eq, List.mem_map, not_exists, not_and]

lemma mem_of_held {t : Text} (h : held rows d = some t) : (d, t) ∈ rows := by
  rw [held, Option.map_eq_some_iff] at h
  obtain ⟨row, hfind, rfl⟩ := h
  have hd : row.1 = d := by simpa using List.find?_some hfind
  rw [← hd]
  exact List.mem_of_find?_eq_some hfind

/-- The row of a digest. -/
lemma held_eq_some (hkeys : (rows.map Prod.fst).Nodup) {t : Text} : held rows d = some t ↔ (d, t) ∈ rows := by
  induction rows with
  | nil => simp [held]
  | cons row rows ih =>
    rw [List.map_cons, List.nodup_cons] at hkeys
    rw [held, List.find?_cons]
    by_cases hd : row.1 = d
    · have hnot : (d, t) ∉ rows := fun hmem =>
        hkeys.1 (hd ▸ List.mem_map.mpr ⟨_, hmem, rfl⟩)
      simp only [hd, decide_true, Option.map_some, Option.some.injEq, List.mem_cons, hnot, or_false]
      constructor
      · rintro rfl
        rw [← hd]
      · intro h
        rw [← h]
    · have hne : (d, t) ≠ row := fun h => hd (by rw [← h])
      simp only [hd, decide_false, List.mem_cons, hne, false_or]
      exact ih hkeys.2

/-- What an operation does to the text that is held for its digest. -/
def DbOp.apply (cfg : Config Handle Text) (text : Option Text) : DbOp Handle → Option Text
  | .insert _ h => text.or (some (cfg.snprintHandle h))
  | .delete _ => none

/-- The rows after one operation. -/
lemma held_process {op : DbOp Handle} :
    held (process cfg rows op) d = if op.digest = d then op.apply cfg (held rows d) else held rows d := by
  cases op with
  | insert d' h =>
    rw [process, DbOp.digest, DbOp.apply]
    by_cases hmem : d' ∈ rows.map Prod.fst
    · rw [if_pos hmem]
      split_ifs with hd
      · obtain ⟨t, ht⟩ := Option.ne_none_iff_exists'.mp (mt held_eq_none.mp (not_not.mpr (hd ▸ hmem)))
        rw [ht]
        rfl
      · rfl
    · rw [if_neg hmem, held, List.find?_append, List.find?_singleton]
      by_cases hd : d' = d
      · have hnone : held rows d = none := held_eq_none.mpr (hd ▸ hmem)
        rw [if_pos hd, hnone]
        rw [held, Option.map_eq_none_iff] at hnone
        rw [hnone]
        simp [hd]
      · rw [if_neg hd]
        simp [hd, held]
  | delete d' =>
    rw [process, DbOp.digest, DbOp.apply]
    split_ifs with hd
    · rw [held_eq_none]
      simp [hd]
    · rw [held, held, List.find?_filter]
      congr 2
      funext row
      by_cases hrow : row.1 = d
      · simp [hrow, Ne.symm hd]
      · simp [hrow]

/-- No digest has two rows. -/
lemma process_keys {op : DbOp Handle} (h : (rows.map Prod.fst).Nodup) :
    ((process cfg rows op).map Prod.fst).Nodup := by
  cases op with
  | insert d h' =>
    rw [process]
    split_ifs with hmem
    · exact h
    · rw [List.map_append, List.map_singleton]
      exact List.nodup_append'.mpr ⟨h, List.nodup_singleton d, by simpa using hmem⟩
  | delete d => exact h.sublist (List.filter_sublist.map Prod.fst)

/-- No other digest gets a row. -/
lemma mem_process {op : DbOp Handle} {row : Digest × Text} (h : row ∈ process cfg rows op) :
    row ∈ rows ∨ row.1 = op.digest := by
  cases op with
  | insert d h' =>
    rw [process] at h
    split_ifs at h with hmem
    · exact .inl h
    · rcases List.mem_append.mp h with h | h
      · exact .inl h
      · exact .inr (by rw [List.mem_singleton.mp h]; rfl)
  | delete d => exact .inl (List.mem_of_mem_filter h)

/-! ## Reloading -/

/-- Reading the rows back fills the table. -/
lemma foldl_hashAdd {hash : HashMap Handle} :
    rows.foldl (fun hash row => (handleMappingHashAdd hash row.1 (cfg.sscanHandle row.2)).1) hash d =
      (hash d).or ((held rows d).map cfg.sscanHandle) := by
  induction rows generalizing hash with
  | nil => simp [held]
  | cons row rows ih =>
    rw [List.foldl_cons, ih, held, held, List.find?_cons]
    by_cases hd : row.1 = d
    · subst hd
      cases hrow : hash row.1 with
      | none => simp [handleMappingHashAdd, hrow]
      | some h => simp [handleMappingHashAdd, hrow]
    · have hsame : (handleMappingHashAdd hash row.1 (cfg.sscanHandle row.2)).1 d = hash d := by
        rw [handleMappingHashAdd]
        split
        · rfl
        · exact Function.update_of_ne (Ne.symm hd) _ _
      rw [hsame]
      simp [hd]

lemma reload_eq : reload cfg rows d = (held rows d).map cfg.sscanHandle := by
  rw [reload, foldl_hashAdd]
  rfl

/-! ## A thread -/

/-- The operations that a thread has still to process, in the order in which it does if no more
come. -/
def DbThread.pending (t : DbThread Handle Text) : List (DbOp Handle) :=
  t.toBeDone.toList ++ (t.highprio ++ t.lowprio)

/-- What the database of a thread will hold for a digest. -/
def settled (cfg : Config Handle Text) (t : DbThread Handle Text) (d : Digest) : Option Text :=
  (t.pending.filter fun op => op.digest = d).foldl (DbOp.apply cfg) (held t.database d)

/-- The thread `i` brings its database to the hash table, for the digests it is selected for. -/
structure Serves (cfg : Config Handle Text) (hash : HashMap Handle) (i : ℕ)
    (t : DbThread Handle Text) : Prop where
  keys : (t.database.map Prod.fst).Nodup
  placed : ∀ row ∈ t.database, selectDbQueue cfg row.1 = i
  ops : ∀ op ∈ t.pending, selectDbQueue cfg op.digest = i
  working : t.toBeDone ≠ none → t.status = .working
  settles : ∀ d, selectDbQueue cfg d = i → settled cfg t d = (hash d).map cfg.snprintHandle

variable {hash hash' : HashMap Handle} {i : ℕ} {t : DbThread Handle Text} {op : DbOp Handle}
  {h : Handle}

lemma Serves.congr (hserves : Serves cfg hash i t)
    (hsame : ∀ d, selectDbQueue cfg d = i → hash' d = hash d) : Serves cfg hash' i t :=
  { hserves with settles := fun d hd => by rw [hserves.settles d hd, hsame d hd] }

/-- Taking an operation keeps it pending. -/
lemma pending_dequeue (hnone : t.toBeDone = none) : (dequeue t).pending = t.pending := by
  rw [DbThread.pending, DbThread.pending, hnone]
  rcases t with ⟨_ | ⟨op, high⟩, _ | ⟨op', low⟩, status, toBeDone, database⟩
  · rw [show toBeDone = none from hnone]
    rfl
  · rfl
  · rfl
  · rfl

lemma dequeue_database : (dequeue t).database = t.database := by
  rcases t with ⟨_ | ⟨op, high⟩, _ | ⟨op', low⟩, status, toBeDone, database⟩ <;> rfl

/-- A database takes its next operation. -/
lemma Serves.dequeue (hserves : Serves cfg hash i t) (hnone : t.toBeDone = none) :
    Serves cfg hash i (dequeue t) := by
  have hpending := pending_dequeue hnone
  refine ⟨?_, ?_, ?_, fun hsome => ?_, fun d hd => ?_⟩
  · rw [dequeue_database]
    exact hserves.keys
  · rw [dequeue_database]
    exact hserves.placed
  · rw [hpending]
    exact hserves.ops
  · rcases t with ⟨_ | ⟨op, high⟩, _ | ⟨op', low⟩, status, toBeDone, database⟩
    · exact absurd hnone hsome
    · rfl
    · rfl
    · rfl
  · rw [settled, hpending, dequeue_database]
    exact hserves.settles d hd

/-- A database carries its operation out. -/
lemma Serves.process (hserves : Serves cfg hash i t) (hop : t.toBeDone = some op) :
    Serves cfg hash i { t with toBeDone := none, database := process cfg t.database op } := by
  have hpending : t.pending = op :: (t.highprio ++ t.lowprio) := by
    rw [DbThread.pending, hop]
    rfl
  have hmem : op ∈ t.pending := by
    rw [hpending]
    exact List.mem_cons_self
  refine ⟨process_keys hserves.keys, fun row hrow => ?_, fun op' hop' => ?_, fun hsome => ?_,
    fun d hd => ?_⟩
  · rcases mem_process hrow with hrow | hrow
    · exact hserves.placed row hrow
    · rw [hrow]
      exact hserves.ops op hmem
  · refine hserves.ops op' ?_
    rw [hpending]
    exact List.mem_cons_of_mem op hop'
  · exact absurd rfl hsome
  · have hsettles := hserves.settles d hd
    rw [settled, hpending, List.filter_cons] at hsettles
    rw [settled, held_process, ← hsettles]
    by_cases hdigest : op.digest = d
    · rw [if_pos hdigest, if_pos (decide_eq_true hdigest), List.foldl_cons]
      rfl
    · rw [if_neg hdigest, if_neg (by simpa using hdigest)]
      rfl

/-- What is pending after one more. -/
lemma mem_pending_dbopPush {op' : DbOp Handle} (hop' : op' ∈ (dbopPush t op).pending) :
    op' ∈ t.pending ∨ op' = op := by
  cases op with
  | insert d h =>
    simp only [dbopPush, DbThread.pending, List.mem_append, List.mem_singleton] at hop' ⊢
    grind
  | delete d =>
    simp only [dbopPush, DbThread.pending, List.mem_append, List.mem_singleton] at hop' ⊢
    grind

/-- An operation that is pushed comes last among those of its digest: a deletion always, an insertion
if no operation of low priority has the digest. -/
lemma filter_pending_dbopPush
    (hlow : ∀ d h, op = .insert d h → ∀ op' ∈ t.lowprio, op'.digest ≠ d) :
    (dbopPush t op).pending.filter (fun op' => op'.digest = d) =
      t.pending.filter (fun op' => op'.digest = d) ++ if op.digest = d then [op] else [] := by
  cases op with
  | insert d' h =>
    have hnil : d' = d → t.lowprio.filter (fun op' => op'.digest = d) = [] := by
      intro hd
      rw [List.filter_eq_nil_iff]
      intro op' hop'
      rw [decide_eq_true_eq, ← hd]
      exact hlow d' h rfl op' hop'
    by_cases hd : d' = d
    · simp [dbopPush, DbThread.pending, hd, hnil hd]
    · simp [dbopPush, DbThread.pending, hd]
  | delete d' =>
    by_cases hd : d' = d
    · simp [dbopPush, DbThread.pending, hd]
    · simp [dbopPush, DbThread.pending, hd]

lemma dbopPush_database : (dbopPush t op).database = t.database := by
  cases op <;> rfl

/-- An operation is put into the queue of its digest. -/
lemma Serves.dbopPush (hserves : Serves cfg hash i t) (hi : selectDbQueue cfg op.digest = i)
    (hlow : ∀ d h, op = .insert d h → ∀ op' ∈ t.lowprio, op'.digest ≠ d)
    (hother : ∀ d, d ≠ op.digest → hash' d = hash d)
    (hsame : op.apply cfg ((hash op.digest).map cfg.snprintHandle) =
      (hash' op.digest).map cfg.snprintHandle) :
    Serves cfg hash' i (dbopPush t op) := by
  refine ⟨?_, ?_, fun op' hop' => ?_, fun hsome => ?_, fun d hd => ?_⟩
  · rw [dbopPush_database]
    exact hserves.keys
  · rw [dbopPush_database]
    exact hserves.placed
  · rcases mem_pending_dbopPush hop' with hop' | rfl
    · exact hserves.ops op' hop'
    · exact hi
  · cases op with
    | insert d h => exact hserves.working hsome
    | delete d => exact hserves.working hsome
  · have hsettles := hserves.settles d hd
    rw [settled] at hsettles
    rw [settled, filter_pending_dbopPush hlow, dbopPush_database, List.foldl_append, hsettles]
    by_cases hdigest : op.digest = d
    · rw [if_pos hdigest, ← hdigest]
      exact hsame
    · rw [if_neg hdigest, hother d (Ne.symm hdigest)]
      rfl

/-- A finished database holds what the table does. -/
lemma Serves.held_eq (hserves : Serves cfg hash i t) (hfinished : t.finished)
    (hd : selectDbQueue cfg d = i) : held t.database d = (hash d).map cfg.snprintHandle := by
  have hnone : t.toBeDone = none := by
    by_contra hsome
    exact hfinished.2.2 (hserves.working hsome)
  have hpending : t.pending = [] := by
    rw [DbThread.pending, hnone, hfinished.1, hfinished.2.1]
    rfl
  have hsettles := hserves.settles d hd
  rw [settled, hpending] at hsettles
  exact hsettles

/-! ## The threads -/

variable {threads : ℕ → DbThread Handle Text}

/-- One thread changes. -/
lemma serves_update (hserves : ∀ j, j ≠ i → Serves cfg hash j (threads j)) (hi : Serves cfg hash i t) :
    ∀ j, Serves cfg hash j (Function.update threads i t j) := by
  intro j
  by_cases hj : j = i
  · subst hj
    rw [Function.update_self]
    exact hi
  · rw [Function.update_of_ne hj]
    exact hserves j hj

/-- One thread goes on. -/
lemma finished_update {j : ℕ} (hi : (threads i).finished → t.finished) (h : (threads j).finished) :
    (Function.update threads i t j).finished := by
  by_cases hj : j = i
  · subst hj
    rw [Function.update_self]
    exact hi h
  · rw [Function.update_of_ne hj]
    exact h

/-- An operation is put into its queue. -/
lemma serves_push (op : DbOp Handle) (hserves : ∀ i, Serves cfg hash i (threads i))
    (hlow : ∀ d h, op = .insert d h → ∀ op' ∈ (threads (selectDbQueue cfg d)).lowprio, op'.digest ≠ d)
    (hother : ∀ d, d ≠ op.digest → hash' d = hash d)
    (hsame : op.apply cfg ((hash op.digest).map cfg.snprintHandle) =
      (hash' op.digest).map cfg.snprintHandle) :
    ∀ i, Serves cfg hash' i (Function.update threads (selectDbQueue cfg op.digest)
      (dbopPush (threads (selectDbQueue cfg op.digest)) op) i) := by
  refine serves_update (fun j hj => ?_) ?_
  · refine (hserves j).congr fun d hd => hother d fun heq => hj ?_
    rw [← hd, heq]
  · refine (hserves _).dbopPush rfl (fun d h hop => ?_) hother hsame
    rw [hop]
    exact hlow d h hop

lemma finished_dequeue (h : t.finished) : (dequeue t).finished := by
  obtain ⟨hhigh, hlow, -⟩ := h
  rcases t with ⟨high, low, status, toBeDone, database⟩
  simp only at hhigh hlow
  subst hhigh hlow
  exact ⟨rfl, rfl, ThreadStatus.noConfusion⟩

/-! ## Runs -/

section Runs

variable {s s' : State Handle Text}

/-- The condition: an operation can always be allocated, and no digest that the hash table does not
have is set while an operation of low priority, a deletion, is queued for it. -/
def Careful (cfg : Config Handle Text) (s : State Handle Text) : Event Handle Text → Prop
  | .setFH d _ allocOk => s.hash d = none → allocOk = true ∧
    ∀ op ∈ (s.threads (selectDbQueue cfg d)).lowprio, op.digest ≠ d
  | .delFH d allocOk => s.hash d ≠ none → allocOk = true
  | _ => True

instance (cfg : Config Handle Text) (s : State Handle Text) :
    (e : Event Handle Text) → Decidable (Careful cfg s e)
  | .setFH _ _ _ => inferInstanceAs (Decidable (_ → _))
  | .delFH _ _ => inferInstanceAs (Decidable (_ → _))
  | .flush | .wait | .dequeue _ | .process _ | .restart _ => inferInstanceAs (Decidable True)

/-- What careful steps keep: every thread serves the hash table, and those that a flush has waited
for are finished. -/
structure Inv (cfg : Config Handle Text) (s : State Handle Text) : Prop where
  serves : ∀ i, Serves cfg s.hash i (s.threads i)
  waited : ∀ i, s.flushing = some i → ∀ j < i, (s.threads j).finished
  flushed : s.flushed = true → ∀ j < cfg.nbDbThreads, (s.threads j).finished

/-- A handle is set. -/
lemma Inv.handleMapSetFH {d : Digest} {allocOk : Bool} (hinv : Inv cfg s)
    (hsync : cfg.synchronous = false) (hcareful : Careful cfg s (.setFH d h allocOk)) :
    ∀ i, Serves cfg (handleMapSetFH cfg s d h allocOk).1.hash i
      ((handleMapSetFH cfg s d h allocOk).1.threads i) := by
  rw [HandleMapping.handleMapSetFH, handleMappingHashAdd]
  cases hhash : s.hash d with
  | some h' => exact hinv.serves
  | none =>
    obtain ⟨halloc, hlow⟩ := hcareful hhash
    have hlow' : ∀ d' h', DbOp.insert d h = .insert d' h' →
        ∀ op ∈ (s.threads (selectDbQueue cfg d')).lowprio, op.digest ≠ d' := by
      intro d' h' hop
      obtain ⟨rfl, -⟩ := DbOp.insert.inj hop
      exact hlow
    simp only [handlemapDbInsert, hsync, halloc, Bool.false_eq_true, if_false, if_true]
    refine serves_push (.insert d h) hinv.serves hlow' (fun d' hd' => Function.update_of_ne hd' _ _) ?_
    rw [digest_insert, hhash]
    simp [DbOp.apply, State.modify]

/-- A handle is deleted. -/
lemma Inv.handleMapDelFH {d : Digest} {allocOk : Bool} (hinv : Inv cfg s)
    (hcareful : Careful cfg s (.delFH d allocOk)) :
    ∀ i, Serves cfg (handleMapDelFH cfg s d allocOk).1.hash i
      ((handleMapDelFH cfg s d allocOk).1.threads i) := by
  rw [HandleMapping.handleMapDelFH]
  cases hhash : s.hash d with
  | none => exact hinv.serves
  | some h' =>
    have halloc : allocOk = true := hcareful (by rw [hhash]; exact Option.some_ne_none h')
    simp only [handlemapDbDelete, halloc, if_true]
    refine serves_push (.delete d) hinv.serves (fun d' h' hop => by cases hop)
      (fun d' hd' => Function.update_of_ne hd' _ _) ?_
    simp [DbOp.apply, State.modify]

lemma selectDbQueue_lt : selectDbQueue cfg d < cfg.nbDbThreads := Nat.mod_lt _ cfg.nbDbThreads_pos

/-- The rows after a flush are the pairs of the table. -/
lemma Inv.mem_rows (hinv : Inv cfg s) (hflushed : s.flushed = true) {text : Text} :
    (d, text) ∈ s.rows cfg ↔ (s.hash d).map cfg.snprintHandle = some text := by
  have hheld : held (s.threads (selectDbQueue cfg d)).database d =
      (s.hash d).map cfg.snprintHandle :=
    (hinv.serves _).held_eq (hinv.flushed hflushed _ selectDbQueue_lt) rfl
  rw [← hheld, held_eq_some (hinv.serves _).keys, State.rows, List.mem_flatMap]
  constructor
  · intro hmem
    obtain ⟨i, -, hrow⟩ := hmem
    rw [(hinv.serves i).placed _ hrow]
    exact hrow
  · intro hrow
    exact ⟨_, List.mem_range.mpr selectDbQueue_lt, hrow⟩

/-- Reading the rows back restores the table. -/
lemma Inv.reload (hinv : Inv cfg s) (hflushed : s.flushed = true)
    (htext : ∀ h, cfg.sscanHandle (cfg.snprintHandle h) = h) {rows : List (Digest × Text)}
    (hrows : rows.Perm (s.rows cfg)) : reload cfg rows = s.hash := by
  funext d
  have hheld : held rows d = (s.hash d).map cfg.snprintHandle := by
    cases hrow : held rows d with
    | some text =>
      exact ((hinv.mem_rows hflushed).mp (hrows.mem_iff.mp (mem_of_held hrow))).symm
    | none =>
      cases hhash : s.hash d with
      | none => rfl
      | some h =>
        have hmem := (hinv.mem_rows hflushed).mpr (by rw [hhash, Option.map_some])
        exact absurd (List.mem_map.mpr ⟨_, hrows.mem_iff.mpr hmem, rfl⟩) (held_eq_none.mp hrow)
  rw [reload_eq, hheld, Option.map_map]
  cases s.hash d with
  | none => rfl
  | some h => exact congrArg some (htext h)

variable [DecidableEq Handle] [DecidableEq Text]

/-- Every careful step keeps the invariant. -/
lemma Inv.step {e : Event Handle Text} (hsync : cfg.synchronous = false)
    (htext : ∀ h, cfg.sscanHandle (cfg.snprintHandle h) = h) (hinv : Inv cfg s)
    (hcareful : Careful cfg s e) (hs : step cfg s e = some s') : Inv cfg s' := by
  cases e with
  | setFH d h allocOk =>
    rw [HandleMapping.step] at hs
    split_ifs at hs with hflushing
    rw [← Option.some.inj hs]
    have hsame : (HandleMapping.handleMapSetFH cfg s d h allocOk).1.flushing = none := by
      rw [HandleMapping.handleMapSetFH]
      grind [State.modify, handlemapDbInsert]
    exact ⟨hinv.handleMapSetFH hsync hcareful, fun i hi => (Option.some_ne_none i (hi.symm.trans hsame)).elim,
      fun h => Bool.noConfusion h⟩
  | delFH d allocOk =>
    rw [HandleMapping.step] at hs
    split_ifs at hs with hflushing
    rw [← Option.some.inj hs]
    have hsame : (HandleMapping.handleMapDelFH cfg s d allocOk).1.flushing = none := by
      rw [HandleMapping.handleMapDelFH]
      grind [State.modify, handlemapDbDelete]
    exact ⟨hinv.handleMapDelFH hcareful, fun i hi => (Option.some_ne_none i (hi.symm.trans hsame)).elim,
      fun h => Bool.noConfusion h⟩
  | flush =>
    rw [HandleMapping.step] at hs
    split_ifs at hs with hflushing
    rw [← Option.some.inj hs]
    refine ⟨hinv.serves, fun i hi j hj => ?_, fun h => Bool.noConfusion h⟩
    rw [← Option.some.inj hi] at hj
    exact absurd hj (Nat.not_lt_zero j)
  | wait =>
    rw [HandleMapping.step, Option.bind_eq_some_iff] at hs
    obtain ⟨i, hi, hs⟩ := hs
    have hwaited := hinv.waited i hi
    split_ifs at hs with hlt hfinished
    · rw [← Option.some.inj hs]
      refine ⟨hinv.serves, fun i' hi' j hj => ?_, hinv.flushed⟩
      rw [← Option.some.inj hi'] at hj
      rcases Nat.lt_succ_iff_lt_or_eq.mp hj with hj | rfl
      · exact hwaited j hj
      · exact hfinished
    · rw [← Option.some.inj hs]
      exact ⟨hinv.serves, fun i' hi' => (by cases hi'), fun _ j hj => hwaited j (by omega)⟩
  | dequeue i =>
    rw [HandleMapping.step] at hs
    split_ifs at hs with hi
    rw [← Option.some.inj hs]
    refine ⟨serves_update (fun j _ => hinv.serves j) ((hinv.serves i).dequeue hi.2),
      fun i' hi' j hj => ?_, fun hflushed j hj => ?_⟩
    · exact finished_update finished_dequeue (hinv.waited i' hi' j hj)
    · exact finished_update finished_dequeue (hinv.flushed hflushed j hj)
  | process i =>
    rw [HandleMapping.step, Option.map_eq_some_iff] at hs
    obtain ⟨op, hop, rfl⟩ := hs
    -- a thread with an operation to process is not finished
    have hnot : ¬ (s.threads i).finished := fun hfinished =>
      hfinished.2.2 ((hinv.serves i).working (by rw [hop]; exact Option.some_ne_none op))
    refine ⟨serves_update (fun j _ => hinv.serves j) ((hinv.serves i).process hop),
      fun i' hi' j hj => ?_, fun hflushed j hj => ?_⟩
    · exact finished_update (fun h => absurd h hnot) (hinv.waited i' hi' j hj)
    · exact finished_update (fun h => absurd h hnot) (hinv.flushed hflushed j hj)
  | restart rows =>
    rw [HandleMapping.step] at hs
    split_ifs at hs with hflushed
    rw [← Option.some.inj hs, hinv.reload hflushed.1 htext hflushed.2]
    refine ⟨fun i => ?_, fun i hi => (by cases hi), fun h => Bool.noConfusion h⟩
    refine ⟨(hinv.serves i).keys, (hinv.serves i).placed, fun op hop => (by cases hop),
      fun h => absurd rfl h, fun d hd => ?_⟩
    rw [← hd]
    exact (hinv.serves _).held_eq (hinv.flushed hflushed.1 _ selectDbQueue_lt) rfl

/-- When a flush has returned, the databases hold exactly the pairs of the hash table, and after a
restart that reloads them every digest is answered as before. -/
theorem persistent_of_careful (cfg : Config Handle Text) (hsync : cfg.synchronous = false)
    (htext : ∀ h, cfg.sscanHandle (cfg.snprintHandle h) = h) (s : State Handle Text)
    (h : ReachableBy (step cfg) (Careful cfg) initialState s) (hflushed : s.flushed = true) :
    (∀ d text, (d, text) ∈ s.rows cfg ↔ ∃ h, s.hash d = some h ∧ cfg.snprintHandle h = text) ∧
      ∀ rows, rows.Perm (s.rows cfg) →
        ∀ d, handleMapGetFH (reload cfg rows) d = handleMapGetFH s.hash d := by
  have hinv : Inv cfg s := by
    refine h.invariant ⟨fun i => ?_, fun i hi => (by cases hi), fun h => Bool.noConfusion h⟩
      fun s e s' hinv hcareful hs => hinv.step hsync htext hcareful hs
    exact ⟨List.nodup_nil, fun row hrow => (by cases hrow), fun op hop => (by cases hop),
      fun h => absurd rfl h, fun d _ => rfl⟩
  refine ⟨fun d text => ?_, fun rows hrows d => ?_⟩
  · rw [hinv.mem_rows hflushed, Option.map_eq_some_iff]
  · rw [hinv.reload hflushed htext hrows]

end Runs

/-! ## Setting a digest again -/

/-- One database, with handles that are their own texts. -/
def oneDatabase : Config ℕ ℕ := ⟨1, false, id, id, Nat.one_pos⟩

/-- A digest is set, deleted, and set again after the deletion is made, and there is a flush. -/
def setAfterDelete : List (Event ℕ ℕ) :=
  [.setFH ⟨1, 0⟩ 1 true, .dequeue 0, .process 0, .delFH ⟨1, 0⟩ true, .dequeue 0, .process 0,
    .setFH ⟨1, 0⟩ 2 true, .flush, .dequeue 0, .process 0, .dequeue 0, .wait, .wait]

theorem persistent_of_careful_setAfterDelete :
    (execute (step oneDatabase) initialState setAfterDelete).any
        (fun s => s.flushed && s.hash ⟨1, 0⟩ == some 2) = true ∧
      ∀ s, execute (step oneDatabase) initialState setAfterDelete = some s → s.flushed = true →
        ∀ d text, (d, text) ∈ s.rows oneDatabase ↔ ∃ h, s.hash d = some h ∧ id h = text := by
  refine ⟨by decide +kernel, fun s hs hflushed => ?_⟩
  exact (persistent_of_careful oneDatabase rfl (fun _ => rfl) s
    (reachableBy_of_execute hs (by decide +kernel)) hflushed).1

/-- A digest is set again while its deletion is queued: the second insertion is made before it. -/
def setBeforeDelete : List (Event ℕ ℕ) :=
  [.setFH ⟨1, 0⟩ 1 true, .delFH ⟨1, 0⟩ true, .setFH ⟨1, 0⟩ 2 true, .flush, .dequeue 0, .process 0,
    .dequeue 0, .process 0, .dequeue 0, .process 0, .dequeue 0, .wait, .wait]

/-- Setting a digest again leaves the old row. -/
theorem not_persistent_of_set_again :
    ¬ ∀ s, Reachable (step oneDatabase) initialState s → s.flushed = true →
      ∀ d text, (d, text) ∈ s.rows oneDatabase ↔ ∃ h, s.hash d = some h ∧ id h = text := by
  intro hall
  have hrun : (execute (step oneDatabase) initialState setBeforeDelete).any (fun s =>
      s.flushed && s.hash ⟨1, 0⟩ == some 2 && s.rows oneDatabase == []) = true := by
    decide +kernel
  rw [Option.any_eq_true] at hrun
  obtain ⟨s, hs, hfinal⟩ := hrun
  simp only [Bool.and_eq_true, beq_iff_eq] at hfinal
  obtain ⟨⟨hflushed, hhash⟩, hrows⟩ := hfinal
  have hmem := (hall s (reachable_of_execute hs) hflushed ⟨1, 0⟩ 2).mpr ⟨2, hhash, rfl⟩
  rw [hrows] at hmem
  cases hmem

end Ganesha.HandleMapping
