import Mathlib.Algebra.BigOperators.Group.Finset.Basic
import Mathlib.Algebra.Order.BigOperators.Group.Finset
import Mathlib.Data.Fintype.Prod
import Ganesha.Library.Reorder
import Ganesha.MfslAsync.Common

/-!
# The asynchronous metadata queue, theorems

Every operation that is posted is executed once if the dispatcher gives none to a synclet that is in
its garbage collection (`Apart`). When the lists are empty, the namespace is then the one that the
operations give in the order of their posting if each of them commutes, when it is executed, with those
posted before it that are not executed yet (`in_order_of_careful`). Two synclets can
execute a rename before the creation it needs (`not_in_order_of_two_synclets`).
-/

namespace Ganesha.MfslAsync
open Library.Transition Library.Reorder
open Lru (Queue)

variable {σ : Type} {param : Param} {s s' : State σ}

/-- The operations that a synclet has still to execute. -/
def Synclet.todo (y : Synclet) : List ℕ :=
  match y.pc with
  | .executed id => y.opLru.valid.filter (· ≠ id)
  | _ => y.opLru.valid

/-- How often an operation is in the dispatch list, in the lists of the synclets, or executed. -/
def places (param : Param) (s : State σ) (id : ℕ) : ℕ :=
  s.executed.count id + s.asyncOpLru.valid.count id +
    ∑ i ∈ Finset.range param.nbSynclet, (s.synclets i).todo.count id

/-- Every operation that is posted is in one place, and a synclet works on an operation of its
list. -/
structure Once (param : Param) (s : State σ) : Prop where
  places : ∀ id, places param s id = if id < s.posted.length then 1 else 0
  found : ∀ i id, (s.synclets i).pc = .found id → id ∈ (s.synclets i).opLru.valid
  ran : ∀ i id, (s.synclets i).pc = .executed id → id ∈ s.executed
  unused : ∀ i, param.nbSynclet ≤ i → (s.synclets i).pc = .top

/-! ## Counting -/

/-- The sum after one synclet changed. -/
lemma sum_update {f : Synclet → ℕ} {synclets : ℕ → Synclet} {n c : ℕ} (hc : c < n) (y : Synclet) :
    ∑ i ∈ Finset.range n, f (Function.update synclets c y i) + f (synclets c) =
      ∑ i ∈ Finset.range n, f (synclets i) + f y := by
  rw [← Finset.sum_erase_add _ _ (Finset.mem_range.mpr hc),
    ← Finset.sum_erase_add _ (fun i => f (synclets i)) (Finset.mem_range.mpr hc), Function.update_self]
  have hsame : ∑ i ∈ (Finset.range n).erase c, f (Function.update synclets c y i) =
      ∑ i ∈ (Finset.range n).erase c, f (synclets i) := by
    refine Finset.sum_congr rfl fun i hi => ?_
    rw [Function.update_of_ne (Finset.ne_of_mem_erase hi)]
  rw [hsame]
  omega

lemma count_filter_ne {l : List ℕ} {a b : ℕ} : (l.filter (· ≠ a)).count b = if b = a then 0 else l.count b := by
  split_ifs with h
  · subst h
    rw [List.count_eq_zero]
    simp
  · exact List.count_filter (by simpa using h)

/-- The choice is one of those tried. -/
lemma chooseLoop_lt {nbEntry : ℕ → ℕ} {order : List ℕ} {best : ℕ × ℕ} {n : ℕ}
    (horder : ∀ i ∈ order, i < n) (hbest : best.1 < n ∨ best.1 = noValueChoosen) :
    (chooseLoop nbEntry order best).1 < n ∨ (chooseLoop nbEntry order best).1 = noValueChoosen := by
  induction order generalizing best with
  | nil => exact hbest
  | cons i order ih =>
    obtain ⟨chosen, least⟩ := best
    rw [chooseLoop]
    refine ih (fun j hj => horder j (List.mem_cons_of_mem i hj)) ?_
    split_ifs
    · exact .inl (horder i List.mem_cons_self)
    · exact hbest

/-- The synclet chosen exists. -/
lemma chooseSynclet_lt {nbEntry : ℕ → ℕ} {last c : ℕ} (h : chooseSynclet param nbEntry last = some c) :
    c < param.nbSynclet := by
  have horder : ∀ i ∈ (List.range param.nbSynclet).map fun cpt => (last + 1 + cpt) % param.nbSynclet,
      i < param.nbSynclet := by
    intro i hi
    obtain ⟨cpt, -, rfl⟩ := List.mem_map.mp hi
    exact Nat.mod_lt _ param.nbSynclet_pos
  have hcases := @chooseLoop_lt nbEntry _ (noValueChoosen, noValueChoosen) _ horder (.inr rfl)
  simp only [chooseSynclet] at h
  split_ifs at h with hnone
  rw [Option.some.injEq] at h
  rw [← h]
  exact hcases.resolve_right hnone

/-! ## Steps -/

/-- No operation moves. -/
structure Quiet (s s' : State σ) : Prop where
  posted : s'.posted = s.posted
  executed : s'.executed = s.executed
  fs : s'.fs = s.fs
  valid : s'.asyncOpLru.valid = s.asyncOpLru.valid
  synclets : s'.synclets = s.synclets

/-- The operation `id` goes from the dispatch list to the synclet `c`. -/
structure Sent (s s' : State σ) (id c : ℕ) : Prop where
  posted : s'.posted = s.posted
  executed : s'.executed = s.executed
  fs : s'.fs = s.fs
  valid : s'.asyncOpLru.valid = s.asyncOpLru.valid.filter (· ≠ id)
  synclets : s'.synclets = Function.update s.synclets c
    { s.synclets c with opLru := (s.synclets c).opLru.newEntry id }

lemma quiet_endPass : Quiet s (endPass param s) := by
  rw [endPass]
  split_ifs
  · exact ⟨rfl, rfl, rfl, Lru.valid_gcInvalid, rfl⟩
  · exact ⟨rfl, rfl, rfl, rfl, rfl⟩

/-- The synclet that gets the operation at which the dispatcher is, if it is out of the window. -/
def target (param : Param) (s : State σ) (inGc : ℕ → ℕ) : Option ℕ :=
  match s.mutexAsyncList with
  | .dispatcher current k =>
    match s.asyncOpLru.entries[k]? with
    | some (id, true) =>
      if s.posted[id]?.any fun desc => aged param current desc.opTime then
        chooseSynclet param (nbEntry s inGc) s.last
      else none
    | _ => none
  | _ => none

/-- The dispatcher gives no operation to a synclet that is in its garbage collection. -/
def Apart (param : Param) (s : State σ) : Event σ → Prop
  | .next _ inGc _ => ∀ c ∈ target param s inGc, (s.synclets c).pc ≠ .collecting
  | _ => True

/-- The exits of the dispatcher's turn. -/
lemma dispatchNext_cases {current : ℤ} {k : ℕ} {allocOk : Bool} {inGc : ℕ → ℕ} {raced : Queue ℕ}
    (hmutex : s.mutexAsyncList = .dispatcher current k) (hapart : Apart param s (.next allocOk inGc raced))
    (h : dispatchNext param s current k allocOk inGc raced = some s') :
    Quiet s s' ∨ ∃ id c, id ∈ s.asyncOpLru.valid ∧ c < param.nbSynclet ∧ Sent s s' id c := by
  unfold dispatchNext at h
  split at h
  · rw [← Option.some.inj h]
    exact .inl quiet_endPass
  · rw [← Option.some.inj h]
    exact .inl ⟨rfl, rfl, rfl, rfl, rfl⟩
  · rename_i id hentry
    have hvalid : id ∈ s.asyncOpLru.valid := by
      rw [Queue.valid, List.mem_map]
      exact ⟨(id, true), List.mem_filter.mpr ⟨List.mem_of_getElem? hentry, rfl⟩, rfl⟩
    split at h
    · cases h
    rename_i desc hdesc
    split at h
    · rename_i haged
      rw [Option.map_eq_some_iff] at h
      obtain ⟨c, hc, rfl⟩ := h
      have htarget : target param s inGc = some c := by
        simp only [target, hmutex, hentry, hdesc, Option.any_some, haged, if_true, hc]
      have hpc : (s.synclets c).pc ≠ .collecting := hapart c htarget
      unfold dispatch
      rw [if_neg hpc]
      cases allocOk with
      | true => exact .inr ⟨id, c, hvalid, chooseSynclet_lt hc, rfl, rfl, rfl, Lru.valid_invalidate, rfl⟩
      | false => exact .inl ⟨rfl, rfl, rfl, rfl, rfl⟩
    · rw [← Option.some.inj h]
      exact .inl quiet_endPass

/-- A synclet changes, and nothing else. -/
def Turn (s s' : State σ) (i : ℕ) (y : Synclet) : Prop :=
  s' = { s with synclets := Function.update s.synclets i y }

variable {e : Event σ}

/-- What one step can do. -/
lemma step_cases (hapart : Apart param s e) (h : step param s e = some s') :
    (∃ desc, e = .post desc true ∧ s' = mfslAsyncPost s desc true) ∨ Quiet s s' ∨
    (∃ id c, id ∈ s.asyncOpLru.valid ∧ c < param.nbSynclet ∧ Sent s s' id c) ∨
    (∃ i id, i < param.nbSynclet ∧ (s.synclets i).pc = .top ∧ id ∈ (s.synclets i).opLru.valid ∧
      Turn s s' i { s.synclets i with pc := .found id }) ∨
    (∃ i id, e = .process i ∧ (s.synclets i).pc = .found id ∧ s' = { s with
      synclets := Function.update s.synclets i { s.synclets i with
        pc := .executed id, passcounter := (s.synclets i).passcounter + 1 }
      fs := opFuncOf s.posted id s.fs
      executed := s.executed ++ [id] }) ∨
    (∃ i id, (s.synclets i).pc = .executed id ∧ Turn s s' i { s.synclets i with
      opLru := (s.synclets i).opLru.invalidate id, pc := .collect }) ∨
    ∃ i y, ((s.synclets i).pc = .collect ∨ (s.synclets i).pc = .collecting) ∧ Turn s s' i y ∧
      y.opLru.valid = (s.synclets i).opLru.valid ∧ (y.pc = .top ∨ y.pc = .collecting) := by
  cases e with
  | post desc allocOk =>
    rw [step] at h
    split_ifs at h
    rw [Option.some.injEq] at h
    cases allocOk with
    | true => exact .inl ⟨desc, rfl, h.symm⟩
    | false =>
      rw [← h]
      exact .inr (.inl ⟨rfl, rfl, rfl, rfl, rfl⟩)
  | «begin» current =>
    rw [step] at h
    split_ifs at h
    rw [← Option.some.inj h]
    exact .inr (.inl ⟨rfl, rfl, rfl, rfl, rfl⟩)
  | next allocOk inGc raced =>
    rw [step] at h
    split at h
    · rename_i current k hmutex
      rcases dispatchNext_cases hmutex hapart h with h | h
      · exact .inr (.inl h)
      · exact .inr (.inr (.inl h))
    · cases h
  | find i =>
    rw [step] at h
    split_ifs at h with hi
    rw [Option.map_eq_some_iff] at h
    obtain ⟨id, hid, rfl⟩ := h
    exact .inr (.inr (.inr (.inl ⟨i, id, hi.1, hi.2, List.mem_of_mem_head? hid, rfl⟩)))
  | process i =>
    rw [step] at h
    split at h
    · rename_i id hpc
      rw [← Option.some.inj h]
      exact .inr (.inr (.inr (.inr (.inl ⟨i, id, rfl, hpc, rfl⟩))))
    · cases h
  | invalidate i =>
    rw [step] at h
    split at h
    · rename_i id hpc
      rw [← Option.some.inj h]
      exact .inr (.inr (.inr (.inr (.inr (.inl ⟨i, id, hpc, rfl⟩)))))
    · cases h
  | collect i =>
    rw [step] at h
    split_ifs at h with hpc
    rw [← Option.some.inj h]
    refine .inr (.inr (.inr (.inr (.inr (.inr ⟨i, _, .inl hpc, rfl, rfl, ?_⟩)))))
    unfold collectSynclet
    split_ifs
    · exact .inr rfl
    · exact .inl rfl
  | collected i =>
    rw [step] at h
    split_ifs at h with hpc
    rw [← Option.some.inj h]
    exact .inr (.inr (.inr (.inr (.inr (.inr ⟨i, _, .inr hpc, rfl, Lru.valid_gcInvalid, .inl rfl⟩)))))

/-! ## Every operation once -/

/-- A quiet step changes no list. -/
lemma Once.of_quiet (h : Once param s) (hquiet : Quiet s s') : Once param s' := by
  refine ⟨fun id => ?_, ?_, ?_, ?_⟩
  · rw [MfslAsync.places, hquiet.executed, hquiet.valid, hquiet.synclets, hquiet.posted]
    exact h.places id
  · rw [hquiet.synclets]
    exact h.found
  · rw [hquiet.synclets, hquiet.executed]
    exact h.ran
  · rw [hquiet.synclets]
    exact h.unused

variable {i : ℕ}

/-- One synclet changes. -/
lemma Once.update {y' : Synclet} (h : Once param s) (hi : i < param.nbSynclet)
    (hposted : s'.posted = s.posted) (hsynclets : s'.synclets = Function.update s.synclets i y')
    (hcount : ∀ id, s'.executed.count id + s'.asyncOpLru.valid.count id + y'.todo.count id =
      s.executed.count id + s.asyncOpLru.valid.count id + (s.synclets i).todo.count id)
    (hexecuted : ∀ id ∈ s.executed, id ∈ s'.executed) (hfound : ∀ id, y'.pc = .found id → id ∈ y'.opLru.valid)
    (hran : ∀ id, y'.pc = .executed id → id ∈ s'.executed) : Once param s' := by
  refine ⟨fun id => ?_, fun j id hj => ?_, fun j id hj => ?_, fun j hj => ?_⟩
  · have hsum := @sum_update (fun y => y.todo.count id) s.synclets _ i hi y'
    have hplaces := h.places id
    have hid := hcount id
    rw [MfslAsync.places] at hplaces ⊢
    rw [hsynclets, hposted]
    omega
  · rw [hsynclets] at hj ⊢
    by_cases hji : j = i
    · subst hji
      rw [Function.update_self] at hj ⊢
      exact hfound id hj
    · rw [Function.update_of_ne hji] at hj ⊢
      exact h.found j id hj
  · rw [hsynclets] at hj
    by_cases hji : j = i
    · subst hji
      rw [Function.update_self] at hj
      exact hran id hj
    · rw [Function.update_of_ne hji] at hj
      exact hexecuted id (h.ran j id hj)
  · rw [hsynclets, Function.update_of_ne (by omega)]
    exact h.unused j hj

lemma Once.count_le (h : Once param s) (id : ℕ) :
    s.executed.count id + s.asyncOpLru.valid.count id ≤ 1 := by
  have hplaces := h.places id
  rw [MfslAsync.places] at hplaces
  split_ifs at hplaces <;> omega

/-- No operation is executed and still to do. -/
lemma Once.count_todo_le (h : Once param s) (hi : i < param.nbSynclet) (id : ℕ) :
    s.executed.count id + (s.synclets i).todo.count id ≤ 1 := by
  have hplaces := h.places id
  have hle : (s.synclets i).todo.count id ≤ ∑ i ∈ Finset.range param.nbSynclet,
      (s.synclets i).todo.count id :=
    Finset.single_le_sum (f := fun i => (s.synclets i).todo.count id) (fun j _ => Nat.zero_le _)
      (Finset.mem_range.mpr hi)
  rw [MfslAsync.places] at hplaces
  split_ifs at hplaces <;> omega

lemma Once.lt_of_pc (h : Once param s) (hpc : (s.synclets i).pc ≠ .top) : i < param.nbSynclet := by
  by_contra hge
  exact hpc (h.unused i (Nat.le_of_not_lt hge))

lemma todo_of_ne {y : Synclet} (h : ∀ id, y.pc ≠ .executed id) : y.todo = y.opLru.valid := by
  rw [Synclet.todo]
  split
  · rename_i id hpc
    exact absurd hpc (h id)
  · rfl

variable {id : ℕ}

/-- A new entry of a synclet is the last to do. -/
lemma todo_newEntry {y : Synclet} (h : y.pc ≠ .executed id) :
    { y with opLru := y.opLru.newEntry id }.todo = y.todo ++ [id] := by
  rw [Synclet.todo, Synclet.todo]
  cases hpc : y.pc with
  | executed id' =>
    have hne : id ≠ id' := fun heq => h (by rw [hpc, heq])
    simp [hne]
  | top => simp
  | found id' => simp
  | collect => simp
  | collecting => simp

/-- An operation that a synclet has found is posted and not executed yet, and it is once in its
list. -/
lemma Once.of_found (h : Once param s) (hpc : (s.synclets i).pc = .found id) :
    id ∉ s.executed ∧ id < s.posted.length ∧ (s.synclets i).opLru.valid.count id = 1 := by
  have hi : i < param.nbSynclet := h.lt_of_pc (by rw [hpc]; exact Pc.noConfusion)
  have htodo : (s.synclets i).todo = (s.synclets i).opLru.valid :=
    todo_of_ne fun id' => by rw [hpc]; exact Pc.noConfusion
  have hpos := List.count_pos_iff.mpr (h.found i id hpc)
  rw [← htodo] at hpos
  have hle := h.count_todo_le hi id
  refine ⟨List.count_eq_zero.mp (by omega), ?_, by rw [← htodo]; omega⟩
  by_contra hge
  have hplaces := h.places id
  have hsum : ∑ i ∈ Finset.range param.nbSynclet, (s.synclets i).todo.count id = 0 := by
    rw [MfslAsync.places, if_neg hge] at hplaces
    omega
  have hzero := (Finset.sum_eq_zero_iff.mp hsum) i (Finset.mem_range.mpr hi)
  omega

/-- Every step outside the races keeps `Once`. -/
lemma Once.step (h : Once param s) (hapart : Apart param s e) (hs : step param s e = some s') :
    Once param s' := by
  rcases step_cases hapart hs with ⟨desc, -, rfl⟩ | hquiet | ⟨id, c, hid, hc, hsent⟩ |
    ⟨i, id, hi, hpc, hid, rfl⟩ | ⟨i, id, -, hpc, rfl⟩ | ⟨i, id, hpc, rfl⟩ |
    ⟨i, y, hpc, rfl, hvalid, htop⟩
  · refine ⟨fun id => ?_, h.found, h.ran, h.unused⟩
    -- the operation posted now is in no list yet
    have hplaces := h.places id
    rw [MfslAsync.places] at hplaces ⊢
    simp only [mfslAsyncPost, if_true, Lru.valid_newEntry, List.count_append, List.count_singleton,
      List.length_append, List.length_singleton]
    by_cases hlen : id = s.posted.length
    · subst hlen
      rw [if_neg (Nat.lt_irrefl _)] at hplaces
      rw [if_pos (Nat.lt_succ_self _)]
      simp only [beq_self_eq_true, if_true]
      omega
    · have hbeq : (s.posted.length == id) = false := by simpa using Ne.symm hlen
      have hiff : id < s.posted.length + 1 ↔ id < s.posted.length := by omega
      simp only [hbeq, hiff]
      simpa using hplaces
  · exact h.of_quiet hquiet
  · -- the synclet has not executed what is still in the dispatch list
    have hcount := h.count_le id
    have hpos := List.count_pos_iff.mpr hid
    have hne : (s.synclets c).pc ≠ .executed id := fun hpc => by
      have := List.count_pos_iff.mpr (h.ran c id hpc)
      omega
    refine h.update hc hsent.posted hsent.synclets (fun id' => ?_) (fun id' hid' => ?_)
      (fun id' hfound => ?_) fun id' hran => ?_
    · rw [hsent.executed, hsent.valid, count_filter_ne, todo_newEntry hne, List.count_append,
        List.count_singleton]
      by_cases hid' : id' = id
      · subst hid'
        simp only [if_true, beq_self_eq_true]
        omega
      · have hbeq : (id == id') = false := by simpa using Ne.symm hid'
        simp [hid', hbeq]
    · rw [hsent.executed]
      exact hid'
    · rw [Lru.valid_newEntry]
      exact List.mem_append_left _ (h.found c id' hfound)
    · rw [hsent.executed]
      exact h.ran c id' hran
  · refine h.update hi rfl rfl (fun id' => ?_) (fun id' hid' => hid') (fun id' hfound => ?_)
      fun id' hran => Pc.noConfusion hran
    · rw [todo_of_ne fun id' => Pc.noConfusion, todo_of_ne fun id' => by rw [hpc]; exact Pc.noConfusion]
    · rw [← Pc.found.inj hfound]
      exact hid
  · obtain ⟨hnot, -, hone⟩ := h.of_found hpc
    have hi : i < param.nbSynclet := h.lt_of_pc (by rw [hpc]; exact Pc.noConfusion)
    refine h.update hi rfl rfl (fun id' => ?_) (fun id' hid' => List.mem_append_left _ hid')
      (fun id' hfound => Pc.noConfusion hfound) fun id' hran => ?_
    · rw [todo_of_ne (y := s.synclets i) fun id' => by rw [hpc]; exact Pc.noConfusion]
      simp only [Synclet.todo, count_filter_ne, List.count_append, List.count_singleton]
      by_cases hid' : id' = id
      · subst hid'
        simp only [if_true, beq_self_eq_true]
        omega
      · have hbeq : (id == id') = false := by simpa using Ne.symm hid'
        simp [hid', hbeq]
    · rw [← Pc.executed.inj hran]
      exact List.mem_append_right _ (List.mem_singleton_self id)
  · have hi : i < param.nbSynclet := h.lt_of_pc (by rw [hpc]; exact Pc.noConfusion)
    refine h.update hi rfl rfl (fun id' => ?_) (fun id' hid' => hid')
      (fun id' hfound => Pc.noConfusion hfound) fun id' hran => Pc.noConfusion hran
    simp only [Synclet.todo, hpc, Lru.valid_invalidate]
  · have hne : (s.synclets i).pc ≠ .top ∧ ∀ id', (s.synclets i).pc ≠ .executed id' := by
      rcases hpc with hpc | hpc
      · rw [hpc]
        exact ⟨Pc.noConfusion, fun _ => Pc.noConfusion⟩
      · rw [hpc]
        exact ⟨Pc.noConfusion, fun _ => Pc.noConfusion⟩
    have hy : ∀ id', y.pc ≠ .found id' ∧ y.pc ≠ .executed id' := by
      rcases htop with htop | htop
      · rw [htop]
        exact fun _ => ⟨Pc.noConfusion, Pc.noConfusion⟩
      · rw [htop]
        exact fun _ => ⟨Pc.noConfusion, Pc.noConfusion⟩
    refine h.update (h.lt_of_pc hne.1) rfl rfl (fun id' => ?_) (fun id' hid' => hid')
      (fun id' hfound => absurd hfound (hy id').1) fun id' hran => absurd hran (hy id').2
    rw [todo_of_ne fun id' => (hy id').2, hvalid, todo_of_ne hne.2]

/-! ## The order of posting -/

/-- An operation that is executed commutes with those posted before it that are not executed yet. -/
def Commuting (s : State σ) : Event σ → Prop
  | .process i =>
    match (s.synclets i).pc with
    | .found id => ∀ j < id, j ∉ s.executed → Commutes (opFuncOf s.posted j) (opFuncOf s.posted id)
    | _ => True
  | _ => True

instance [Fintype σ] [DecidableEq σ] (f g : σ → σ) : Decidable (Commutes f g) :=
  inferInstanceAs (Decidable (∀ _, _ = _))

instance [Fintype σ] [DecidableEq σ] (s : State σ) : (e : Event σ) → Decidable (Commuting s e)
  | .process i =>
    match hpc : (s.synclets i).pc with
    | .found id =>
      decidable_of_iff (∀ j < id, j ∉ s.executed →
        Commutes (opFuncOf s.posted j) (opFuncOf s.posted id)) (by simp only [Commuting, hpc])
    | .top => isTrue (by simp only [Commuting, hpc])
    | .executed _ => isTrue (by simp only [Commuting, hpc])
    | .collect => isTrue (by simp only [Commuting, hpc])
    | .collecting => isTrue (by simp only [Commuting, hpc])
  | .post .. | .begin _ | .next .. | .find _ | .invalidate _ | .collect _ | .collected _ =>
    isTrue trivial

instance (param : Param) (s : State σ) : (e : Event σ) → Decidable (Apart param s e)
  | .next _ inGc _ => inferInstanceAs (Decidable (∀ c ∈ target param s inGc, _))
  | .post .. | .begin _ | .process _ | .find _ | .invalidate _ | .collect _ | .collected _ =>
    isTrue trivial

/-- The condition on a step. -/
def Careful (param : Param) (s : State σ) (e : Event σ) : Prop := Apart param s e ∧ Commuting s e

instance [Fintype σ] [DecidableEq σ] (param : Param) (s : State σ) (e : Event σ) :
    Decidable (Careful param s e) := inferInstanceAs (Decidable (_ ∧ _))

/-- What is left, in the order of posting, leads to the namespace that all operations give in that
order. -/
def InOrder (fs₀ : σ) (s : State σ) : Prop :=
  applyAll (opFuncOf s.posted) (remaining s.posted.length s.executed) s.fs =
    applyAll (opFuncOf s.posted) (List.range s.posted.length) fs₀

variable {posted : List (AsyncOpDesc σ)} {desc : AsyncOpDesc σ}

lemma opFuncOf_append (h : id < posted.length) : opFuncOf (posted ++ [desc]) id = opFuncOf posted id := by
  rw [opFuncOf, opFuncOf, List.getElem?_append_left h]

lemma applyAll_opFuncOf_append {l : List ℕ} (h : ∀ id ∈ l, id < posted.length) (fs : σ) :
    applyAll (opFuncOf (posted ++ [desc])) l fs = applyAll (opFuncOf posted) l fs := by
  induction l generalizing fs with
  | nil => rfl
  | cons id l ih =>
    rw [applyAll_cons, applyAll_cons, opFuncOf_append (h id List.mem_cons_self),
      ih fun id' hid' => h id' (List.mem_cons_of_mem id hid')]

/-- Applying all operations in the order of posting. -/
lemma applyAll_range {fs : σ} :
    applyAll (opFuncOf posted) (List.range posted.length) fs =
      posted.foldl (fun fs desc => desc.opFunc fs) fs := by
  induction posted using List.reverseRecOn with
  | nil => rfl
  | append_singleton posted desc ih =>
    have hlast : opFuncOf (posted ++ [desc]) posted.length = desc.opFunc := by
      rw [opFuncOf, List.getElem?_concat_length]
    rw [List.length_append, List.length_singleton, List.range_succ, applyAll_append,
      applyAll_opFuncOf_append fun id hid => List.mem_range.mp hid, ih, applyAll_cons, applyAll_nil,
      hlast, List.foldl_append]
    rfl

variable {fs₀ : σ}

/-- A new operation is the last. -/
lemma InOrder.post (h : InOrder fs₀ s) (hnew : s.posted.length ∉ s.executed) :
    InOrder fs₀ (mfslAsyncPost s desc true) := by
  have hbelow : ∀ id ∈ remaining s.posted.length s.executed, id < s.posted.length :=
    fun id hid => (mem_remaining.mp hid).1
  rw [InOrder] at h
  simp only [InOrder, mfslAsyncPost, if_true, List.length_append, List.length_singleton]
  rw [remaining_succ hnew, List.range_succ, applyAll_append, applyAll_append,
    applyAll_opFuncOf_append hbelow, h, applyAll_opFuncOf_append fun id hid => List.mem_range.mp hid]

/-- Every careful step keeps the order. -/
lemma InOrder.step (h : InOrder fs₀ s) (honce : Once param s) (hcareful : Careful param s e)
    (hs : step param s e = some s') : InOrder fs₀ s' := by
  obtain ⟨hapart, hcommuting⟩ := hcareful
  rcases step_cases hapart hs with ⟨desc, -, rfl⟩ | hquiet | ⟨id, c, hid, hc, hsent⟩ |
    ⟨i, id, hi, hpc, hid, rfl⟩ | ⟨i, id, rfl, hpc, rfl⟩ | ⟨i, id, hpc, rfl⟩ | ⟨i, y, hpc, rfl, -⟩
  · refine h.post fun hmem => ?_
    have hplaces := honce.places s.posted.length
    have hpos := List.count_pos_iff.mpr hmem
    rw [places, if_neg (Nat.lt_irrefl _)] at hplaces
    omega
  · rw [InOrder, hquiet.posted, hquiet.executed, hquiet.fs]
    exact h
  · rw [InOrder, hsent.posted, hsent.executed, hsent.fs]
    exact h
  · exact h
  · obtain ⟨hnot, hlt, -⟩ := honce.of_found hpc
    simp only [Commuting, hpc] at hcommuting
    exact (applyAll_remaining hlt hnot hcommuting s.fs).trans h
  · exact h
  · exact h

/-- The lists hold no valid entry. -/
def Drained (param : Param) (s : State σ) : Prop :=
  s.asyncOpLru.valid = [] ∧ ∀ i < param.nbSynclet, (s.synclets i).opLru.valid = []

instance (param : Param) (s : State σ) : Decidable (Drained param s) :=
  inferInstanceAs (Decidable (_ ∧ ∀ i < _, _))

/-- Every state reached is `Once`. -/
lemma once_of_reachable {C : State σ → Event σ → Prop} (hC : ∀ s e, C s e → Apart param s e)
    (h : ReachableBy (step param) C (initialState fs₀) s) : Once param s := by
  refine h.invariant ⟨fun id => ?_, fun i id hpc => ?_, fun i id hpc => ?_, fun i _ => rfl⟩
    fun s e s' hs he hstep => hs.step (hC s e he) hstep
  · rw [places]
    simp [initialState, Queue.valid, Queue.empty, Synclet.init, Synclet.todo]
  · cases hpc
  · cases hpc

lemma Once.executed_nodup (h : Once param s) : s.executed.Nodup := by
  rw [List.nodup_iff_count_le_one]
  intro id
  have hle := h.count_le id
  omega

/-- With nothing left all operations have run. -/
lemma Once.mem_executed (h : Once param s) (hdrained : Drained param s) :
    id ∈ s.executed ↔ id < s.posted.length := by
  have hsum : ∑ i ∈ Finset.range param.nbSynclet, (s.synclets i).todo.count id = 0 := by
    refine Finset.sum_eq_zero fun i hi => List.count_eq_zero.mpr fun hmem => ?_
    have hnil := hdrained.2 i (Finset.mem_range.mp hi)
    rw [Synclet.todo, hnil] at hmem
    split at hmem
    · cases hmem
    · cases hmem
  have hplaces := h.places id
  rw [MfslAsync.places, hdrained.1, hsum] at hplaces
  rw [← List.count_pos_iff]
  split_ifs at hplaces with hlt
  · simp only [List.count_nil] at hplaces
    exact ⟨fun _ => hlt, fun _ => by omega⟩
  · simp only [List.count_nil] at hplaces
    exact ⟨fun hpos => by omega, fun hlt' => absurd hlt' hlt⟩

/-- In a run whose dispatches stay clear of the garbage collections no operation is executed twice, and
when the lists are empty every operation that was posted is executed. In a run of careful steps the
namespace is then the one of the order of posting. -/
theorem in_order_of_careful (param : Param) (fs₀ : σ) :
    (∀ s : State σ, ReachableBy (step param) (Apart param) (initialState fs₀) s →
      s.executed.Nodup ∧ (Drained param s → ∀ id, id ∈ s.executed ↔ id < s.posted.length)) ∧
    ∀ s : State σ, ReachableBy (step param) (Careful param) (initialState fs₀) s → Drained param s →
      s.fs = s.posted.foldl (fun fs desc => desc.opFunc fs) fs₀ := by
  refine ⟨fun s h => ?_, fun s h hdrained => ?_⟩
  · have honce := once_of_reachable (fun _ _ he => he) h
    exact ⟨honce.executed_nodup, fun hdrained id => honce.mem_executed hdrained⟩
  · have hapart : ∀ (s : State σ) e, Careful param s e → Apart param s e := fun _ _ he => he.1
    have hinv : Once param s ∧ InOrder fs₀ s := by
      refine ⟨once_of_reachable hapart h, ?_⟩
      refine (h.invariant (I := fun s => Once param s ∧ InOrder fs₀ s)
        ⟨once_of_reachable hapart .init, rfl⟩ fun s e s' hI hcareful hs =>
          ⟨hI.1.step hcareful.1 hs, hI.2.step hI.1 hcareful hs⟩).2
    obtain ⟨honce, horder⟩ := hinv
    have hnone : remaining s.posted.length s.executed = [] := by
      rw [List.eq_nil_iff_forall_not_mem]
      intro id hid
      obtain ⟨hlt, hnot⟩ := mem_remaining.mp hid
      exact hnot ((honce.mem_executed hdrained).mpr hlt)
    rw [InOrder, hnone, applyAll_nil, applyAll_range] at horder
    exact horder

/-! ## A creation and a rename -/

/-- A namespace with one file: the name that it has, and whether it is given to its owner. The names
are that of the nursery, `a` and `b`. -/
abbrev OneFile := Fin 3 × Bool

/-- The FSAL on it, with one directory. -/
def oneFileFsal : Fsal OneFile Unit (Fin 3) Unit where
  rename s _ src _ dest := if s.1 = src then some (dest, s.2) else none
  lookup s _ name := if s.1 = name then some () else none
  setattrs s _ _ := some (s.1, true)

/-- The file is created as `a`, then `a` becomes `b`. -/
def createThenRename : List (AsyncOpDesc OneFile) :=
  [⟨0, mfslCreateAsyncOp oneFileFsal () 0 () 1 1000 ()⟩, ⟨0, mfslRenameAsyncOp oneFileFsal () 1 () 2⟩]

/-- The steps that execute the operation of a synclet. -/
def serve (i : ℕ) : List (Event OneFile) := [.find i, .process i, .invalidate i, .collect i]

/-- A step of the dispatcher while no list is being collected. -/
def nextEntry : Event OneFile := .next true (fun _ => 0) Queue.empty

/-- Both operations are posted and dispatched. -/
def posts : List (Event OneFile) :=
  createThenRename.map (.post · true) ++ [.begin 2000000, nextEntry, nextEntry, nextEntry]

/-- The parameters with `n + 1` synclets and a window of one second. -/
def withSynclets (n : ℕ) : Param := ⟨n + 1, 1, 0, 1000, 1000, Nat.succ_pos n⟩

/-- With one synclet the file becomes `b`. -/
theorem in_order_of_careful_one_synclet :
    (execute (step (withSynclets 0)) (initialState (0, false)) (posts ++ serve 0 ++ serve 0)).any
        (fun s => decide (Drained (withSynclets 0) s) && s.fs == (2, true)) = true ∧
      ∀ s, execute (step (withSynclets 0)) (initialState (0, false)) (posts ++ serve 0 ++ serve 0) =
          some s → Drained (withSynclets 0) s →
        s.fs = s.posted.foldl (fun fs desc => desc.opFunc fs) (0, false) := by
  refine ⟨by decide +kernel, fun s hs hdrained => ?_⟩
  exact (in_order_of_careful (withSynclets 0) (0, false)).2 s
    (reachableBy_of_execute hs (by decide +kernel)) hdrained

/-- With two synclets the one that has the rename can be first. The rename fails, and the file is
created as `a`. -/
theorem not_in_order_of_two_synclets :
    ¬ ∀ s, Reachable (step (withSynclets 1)) (initialState ((0, false) : OneFile)) s →
      Drained (withSynclets 1) s →
        s.fs = s.posted.foldl (fun fs desc => desc.opFunc fs) (0, false) := by
  intro hall
  have hrun : (execute (step (withSynclets 1)) (initialState (0, false))
      (posts ++ serve 0 ++ serve 1)).any (fun s => decide (Drained (withSynclets 1) s) &&
        s.fs == (1, true) &&
        s.posted.foldl (fun fs desc => desc.opFunc fs) (0, false) == ((2, true) : OneFile)) = true := by
    decide +kernel
  rw [Option.any_eq_true] at hrun
  obtain ⟨s, hs, hfinal⟩ := hrun
  simp only [Bool.and_eq_true, decide_eq_true_eq, beq_iff_eq] at hfinal
  obtain ⟨⟨hdrained, hfs⟩, hposted⟩ := hfinal
  have heq := hall s (reachable_of_execute hs) hdrained
  rw [hfs, hposted] at heq
  exact absurd heq (by decide)

end Ganesha.MfslAsync
