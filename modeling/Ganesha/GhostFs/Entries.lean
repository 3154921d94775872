import Mathlib.Data.List.Nodup
import Ganesha.GhostFs.Common

/-!
# Lists of entries and memory, lemmas

What the helpers of GHOST_FS do to a list of entries with different names, as sets of entries, and what
the changes of the memory do to the items that are in use.
-/

namespace Ganesha.GhostFs

variable {l l' : List Dirlist} {name newName : Name} {h : Handle} {e : Dirlist} {f : Dirlist → Dirlist}

/-- The names of a list of entries. -/
def names (l : List Dirlist) : List Name := l.map Dirlist.name

/-- The names of the entries. -/
lemma mem_names : name ∈ names l ↔ ∃ h, ⟨name, h⟩ ∈ l := by
  rw [names, List.mem_map]
  constructor
  · rintro ⟨⟨_, h⟩, hmem, rfl⟩
    exact ⟨h, hmem⟩
  · rintro ⟨h, hmem⟩
    exact ⟨_, hmem, rfl⟩

lemma mem_addDirEntry : e ∈ addDirEntry l h name ↔ e ∈ l ∨ e = ⟨name, h⟩ := by
  rw [addDirEntry, List.mem_append, List.mem_singleton]

lemma nodup_addDirEntry (hl : (names l).Nodup) (hname : name ∉ names l) :
    (names (addDirEntry l h name)).Nodup := by
  rw [names, addDirEntry, List.map_append]
  refine List.Nodup.append hl (List.nodup_singleton _) fun m hm hm' => ?_
  rw [List.mem_singleton.mp hm'] at hm
  exact hname hm

/-- A name that is not there. -/
lemma findEntry_eq_none : findEntry l name = none ↔ name ∉ names l := by
  rw [findEntry, Option.map_eq_none_iff, List.find?_eq_none, names, List.mem_map]
  constructor
  · rintro hl ⟨e, he, rfl⟩
    exact hl e he (decide_eq_true rfl)
  · intro hl e he heq
    exact hl ⟨e, he, of_decide_eq_true heq⟩

/-- A name that was found. -/
lemma mem_of_findEntry (hfind : findEntry l name = some h) : (⟨name, h⟩ : Dirlist) ∈ l := by
  rw [findEntry, Option.map_eq_some_iff] at hfind
  obtain ⟨e, he, rfl⟩ := hfind
  have hname := List.find?_some he
  rw [decide_eq_true_eq] at hname
  rw [← hname]
  exact List.mem_of_find?_eq_some he

lemma eq_of_name {e' : Dirlist} (hl : (names l).Nodup) (he : e ∈ l) (he' : e' ∈ l)
    (hname : e.name = e'.name) : e = e' :=
  List.inj_on_of_nodup_map hl he he' hname

/-- The entries left after the removal of a name. -/
lemma mem_removeEntry (hl : (names l).Nodup) (hremove : removeEntry name l = some l') :
    (names l').Nodup ∧ ∀ e, e ∈ l' ↔ e ∈ l ∧ e.name ≠ name := by
  induction l generalizing l' with
  | nil => cases hremove
  | cons a l ih =>
    obtain ⟨ha, hl⟩ := List.nodup_cons.mp hl
    rw [removeEntry] at hremove
    split_ifs at hremove with hname
    · rw [← Option.some.inj hremove]
      refine ⟨hl, fun e => ⟨fun he => ⟨List.mem_cons_of_mem _ he, ?_⟩, fun he => ?_⟩⟩
      · rintro rfl
        exact ha (hname ▸ List.mem_map_of_mem he)
      · rcases List.mem_cons.mp he.1 with rfl | hmem
        · exact absurd hname he.2
        · exact hmem
    · rw [Option.map_eq_some_iff] at hremove
      obtain ⟨l₁, hl₁, rfl⟩ := hremove
      obtain ⟨hnodup, hmem⟩ := ih hl hl₁
      refine ⟨List.nodup_cons.mpr ⟨fun hin => ha ?_, hnodup⟩, fun e => ?_⟩
      · obtain ⟨h, hh⟩ := mem_names.mp hin
        exact mem_names.mpr ⟨h, ((hmem _).mp hh).1⟩
      · rw [List.mem_cons, List.mem_cons, hmem]
        constructor
        · rintro (rfl | he)
          · exact ⟨.inl rfl, hname⟩
          · exact ⟨.inr he.1, he.2⟩
        · rintro ⟨rfl | he, hne⟩
          · exact .inl rfl
          · exact .inr ⟨he, hne⟩

/-- A name that is there can be removed. -/
lemma exists_removeEntry (hname : name ∈ names l) : ∃ l', removeEntry name l = some l' := by
  induction l with
  | nil => cases hname
  | cons a l ih =>
    rw [removeEntry]
    split_ifs with ha
    · exact ⟨l, rfl⟩
    · obtain ⟨l', hl'⟩ := ih ((List.mem_cons.mp hname).resolve_left fun heq => ha heq.symm)
      rw [hl']
      exact ⟨_, rfl⟩

/-- The entries after one was replaced. -/
lemma mem_updateEntry (hl : (names l).Nodup) (hupdate : updateEntry f name l = some l') :
    ∃ h, ⟨name, h⟩ ∈ l ∧ ∀ e, e ∈ l' ↔ e ∈ l ∧ e.name ≠ name ∨ e = f ⟨name, h⟩ := by
  induction l generalizing l' with
  | nil => cases hupdate
  | cons a l ih =>
    obtain ⟨ha, hl⟩ := List.nodup_cons.mp hl
    rw [updateEntry] at hupdate
    split_ifs at hupdate with hname
    · obtain rfl : f a :: l = l' := Option.some.inj hupdate
      obtain ⟨an, ah⟩ := a
      obtain rfl : an = name := hname
      refine ⟨ah, List.mem_cons_self, fun e => ?_⟩
      rw [List.mem_cons, List.mem_cons]
      constructor
      · rintro (rfl | he)
        · exact .inr rfl
        · refine .inl ⟨.inr he, fun heq => ha ?_⟩
          show an ∈ names l
          rw [← heq]
          exact mem_names.mpr ⟨e.handle, he⟩
      · rintro (⟨rfl | he, hne⟩ | rfl)
        · exact absurd rfl hne
        · exact .inr he
        · exact .inl rfl
    · rw [Option.map_eq_some_iff] at hupdate
      obtain ⟨l₁, hl₁, rfl⟩ := hupdate
      obtain ⟨h, hh, hmem⟩ := ih hl hl₁
      refine ⟨h, List.mem_cons_of_mem _ hh, fun e => ?_⟩
      rw [List.mem_cons, List.mem_cons, hmem]
      constructor
      · rintro (rfl | ⟨he, hne⟩ | rfl)
        · exact .inl ⟨.inl rfl, hname⟩
        · exact .inl ⟨.inr he, hne⟩
        · exact .inr rfl
      · rintro (⟨rfl | he, hne⟩ | rfl)
        · exact .inl rfl
        · exact .inr (.inl ⟨he, hne⟩)
        · exact .inr (.inr rfl)

/-- Names stay apart when the new one is free. -/
lemma nodup_updateEntry (hl : (names l).Nodup) (hnew : ∀ h, (f ⟨name, h⟩).name = newName)
    (hfree : newName ∈ names l → newName = name) (hupdate : updateEntry f name l = some l') :
    (names l').Nodup := by
  induction l generalizing l' with
  | nil => cases hupdate
  | cons a l ih =>
    have hcons : a.name ∉ names l ∧ (names l).Nodup := List.nodup_cons.mp hl
    rw [updateEntry] at hupdate
    split_ifs at hupdate with hname
    · obtain rfl : f a :: l = l' := Option.some.inj hupdate
      obtain ⟨an, ah⟩ := a
      obtain rfl : an = name := hname
      refine List.nodup_cons.mpr ⟨fun hin => ?_, hcons.2⟩
      rw [hnew ah] at hin
      exact hcons.1 (hfree (List.mem_cons_of_mem _ hin) ▸ hin)
    · rw [Option.map_eq_some_iff] at hupdate
      obtain ⟨l₁, hl₁, rfl⟩ := hupdate
      refine List.nodup_cons.mpr
        ⟨fun hin => ?_, ih hcons.2 (fun hin => hfree (List.mem_cons_of_mem _ hin)) hl₁⟩
      obtain ⟨h, hh⟩ := mem_names.mp hin
      obtain ⟨h₀, -, hmem⟩ := mem_updateEntry hcons.2 hl₁
      rcases (hmem _).mp hh with ⟨hold, -⟩ | heq
      · exact hcons.1 (mem_names.mpr ⟨h, hold⟩)
      · have haname : a.name = newName := (congrArg Dirlist.name heq).trans (hnew h₀)
        exact hname (haname.trans (hfree (haname ▸ List.mem_cons_self)))

/-- A name that is there can be replaced. -/
lemma exists_updateEntry (hname : name ∈ names l) : ∃ l', updateEntry f name l = some l' := by
  induction l with
  | nil => cases hname
  | cons a l ih =>
    rw [updateEntry]
    split_ifs with ha
    · exact ⟨_, rfl⟩
    · obtain ⟨l', hl'⟩ := ih ((List.mem_cons.mp hname).resolve_left fun heq => ha heq.symm)
      rw [hl']
      exact ⟨_, rfl⟩

/-! ## Memory -/

variable {s : State} {p x : ℕ} {it : Item}

/-- The item at an address, if it is in use. -/
def State.item (s : State) (p : ℕ) : Option Item := (s.memory.lookup p).filter Item.live

/-- Looking up an address after one item was changed. -/
lemma lookup_modify {f : Item → Item} : (s.modify p f).memory.lookup x =
    if x = p then (s.memory.lookup x).map f else s.memory.lookup x := by
  rw [State.modify]
  split
  · rename_i hp
    split_ifs with hx
    · rw [hx, hp]
      rfl
    · rfl
  · rename_i it hp
    split_ifs with hx
    · rw [hx, hp, Finmap.lookup_insert]
      rfl
    · exact Finmap.lookup_insert_of_ne _ hx

/-- The live item at an address after one item was changed. -/
lemma item_modify {f : Item → Item} (hf : ∀ it, (f it).live = it.live) :
    (s.modify p f).item x = if x = p then (s.item x).map f else s.item x := by
  rw [State.item, lookup_modify, State.item]
  split_ifs with hx
  · cases s.memory.lookup x with
    | none => rfl
    | some it =>
      rw [Option.map_some]
      by_cases hlive : it.live = true
      · rw [Option.filter_some_pos hlive, Option.filter_some_pos ((hf it).trans hlive)]
        rfl
      · have hdead : it.live = false := Bool.eq_false_iff.mpr hlive
        rw [Option.filter_some_neg hdead, Option.filter_some_neg ((hf it).trans hdead)]
        rfl
  · rfl

/-- The items after one was freed. -/
lemma item_free : (s.free p).item x = if x = p then none else s.item x := by
  rw [State.item, State.free, lookup_modify, State.item]
  split_ifs with hx
  · cases s.memory.lookup x with
    | none => rfl
    | some it => rfl
  · rfl

lemma item_alloc (hlive : it.live = true) :
    (s.alloc p it).item x = if x = p then some it else s.item x := by
  rw [State.item, State.alloc, State.item]
  split_ifs with hx
  · rw [hx, Finmap.lookup_insert, Option.filter_some_pos hlive]
  · rw [Finmap.lookup_insert_of_ne _ hx]

lemma item_eq_some : s.item p = some it ↔ s.memory.lookup p = some it ∧ it.live = true := by
  rw [State.item, Option.filter_eq_some_iff]

end Ganesha.GhostFs
