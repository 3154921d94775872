import Ganesha.IdMapper.Common
import Ganesha.Library.Transition

/-!
# The id mapper, theorems

When each call answers as the database does, whatever was called before.
-/

namespace Ganesha.IdMapper
open Library.Transition

variable {p : IdmapParam} {db : Database} {s : State} {entries : List Entry} {t : Caches} {indexSize : UInt32}
  {e : Entry} {id : UInt32} {name : List UInt8} {env : Env}

/-! ## What the properties are about -/

/-- Names and ids are in bijection. -/
structure Bijective (entries : List Entry) : Prop where
  names : ∀ e ∈ entries, ∀ e' ∈ entries, e.name = e'.name → e = e'
  ids : ∀ e ∈ entries, ∀ e' ∈ entries, e.id = e'.id → e = e'

/-- The name fits a key, and the entry fits the buffer of the lookup. -/
def Entry.Usable (e : Entry) : Prop := e.name.length < pwentMaxLen ∧ e.size ≤ maxPathLen

/-- What the database says. A principal is root. -/
def Database.answer (db : Database) : Call → Answer
  | .uid2name uid _ => .ofName ((db.passwd.find? fun e => e.id = uid).map Entry.name)
  | .name2uid name _ =>
    if name.take 4 = nfsPrincipal then .withId 0 else .ofId ((db.passwd.find? fun e => e.name = name).map Entry.id)
  | .gid2name gid _ => .ofName ((db.group.find? fun e => e.id = gid).map Entry.name)
  | .name2gid name _ => .ofId ((db.group.find? fun e => e.name = name).map Entry.id)

/-- The call answers as the database does, and leaves nothing behind if it fails. -/
structure Answers (p : IdmapParam) (db : Database) (s : State) (c : Call) : Prop where
  right : (call p db s c).2 = db.answer c
  failed : (call p db s c).2 = .failed → (call p db s c).1 = s

/-- A name is in the database, and the entries are usable. -/
def Clean (db : Database) : Call → Prop
  | .uid2name uid _ => ∀ e ∈ db.passwd, e.id = uid → e.Usable
  | .name2uid name _ => name.take 4 = nfsPrincipal ∨ ∃ e ∈ db.passwd, e.name = name ∧ e.Usable
  | .gid2name gid _ => ∀ e ∈ db.group, e.id = gid → e.Usable
  | .name2gid name _ => ∃ e ∈ db.group, e.name = name ∧ e.Usable

/-- The mappings of the caches are those of usable entries. -/
structure Sound (entries : List Entry) (t : Caches) : Prop where
  ids : ∀ m ∈ t.ids, ∃ e ∈ entries, e.Usable ∧ m = (e.name, e.id)
  names : ∀ m ∈ t.names, ∃ e ∈ entries, e.Usable ∧ m = (e.id, e.name)

/-! ## The caches -/

lemma strncpy_of_lt {n : ℕ} {src behind : List UInt8} (h : src.length < n) : strncpy n src behind = src := by
  rw [strncpy, if_pos h]

lemma prop_of_find {α : Type*} {P : α → Prop} [DecidablePred P] {l : List α} {a : α}
    (h : l.find? (fun a => P a) = some a) : P a := by
  have ha := List.find?_some h
  rwa [decide_eq_true_eq] at ha

/-- Short names are compared as a whole. -/
lemma sameKey_iff {key : List UInt8} (h : key.length < pwentMaxLen) :
    sameKey indexSize name key = true ↔ name = key := by
  rw [sameKey, decide_eq_true_eq]
  constructor
  · rintro ⟨-, -, htake⟩
    rw [List.take_of_length_le (Nat.le_of_lt h)] at htake
    have hlen := congrArg List.length htake
    rw [List.length_take] at hlen
    rwa [List.take_of_length_le (by omega)] at htake
  · rintro rfl
    exact ⟨rfl, rfl, rfl⟩

lemma Sound.idmapGet (h : Sound entries t) (hget : idmapGet indexSize t.ids name = some id) :
    ∃ e ∈ entries, e.Usable ∧ e.name = name ∧ e.id = id := by
  obtain ⟨m, hm, rfl⟩ := Option.map_eq_some_iff.mp hget
  obtain ⟨e, he, husable, rfl⟩ := h.ids m (List.mem_of_find?_eq_some hm)
  have hsame := List.find?_some hm
  exact ⟨e, he, husable, ((sameKey_iff husable.1).mp hsame).symm, rfl⟩

lemma Sound.namemapGet (h : Sound entries t) (hget : namemapGet t.names id env = some name) :
    ∃ e ∈ entries, e.Usable ∧ e.id = id ∧ e.name = name := by
  obtain ⟨m, hm, rfl⟩ := Option.map_eq_some_iff.mp hget
  obtain ⟨e, he, husable, rfl⟩ := h.names m (List.mem_of_find?_eq_some hm)
  have hid := prop_of_find hm
  exact ⟨e, he, husable, hid, (strncpy_of_lt husable.1).symm⟩

/-- A pair of the database is added. -/
lemma Sound.add (h : Sound entries t) (he : e ∈ entries) (husable : e.Usable) :
    Sound entries (t.add indexSize e.name e.id env) := by
  have hnew : ∃ e' ∈ entries, e'.Usable ∧ (strncpy pwentMaxLen e.name env.behindKey, e.id) = (e'.name, e'.id) :=
    ⟨e, he, husable, by rw [strncpy_of_lt husable.1]⟩
  constructor
  · intro m hm
    have hm : m ∈ idmapAdd indexSize t.ids e.name e.id env := hm
    unfold idmapAdd at hm
    dsimp only at hm
    cases hget : IdMapper.idmapGet indexSize t.ids (strncpy pwentMaxLen e.name env.behindKey) with
    | some id =>
      rw [hget] at hm
      exact h.ids m hm
    | none =>
      rw [hget] at hm
      rcases List.mem_cons.mp hm with rfl | hm
      · exact hnew
      · exact h.ids m hm
  · intro m hm
    have hm : m ∈ namemapAdd t.names e.id e.name env := hm
    unfold namemapAdd at hm
    cases hget : t.names.find? fun m => m.1 = e.id with
    | some m' =>
      rw [hget] at hm
      exact h.names m hm
    | none =>
      rw [hget] at hm
      rcases List.mem_cons.mp hm with rfl | hm
      · exact ⟨e, he, husable, by rw [strncpy_of_lt husable.1]⟩
      · exact h.names m hm

/-! ## The functions -/

lemma find_name (hbij : Bijective entries) (he : e ∈ entries) (hname : e.name = name) :
    entries.find? (fun e => e.name = name) = some e := by
  cases hfind : entries.find? fun e => e.name = name with
  | none => exact absurd (decide_eq_true hname) (List.find?_eq_none.mp hfind e he)
  | some e' =>
    rw [hbij.names e' (List.mem_of_find?_eq_some hfind) e he ((prop_of_find hfind).trans hname.symm)]

lemma find_id (hbij : Bijective entries) (he : e ∈ entries) (hid : e.id = id) :
    entries.find? (fun e => e.id = id) = some e := by
  cases hfind : entries.find? fun e => e.id = id with
  | none => exact absurd (decide_eq_true hid) (List.find?_eq_none.mp hfind e he)
  | some e' =>
    rw [hbij.ids e' (List.mem_of_find?_eq_some hfind) e he ((prop_of_find hfind).trans hid.symm)]

/-- From id to name. -/
lemma id2name_spec (hbij : Bijective entries) (h : Sound entries t)
    (hclean : ∀ e ∈ entries, e.id = id → e.Usable) :
    (id2name indexSize entries t id env).2 = (entries.find? fun e => e.id = id).map Entry.name ∧
      Sound entries (id2name indexSize entries t id env).1 ∧
      ((id2name indexSize entries t id env).2 = none → (id2name indexSize entries t id env).1 = t) := by
  cases hget : namemapGet t.names id env with
  | some name =>
    have heq : id2name indexSize entries t id env = (t, some name) := by simp only [id2name, hget]
    obtain ⟨e, he, -, hid, rfl⟩ := h.namemapGet hget
    rw [heq, find_id hbij he hid]
    exact ⟨rfl, h, fun hno => by cases hno⟩
  | none =>
    cases hfind : entries.find? fun e => e.id = id with
    | none =>
      have heq : id2name indexSize entries t id env = (t, none) := by simp only [id2name, hget, get, hfind]
      rw [heq]
      exact ⟨rfl, h, fun _ => rfl⟩
    | some e =>
      have he := List.mem_of_find?_eq_some hfind
      have hid := prop_of_find hfind
      have husable := hclean e he hid
      have hlen : e.name.length < maxNamLen := Nat.lt_trans husable.1 (by decide)
      have heq : id2name indexSize entries t id env = (t.add indexSize e.name id env, some e.name) := by
        simp only [id2name, hget, get, hfind, husable.2, if_true, strncpy_of_lt hlen]
      rw [heq]
      refine ⟨rfl, ?_, fun hno => by cases hno⟩
      rw [← hid]
      exact h.add he husable

/-- From name to id. -/
lemma name2id_spec (hbij : Bijective entries) (h : Sound entries t) (he : e ∈ entries) (hname : e.name = name)
    (husable : e.Usable) : (name2id indexSize entries t name env).2 = some e.id ∧
      Sound entries (name2id indexSize entries t name env).1 := by
  cases hget : idmapGet indexSize t.ids name with
  | some id =>
    have heq : name2id indexSize entries t name env = (t, some id) := by simp only [name2id, hget]
    obtain ⟨e', he', -, hname', hid⟩ := h.idmapGet hget
    obtain rfl := hbij.names e he e' he' (hname.trans hname'.symm)
    rw [heq, hid]
    exact ⟨rfl, h⟩
  | none =>
    have heq : name2id indexSize entries t name env = (t.add indexSize name e.id env, some e.id) := by
      simp only [name2id, hget, get, find_name hbij he hname, husable.2, if_true]
    rw [heq, ← hname]
    exact ⟨rfl, h.add he husable⟩

/-- A name that is absent is answered all the same. -/
lemma name2id_absent (habsent : ∀ e ∈ entries, e.name ≠ name) :
    (name2id indexSize entries t name env).2 ≠ none := by
  have hfind : entries.find? (fun e => e.name = name) = none := by
    rw [List.find?_eq_none]
    intro e he heq
    exact habsent e he (of_decide_eq_true heq)
  cases hget : idmapGet indexSize t.ids name with
  | some id => simp only [name2id, hget, ne_eq, reduceCtorEq, not_false_eq_true]
  | none => simp only [name2id, hget, get, hfind, ne_eq, reduceCtorEq, not_false_eq_true]

/-! ## Runs -/

/-- The caches of the users and of the groups are sound. -/
def State.Sound (db : Database) (s : State) : Prop :=
  IdMapper.Sound db.passwd s.users ∧ IdMapper.Sound db.group s.groups

/-- No caches yet. -/
def State.init : State := ⟨⟨[], []⟩, ⟨[], []⟩⟩

/-- One call answers by the database. -/
lemma call_spec {c : Call} (hpasswd : Bijective db.passwd) (hgroup : Bijective db.group) (h : s.Sound db)
    (hclean : Clean db c) : Answers p db s c ∧ (call p db s c).1.Sound db := by
  cases c with
  | uid2name uid env =>
    obtain ⟨hright, hsound, hfailed⟩ := @id2name_spec db.passwd s.users p.uidIndexSize uid env hpasswd h.1 hclean
    refine ⟨⟨congrArg Answer.ofName hright, fun hno => ?_⟩, hsound, h.2⟩
    have hnone : (id2name p.uidIndexSize db.passwd s.users uid env).2 = none := by
      cases hr : (id2name p.uidIndexSize db.passwd s.users uid env).2 with
      | none => rfl
      | some name =>
        have hno : Answer.ofName (id2name p.uidIndexSize db.passwd s.users uid env).2 = .failed := hno
        rw [hr] at hno
        cases hno
    show (⟨_, s.groups⟩ : State) = s
    rw [hfailed hnone]
  | gid2name gid env =>
    obtain ⟨hright, hsound, hfailed⟩ := @id2name_spec db.group s.groups p.gidIndexSize gid env hgroup h.2 hclean
    refine ⟨⟨congrArg Answer.ofName hright, fun hno => ?_⟩, h.1, hsound⟩
    have hnone : (id2name p.gidIndexSize db.group s.groups gid env).2 = none := by
      cases hr : (id2name p.gidIndexSize db.group s.groups gid env).2 with
      | none => rfl
      | some name =>
        have hno : Answer.ofName (id2name p.gidIndexSize db.group s.groups gid env).2 = .failed := hno
        rw [hr] at hno
        cases hno
    show (⟨s.users, _⟩ : State) = s
    rw [hfailed hnone]
  | name2uid name env =>
    by_cases hnfs : name.take 4 = nfsPrincipal
    · have heq : name2uid p db s name env = (s, some 0) := if_pos hnfs
      refine ⟨⟨?_, fun hno => ?_⟩, ?_⟩
      · show Answer.ofId (name2uid p db s name env).2 = _
        rw [heq, Database.answer, if_pos hnfs]
        rfl
      · have hno : Answer.ofId (name2uid p db s name env).2 = .failed := hno
        rw [heq] at hno
        cases hno
      · show (name2uid p db s name env).1.Sound db
        rw [heq]
        exact h
    · obtain ⟨e, he, hname, husable⟩ := hclean.resolve_left hnfs
      obtain ⟨hright, hsound⟩ := @name2id_spec db.passwd s.users p.uidIndexSize e name env hpasswd h.1 he hname
        husable
      have heq : name2uid p db s name env =
          (⟨(name2id p.uidIndexSize db.passwd s.users name env).1, s.groups⟩, some e.id) := by
        rw [← hright]
        exact if_neg hnfs
      refine ⟨⟨?_, fun hno => ?_⟩, ?_⟩
      · show Answer.ofId (name2uid p db s name env).2 = _
        rw [heq, Database.answer, if_neg hnfs, find_name hpasswd he hname]
        rfl
      · have hno : Answer.ofId (name2uid p db s name env).2 = .failed := hno
        rw [heq] at hno
        cases hno
      · show (name2uid p db s name env).1.Sound db
        rw [heq]
        exact ⟨hsound, h.2⟩
  | name2gid name env =>
    obtain ⟨e, he, hname, husable⟩ := hclean
    obtain ⟨hright, hsound⟩ := @name2id_spec db.group s.groups p.gidIndexSize e name env hgroup h.2 he hname
      husable
    refine ⟨⟨?_, fun hno => ?_⟩, h.1, hsound⟩
    · show Answer.ofId (name2id p.gidIndexSize db.group s.groups name env).2 = _
      rw [hright, Database.answer, find_name hgroup he hname]
      rfl
    · have hno : Answer.ofId (name2id p.gidIndexSize db.group s.groups name env).2 = .failed := hno
      rw [hright] at hno
      cases hno

/-- A name or id that is absent is answered wrongly. -/
lemma not_answers_of_absent {c : Call} (hclean : ¬ Clean db c)
    (husable : ∀ e ∈ db.passwd ++ db.group, e.Usable) : ¬ Answers p db s c := by
  have hid : ∀ r : Option UInt32, r ≠ none → Answer.ofId r ≠ .failed := by
    intro r hr
    cases r with
    | none => exact absurd rfl hr
    | some id => exact Answer.noConfusion
  cases c with
  | uid2name uid env => exact absurd (fun e he _ => husable e (List.mem_append_left _ he)) hclean
  | gid2name gid env => exact absurd (fun e he _ => husable e (List.mem_append_right _ he)) hclean
  | name2uid name env =>
    have hnfs : ¬ name.take 4 = nfsPrincipal := fun hnfs => hclean (.inl hnfs)
    have habsent : ∀ e ∈ db.passwd, e.name ≠ name := fun e he hname =>
      hclean (.inr ⟨e, he, hname, husable e (List.mem_append_left _ he)⟩)
    intro hanswers
    have hright : Answer.ofId (name2uid p db s name env).2 = _ := hanswers.right
    have hfind : db.passwd.find? (fun e => e.name = name) = none := by
      rw [List.find?_eq_none]
      intro e he heq
      exact habsent e he (of_decide_eq_true heq)
    rw [Database.answer, if_neg hnfs, hfind, name2uid, if_neg hnfs] at hright
    exact hid _ (name2id_absent habsent) hright
  | name2gid name env =>
    have habsent : ∀ e ∈ db.group, e.name ≠ name := fun e he hname =>
      hclean ⟨e, he, hname, husable e (List.mem_append_right _ he)⟩
    intro hanswers
    have hright : Answer.ofId (name2gid p db s name env).2 = _ := hanswers.right
    have hfind : db.group.find? (fun e => e.name = name) = none := by
      rw [List.find?_eq_none]
      intro e he heq
      exact habsent e he (of_decide_eq_true heq)
    rw [Database.answer, hfind] at hright
    exact hid _ (name2id_absent habsent) hright

/-- In every run of clean calls, a clean call answers as the database does. If all entries are usable the
other calls do not. -/
theorem answers_of_clean (hpasswd : Bijective db.passwd) (hgroup : Bijective db.group)
    (h : ReachableBy (step p db) (fun _ c => Clean db c) State.init s) (c : Call) :
    (Clean db c → Answers p db s c) ∧
      (¬ Clean db c → (∀ e ∈ db.passwd ++ db.group, e.Usable) → ¬ Answers p db s c) := by
  have hsound : s.Sound db := by
    refine h.invariant (I := State.Sound db) ?_ fun s c s' hs hc hstep => ?_
    · exact ⟨⟨fun m hm => (by cases hm), fun m hm => (by cases hm)⟩,
        ⟨fun m hm => (by cases hm), fun m hm => (by cases hm)⟩⟩
    · cases hstep
      exact (call_spec hpasswd hgroup hs hc).2
  exact ⟨fun hclean => (call_spec hpasswd hgroup hsound hclean).1, not_answers_of_absent⟩

/-- A user, and his name. -/
def sampleDatabase : Database := ⟨[⟨[97], 5, 20⟩], []⟩

/-- A sample call. -/
theorem answers_of_clean_sample :
    Answers ⟨7, 7⟩ sampleDatabase (call ⟨7, 7⟩ sampleDatabase State.init (.uid2name 5 ⟨0, [], []⟩)).1
      (.name2uid [97] ⟨0, [], []⟩) := by
  have hbij : Bijective sampleDatabase.passwd :=
    ⟨fun e he e' he' _ => by rw [List.mem_singleton.mp he, List.mem_singleton.mp he'],
      fun e he e' he' _ => by rw [List.mem_singleton.mp he, List.mem_singleton.mp he']⟩
  have hempty : Bijective sampleDatabase.group := ⟨fun e he => (by cases he), fun e he => (by cases he)⟩
  have husable : (⟨[97], 5, 20⟩ : Entry).Usable := ⟨by decide, by decide⟩
  have hclean : Clean sampleDatabase (.uid2name 5 ⟨0, [], []⟩) := by
    intro e he _
    rw [List.mem_singleton.mp he]
    exact husable
  refine (answers_of_clean hbij hempty (.next .init hclean rfl) _).1 ?_
  · exact .inr ⟨_, List.mem_singleton_self _, rfl, husable⟩

/-- A name that is not in the database is given the id that lies on the stack. -/
theorem not_answers_of_absent_name : ¬ ∀ p db s, Bijective db.passwd → Bijective db.group →
    Reachable (step p db) State.init s → ∀ c, Answers p db s c := by
  intro h
  have hempty : Bijective [] := ⟨fun e he => (by cases he), fun e he => (by cases he)⟩
  have hright := (h ⟨7, 7⟩ ⟨[], []⟩ State.init hempty hempty .init (.name2uid [97] ⟨0, [], []⟩)).right
  exact absurd hright (by decide +kernel)

end Ganesha.IdMapper
