import Ganesha.CacheInode.Changes

/-!
# What populating a directory does
-/

namespace Ganesha.CacheInode.Dirents

variable {Q : Bool → Prop} {c c' c'' : Cache} {dir node : ℕ} {next : Option ℕ} {env : PopulateEnv}
  {item : Item} {v : ℕ → Bool}

/-- The error of `FSAL_readlink`, if it is called for the item. -/
def Item.readlinkError (item : Item) : Option FsalError :=
  if item.type = .symbolicLink then item.readlink else none

/-- The object of the item is read, and it has an entry. -/
def Item.entered (item : Item) : Bool := item.readlinkError.isNone && item.newEntry.toBool

/-- The items of the calls up to the one that fails. -/
def allItems : List (Except FsalError (List Item)) → List Item
  | [] => []
  | .error _ :: _ => []
  | .ok items :: batches => items ++ allItems batches

/-- `valid_state` of all entries after the one of the item is there. -/
def Item.makes (item : Item) (v : ℕ → Bool) : ℕ → Bool :=
  match item.newEntry with
  | .ok (e, true) => Function.update v e true
  | _ => v

/-- The entries of the items that are cached: a new one is not the directory, and `valid_state` of one
that was there meets `Q`. -/
def Given (Q : Bool → Prop) (dir : ℕ) : (ℕ → Bool) → List Item → Prop
  | _, [] => True
  | v, item :: items =>
    if item.special then Given Q dir v items
    else (∀ e, item.newEntry = .ok (e, true) → e ≠ dir) ∧
      (∀ e, item.newEntry = .ok (e, false) → Q (v e)) ∧ Given Q dir (item.makes v) items

/-- A node of the directory that the loops over the chain come to. -/
def Cursor (nodes : List Node) (p : Option ℕ) : Prop :=
  ∀ pos, p = some pos → pos < nodes.length ∧ Visible nodes pos

lemma Cursor.none (nodes : List Node) : Cursor nodes none :=
  fun _ h => nomatch h

lemma Added.cursor {added : ℕ} (h : Added c c' dir added) {p : Option ℕ}
    (hp : Cursor (c dir).nodes p) : Cursor (c' dir).nodes p := by
  intro pos hpos
  have hold := hp pos hpos
  exact ⟨Nat.lt_of_lt_of_le hold.1 h.grows, h.visible pos hold.1 hold.2⟩

/-- What is left when the call fails. -/
structure Stopped (Q : Bool → Prop) (c : Cache) (dir : ℕ) (r : Status × Cache) : Prop where
  status : r.1 ≠ .success
  directories : Directories Q r.2
  flag : (r.2 dir).hasBeenReaddir = true → (c dir).hasBeenReaddir = true

/-- What is left when the loop goes on. -/
structure Turn (Q : Bool → Prop) (c : Cache) (dir : ℕ) (r : Option ℕ × Cache) : Prop where
  directories : Directories Q r.2
  type : (r.2 dir).type = .dirBeginning
  flag : (r.2 dir).hasBeenReaddir = (c dir).hasBeenReaddir
  next : Cursor (r.2 dir).nodes r.1
  cursor : ∀ p, Cursor (c dir).nodes p → Cursor (r.2 dir).nodes p

lemma Stopped.of_turn {r : Option ℕ × Cache} {r' : Status × Cache} (h : Turn Q c dir r)
    (h' : Stopped Q r.2 dir r') : Stopped Q c dir r' :=
  ⟨h'.status, h'.directories, fun hflag => h.flag ▸ h'.flag hflag⟩

lemma Turn.trans {r r' : Option ℕ × Cache} (h : Turn Q c dir r) (h' : Turn Q r.2 dir r') :
    Turn Q c dir r' :=
  ⟨h'.directories, h'.type, h'.flag.trans h.flag, h'.next, fun p hp => h'.cursor p (h.cursor p hp)⟩

lemma populateError_stopped (h : Directories Q c) (err : FsalError) (env : PopulateEnv) :
    Stopped Q c dir (populateError c dir err env) := by
  unfold populateError
  split
  · have hfades := cacheInodeKillEntry_fades c dir env.kill env.killConts
    exact ⟨by simp, h.fades hfades, hfades.hasBeenReaddir dir⟩
  · exact ⟨errorConvert_ne_success err, h, fun hflag => hflag⟩

/-! ## One item -/

lemma populateItem_special (parent : Option ℕ) (h : item.special = true) :
    populateItem env dir parent next c item = some (.ok (next, c)) := by
  unfold populateItem
  rw [if_pos h]

/-- An item that is entered without a name. -/
lemma populateItem_crash (h : item.special = false) (hentered : item.entered = true) :
    populateItem env dir none next c item = none := by
  unfold Item.entered Item.readlinkError at hentered
  rw [Bool.and_eq_true, Option.isNone_iff_eq_none] at hentered
  unfold populateItem
  rw [h, hentered.1]
  cases hentry : item.newEntry with
  | error err =>
    rw [hentry] at hentered
    cases hentered.2
  | ok entry => rfl

/-- An entry that is not made stops the loop. -/
lemma populateItem_refused (env : PopulateEnv) (dir : ℕ) (parent next : Option ℕ) (hc : Directories Q c) (h : item.special = false)
    (hentered : item.entered = false) :
    ∃ r, populateItem env dir parent next c item = some (.error r) ∧ Stopped Q c dir r := by
  unfold populateItem
  rw [h]
  unfold Item.entered Item.readlinkError at hentered
  cases hlink : (if item.type = .symbolicLink then item.readlink else none) with
  | some err => exact ⟨_, rfl, populateError_stopped hc err env⟩
  | none =>
    rw [hlink] at hentered
    cases hentry : item.newEntry with
    | error err => exact ⟨_, rfl, err.2.1, hc, fun hflag => hflag⟩
    | ok entry =>
      rw [hentry] at hentered
      cases hentered

/-- An entry that is made gets a dirent, or stops the loop. -/
lemma populateItem_entered (env : PopulateEnv) (next : Option ℕ) (hQ : Q true)
    (hc : Directories Q c) (htype : (c dir).type = .dirBeginning)
    (hgiven : Given Q dir (fun e => (c e).validState) [item]) (hnode : Cursor (c dir).nodes (some node))
    (h : item.special = false) (hentered : item.entered = true) :
    (∃ r, populateItem env dir (some node) next c item = some (.error r) ∧ Stopped Q c dir r) ∨
    ∃ r, populateItem env dir (some node) next c item = some (.ok r) ∧ Turn Q c dir r ∧
      r.1.isSome = true ∧ (∃ pos, Put (c dir).nodes (r.2 dir).nodes pos item.name) ∧
      (fun e => (r.2 e).validState) = item.makes fun e => (c e).validState := by
  unfold Item.entered Item.readlinkError at hentered
  rw [Bool.and_eq_true, Option.isNone_iff_eq_none] at hentered
  unfold Given at hgiven
  rw [h] at hgiven
  obtain ⟨hnew, hold, -⟩ := hgiven
  unfold populateItem
  rw [h, hentered.1]
  cases hentry : item.newEntry with
  | error err =>
    rw [hentry] at hentered
    cases hentered.2
  | ok entry =>
    obtain ⟨e, new⟩ := entry
    simp only [Bool.false_eq_true, if_false, Option.bind_some]
    -- the cache with the entry
    set c₁ : Cache := if new = true then Function.update c e (Entry.new item.type) else c with hc₁
    have hsame : c₁ dir = c dir := by
      rw [hc₁]
      split
      · rename_i htrue
        exact Function.update_of_ne (hnew e (htrue ▸ hentry)).symm _ _
      · rfl
    have hdirs : Directories Q c₁ := by
      rw [hc₁]
      split
      · exact hc.new hQ e item.type
      · exact hc
    have hvalid : (fun e => (c₁ e).validState) = item.makes fun e => (c e).validState := by
      unfold Item.makes
      rw [hentry, hc₁]
      cases new with
      | true =>
        funext e'
        simp only [if_true]
        rcases eq_or_ne e' e with rfl | hne
        · rw [Function.update_self, Function.update_self]
          rfl
        · rw [Function.update_of_ne hne, Function.update_of_ne hne]
      | false => rfl
    have hQe : Q (c₁ e).validState := by
      rw [hc₁]
      split
      · rw [Function.update_self]
        exact hQ
      · rename_i hfalse
        have hnew' : new = false := by simpa using hfalse
        exact hold e (hnew' ▸ hentry)
    have htype₁ : (c₁ dir).type = .dirBeginning := by rw [hsame, htype]
    obtain ⟨hlt, hvisible⟩ := hnode node rfl
    obtain ⟨status, next', c', hadd, hadded, hcase⟩ :=
      cacheInodeAddCachedDirent_spec htype₁ (hdirs dir htype₁).1 (hdirs.named htype₁)
        (by rw [hsame]; exact hvisible) (by rw [hsame]; exact hlt) item.name e item.add
    rw [hadd, Option.map_some]
    have hdirs' : Directories Q c' := hdirs.added htype₁ hadded hQe
    have hflag : (c' dir).hasBeenReaddir = (c dir).hasBeenReaddir := by
      rw [hadded.only.hasBeenReaddir, hsame]
    rcases hcase with ⟨rfl, pos, rfl, hpos, hvis, hput⟩ | ⟨hne, hne', rfl⟩
    · refine .inr ⟨(some pos, c'), rfl, ⟨hdirs', ?_, hflag, ?_, fun p hp => ?_⟩, rfl, ?_, ?_⟩
      · rw [hadded.only.type, htype₁]
      · intro pos' heq
        cases heq
        exact ⟨hpos, hvis⟩
      · rw [← hsame] at hp
        exact hadded.cursor hp
      · rw [← hsame]
        exact ⟨pos, hput⟩
      · rw [← hvalid]
        funext e'
        exact hadded.only.validState e'
    · refine .inl ⟨(status, c'), ?_, hne, hdirs', fun h => hflag ▸ h⟩
      simp only [ne_eq, hne, hne', not_false_eq_true, and_self, if_true]

/-! ## The loops -/

/-- The names are put into free slots, one after the other. -/
inductive Puts : List Node → List Name → List Node → Prop
  | nil (nodes : List Node) : Puts nodes [] nodes
  | cons {nodes nodes' nodes'' : List Node} {pos : ℕ} {name : Name} {names : List Name} :
      Put nodes nodes' pos name → Puts nodes' names nodes'' → Puts nodes (name :: names) nodes''

lemma Puts.append {nodes nodes' nodes'' : List Node} {names names' : List Name}
    (h : Puts nodes names nodes') (h' : Puts nodes' names' nodes'') :
    Puts nodes (names ++ names') nodes'' := by
  induction h with
  | nil => exact h'
  | cons hput _ ih => exact .cons hput (ih h')

/-- The names of the items that are cached. -/
def regularNames (items : List Item) : List Name :=
  (items.filter fun item => !item.special).map Item.name

/-- What the loop over items does to the directory. -/
structure Filled (Q : Bool → Prop) (c : Cache) (dir : ℕ) (items rest : List Item)
    (r : Option ℕ × Cache) : Prop where
  turn : Turn Q c dir r
  given : Given Q dir (fun e => (r.2 e).validState) rest
  puts : Puts (c dir).nodes (regularNames items) (r.2 dir).nodes

lemma Turn.refl (hc : Directories Q c) (htype : (c dir).type = .dirBeginning)
    (hnext : Cursor (c dir).nodes next) : Turn Q c dir (next, c) :=
  ⟨hc, htype, rfl, hnext, fun _ hp => hp⟩

/-- The loop over `array_dirent`. If there is no next node afterwards, then there was none before and
no item is cached. -/
theorem populateItems_spec (env : PopulateEnv) (hQ : Q true) (items rest : List Item) (hc : Directories Q c)
    (htype : (c dir).type = .dirBeginning)
    (hgiven : Given Q dir (fun e => (c e).validState) (items ++ rest))
    (hnode : Cursor (c dir).nodes (some node)) (hnext : Cursor (c dir).nodes next) :
    (∃ r, populateItems env dir (some node) next c items = some (.error r) ∧ Stopped Q c dir r) ∨
    ∃ r, populateItems env dir (some node) next c items = some (.ok r) ∧
      Filled Q c dir items rest r ∧
      (r.1 = none → next = none ∧ ∀ item ∈ items, item.special = true) := by
  induction items generalizing next c with
  | nil =>
    refine .inr ⟨(next, c), rfl, ⟨.refl hc htype hnext, hgiven, .nil _⟩, fun hnone => ⟨hnone, ?_⟩⟩
    intro item hitem
    cases hitem
  | cons item items ih =>
    unfold populateItems
    -- the dot entries are passed over
    by_cases hspecial : item.special = true
    · rw [populateItem_special _ hspecial, Option.bind_some]
      rw [List.cons_append, Given, if_pos hspecial] at hgiven
      rcases ih hc htype hgiven hnode hnext with hstopped | ⟨r, hr, hfilled, hnone⟩
      · exact .inl hstopped
      · refine .inr ⟨r, hr, ⟨hfilled.turn, hfilled.given, ?_⟩, fun h => ⟨(hnone h).1, ?_⟩⟩
        · have hsame : regularNames (item :: items) = regularNames items := by
            simp [regularNames, hspecial]
          rw [hsame]
          exact hfilled.puts
        · intro item' hitem'
          rcases List.mem_cons.mp hitem' with rfl | hitem'
          · exact hspecial
          · exact (hnone h).2 item' hitem'
    · have hregular : item.special = false := by simpa using hspecial
      by_cases hentered : item.entered = true
      swap
      · obtain ⟨r, hr, hstopped⟩ := populateItem_refused env dir (some node) next hc
          hregular (by simpa using hentered)
        rw [hr, Option.bind_some]
        exact .inl ⟨r, rfl, hstopped⟩
      rw [List.cons_append, Given, if_neg hspecial] at hgiven
      have hone : Given Q dir (fun e => (c e).validState) [item] := by
        rw [Given, if_neg hspecial]
        exact ⟨hgiven.1, hgiven.2.1, trivial⟩
      rcases populateItem_entered env next hQ hc htype hone hnode hregular hentered with
        ⟨r, hr, hstopped⟩ | ⟨r, hr, hturn, hsome, ⟨pos, hput⟩, hvalid⟩
      · rw [hr, Option.bind_some]
        exact .inl ⟨r, rfl, hstopped⟩
      · rw [hr, Option.bind_some]
        have hrest := hgiven.2.2
        rw [← hvalid] at hrest
        rcases ih hturn.directories hturn.type hrest (hturn.cursor _ hnode) hturn.next with
          ⟨r', hr', hstopped⟩ | ⟨r', hr', hfilled, hnone⟩
        · exact .inl ⟨r', hr', .of_turn hturn hstopped⟩
        · refine .inr ⟨r', hr', ⟨hturn.trans hfilled.turn, hfilled.given, ?_⟩, fun h => ?_⟩
          · have hcons : regularNames (item :: items) = item.name :: regularNames items := by
              simp [regularNames, hregular]
            rw [hcons]
            exact .cons hput hfilled.puts
          · rw [(hnone h).1] at hsome
            cases hsome

/-- Two runs of items. -/
lemma Filled.append {items items' : List Item} {r r' : Option ℕ × Cache} (h : Turn Q c dir r)
    (hputs : Puts (c dir).nodes (regularNames items) (r.2 dir).nodes)
    (h' : Filled Q r.2 dir items' [] r') : Filled Q c dir (items ++ items') [] r' := by
  refine ⟨h.trans h'.turn, trivial, ?_⟩
  have happend : regularNames (items ++ items') = regularNames items ++ regularNames items' := by
    rw [regularNames, List.filter_append, List.map_append]
    rfl
  rw [happend]
  exact hputs.append h'.puts

/-- The loop over the calls of `FSAL_readdir` once a dirent has been added. -/
theorem populateBatches_spec (env : PopulateEnv) (hQ : Q true) (batches : List (Except FsalError (List Item)))
    {n : ℕ} (hc : Directories Q c) (htype : (c dir).type = .dirBeginning)
    (hgiven : Given Q dir (fun e => (c e).validState) (allItems batches))
    (hnode : Cursor (c dir).nodes (some node)) (hnext : Cursor (c dir).nodes (some n)) :
    (∃ r, populateBatches env dir (some node) (some n) c batches = some (.error r) ∧
      Stopped Q c dir r) ∨
    ∃ next' c', populateBatches env dir (some node) (some n) c batches = some (.ok c') ∧
      Filled Q c dir (allItems batches) [] (next', c') := by
  induction batches generalizing node n c with
  | nil => exact .inr ⟨some n, c, rfl, .refl hc htype hnext, trivial, .nil _⟩
  | cons batch batches ih =>
    cases batch with
    | error err => exact .inl ⟨_, rfl, errorConvert_ne_success err, hc, fun h => h⟩
    | ok items =>
      rw [populateBatches]
      rcases populateItems_spec env hQ items (allItems batches) hc htype hgiven hnode hnext with
        ⟨r, hr, hstopped⟩ | ⟨⟨next', c'⟩, hr, hfilled, hnone⟩
      · rw [hr, Option.bind_some]
        exact .inl ⟨r, rfl, hstopped⟩
      · cases next' with
        | none => cases (hnone rfl).1
        | some n' =>
          rw [hr, Option.bind_some]
          rcases ih hfilled.turn.directories hfilled.turn.type hfilled.given hfilled.turn.next
            hfilled.turn.next with ⟨r, hr', hstopped⟩ | ⟨next', c'', hr', hrest⟩
          · exact .inl ⟨r, hr', .of_turn hfilled.turn hstopped⟩
          · exact .inr ⟨next', c'', hr', .append hfilled.turn hfilled.puts hrest⟩

/-- The first item that is not skipped, unless a call of `FSAL_readdir` fails before it. -/
def firstRegular (batches : List (Except FsalError (List Item))) : Option Item :=
  (allItems batches).find? fun item => !item.special

/-- The dot entries are passed over. -/
lemma populateItems_of_special (parent : Option ℕ) {items : List Item}
    (h : ∀ item ∈ items, item.special = true) :
    populateItems env dir parent next c items = some (.ok (next, c)) := by
  induction items with
  | nil => rfl
  | cons item items ih =>
    unfold populateItems
    rw [populateItem_special _ (h item List.mem_cons_self), Option.bind_some]
    exact ih fun item' hitem' => h item' (List.mem_cons_of_mem item hitem')

/-- The first name of a later call meets a parent that is `NULL`. -/
lemma populateItems_late (env : PopulateEnv) (dir : ℕ) (hc : Directories Q c) (items : List Item)
    (hfirst : items.find? (fun item => !item.special) = some item) :
    item.entered = true ∧ populateItems env dir none none c items = none ∨
      item.entered = false ∧ ∃ r, populateItems env dir none none c items = some (.error r) ∧
        Stopped Q c dir r := by
  induction items with
  | nil => cases hfirst
  | cons first items ih =>
    unfold populateItems
    rw [List.find?_cons] at hfirst
    cases hspecial : first.special with
    | true =>
      rw [hspecial] at hfirst
      rw [populateItem_special _ hspecial, Option.bind_some]
      exact ih hfirst
    | false =>
      rw [hspecial] at hfirst
      have heq : first = item := Option.some.inj hfirst
      subst heq
      cases hentered : first.entered with
      | true =>
        rw [populateItem_crash hspecial hentered]
        exact .inl ⟨rfl, rfl⟩
      | false =>
        obtain ⟨r, hr, hstopped⟩ := populateItem_refused env dir none none hc hspecial hentered
        rw [hr]
        exact .inr ⟨rfl, r, rfl, hstopped⟩

/-- The loop over the calls of `FSAL_readdir` when the first of them has listed nothing that is cached:
it reads through `NULL` if a later item gets as far as having an entry. -/
theorem populateBatches_late (env : PopulateEnv) (hc : Directories Q c) (htype : (c dir).type = .dirBeginning)
    (batches : List (Except FsalError (List Item))) :
    (∃ item, firstRegular batches = some item ∧ item.entered = true) ∧
        populateBatches env dir none none c batches = none ∨
      (¬ ∃ item, firstRegular batches = some item ∧ item.entered = true) ∧
        ((∃ r, populateBatches env dir none none c batches = some (.error r) ∧ Stopped Q c dir r) ∨
          populateBatches env dir none none c batches = some (.ok c) ∧
            Filled Q c dir (allItems batches) [] (none, c)) := by
  induction batches with
  | nil =>
    refine .inr ⟨?_, .inr ⟨rfl, .refl hc htype (.none _), trivial, .nil _⟩⟩
    intro ⟨item, hnone, _⟩
    cases hnone
  | cons batch batches ih =>
    cases batch with
    | error err =>
      refine .inr ⟨?_, .inl ⟨_, rfl, errorConvert_ne_success err, hc, fun h => h⟩⟩
      intro ⟨item, hnone, _⟩
      cases hnone
    | ok items =>
      rw [populateBatches]
      have hfirst : firstRegular (.ok items :: batches) =
          (items.find? fun item => !item.special).or (firstRegular batches) := by
        unfold firstRegular
        exact List.find?_append
      rw [hfirst]
      -- the first item that is no dot entry is here or in a later batch
      cases hfind : items.find? fun item => !item.special with
      | some item =>
        rcases populateItems_late env dir hc items hfind with
          ⟨hentered, hr⟩ | ⟨hentered, r, hr, hstopped⟩
        · rw [hr]
          exact .inl ⟨⟨item, rfl, hentered⟩, rfl⟩
        · rw [hr]
          refine .inr ⟨?_, .inl ⟨r, rfl, hstopped⟩⟩
          intro ⟨item', hitem', hentered'⟩
          cases hitem'
          rw [hentered] at hentered'
          cases hentered'
      | none =>
        have hspecial : ∀ item ∈ items, item.special = true := by
          simpa using hfind
        rw [populateItems_of_special none hspecial, Option.bind_some, Option.none_or]
        have hnames : regularNames items = [] := by
          simpa [regularNames] using hspecial
        rcases ih with hcrash | ⟨hno, hstopped | ⟨hok, hfilled⟩⟩
        · exact .inl hcrash
        · exact .inr ⟨hno, .inl hstopped⟩
        · refine .inr ⟨hno, .inr ⟨hok, ?_⟩⟩
          refine .append (.refl hc htype (.none _)) ?_ hfilled
          rw [hnames]
          exact .nil _

/-! ## The call -/

/-- Names that are put one after the other are held once each. -/
lemma Puts.held {nodes nodes' : List Node} {names : List Name} (h : Puts nodes names nodes')
    (hnodup : names.Nodup) (hnew : ∀ name ∈ names, ∀ p, ¬ Holds nodes p name) :
    (∀ name ∈ names, ∃! p, Holds nodes' p name) ∧
      ∀ name ∉ names, ∀ p, Holds nodes' p name ↔ Holds nodes p name := by
  induction h with
  | nil => exact ⟨nofun, fun _ _ _ => Iff.rfl⟩
  | @cons nodes nodes₁ nodes' pos a names hput _ ih =>
    obtain ⟨i, -, hholds⟩ := hput
    obtain ⟨hnot, hnodup⟩ := List.nodup_cons.mp hnodup
    have hother : ∀ name ≠ a, ∀ p, Holds nodes₁ p name ↔ Holds nodes p name := by
      intro name hne p
      rw [hholds]
      exact ⟨fun h => h.resolve_left fun h => hne h.2, fun h => .inr h⟩
    obtain ⟨honce, hrest⟩ := ih hnodup fun name hname p hp => by
      have hne : name ≠ a := fun heq => hnot (heq ▸ hname)
      exact hnew name (List.mem_cons_of_mem a hname) p ((hother name hne p).mp hp)
    refine ⟨fun name hname => ?_, fun name hname p => ?_⟩
    · rcases List.mem_cons.mp hname with rfl | hname
      · refine ⟨(pos, i), ?_, fun p hp => ?_⟩
        · exact (hrest name hnot (pos, i)).mpr ((hholds (pos, i) name).mpr (.inl ⟨rfl, rfl⟩))
        · have hp₁ := (hholds p name).mp ((hrest name hnot p).mp hp)
          exact (hp₁.resolve_right (hnew name List.mem_cons_self p)).1
      · exact honce name hname
    · rw [List.mem_cons, not_or] at hname
      rw [hrest name hname.2, hother name hname.1]

lemma not_holds_invalidateNodes (nodes : List Node) (p : ℕ × Slot) (name : Name) :
    ¬ Holds (invalidateNodes nodes) p name := by
  intro ⟨d, hd, hactive, _⟩
  rw [slotAt_invalidateNodes hd] at hactive
  cases hactive

/-- The first call of `FSAL_readdir` lists nothing that is cached, and the first item that is not
skipped comes from a later one, and gets as far as having an entry. -/
def PopulateEnv.LateStart (env : PopulateEnv) : Prop :=
  env.opendir = none ∧ ∃ items batches, env.readdirs = .ok items :: batches ∧
    (∀ item ∈ items, item.special = true) ∧
    ∃ item, firstRegular batches = some item ∧ item.entered = true

/-- What a call of `cache_inode_readdir_populate` that returns has done. -/
structure Populated (Q : Bool → Prop) (c : Cache) (dir : ℕ) (env : PopulateEnv)
    (r : Status × Cache) : Prop where
  directories : Directories Q r.2
  failure : r.1 ≠ .success → (r.2 dir).hasBeenReaddir = false
  flag : r.1 = .success → (r.2 dir).hasBeenReaddir = true
  puts : r.1 = .success → Puts (invalidateNodes (c dir).nodes)
    (regularNames (allItems env.readdirs)) (r.2 dir).nodes

lemma Populated.of_stopped {c₁ : Cache} {r : Status × Cache} (h : Stopped Q c₁ dir r)
    (hflag : (c₁ dir).hasBeenReaddir = false) : Populated Q c dir env r := by
  refine ⟨h.directories, fun _ => ?_, fun hsuccess => absurd hsuccess h.status,
    fun hsuccess => absurd hsuccess h.status⟩
  by_contra htrue
  rw [h.flag (by simpa using htrue)] at hflag
  cases hflag

/-- When the loop has ended, the directory is populated. -/
lemma populated_of_filled {c₁ c₂ : Cache}
    (hnodes : (c₁ dir).nodes = invalidateNodes (c dir).nodes)
    (hflag : (c₁ dir).hasBeenReaddir = false)
    (h : Filled Q c₁ dir (allItems env.readdirs) [] (next, c₂)) :
    Populated Q c dir env (match env.closedir with
      | some err => (errorConvert err, c₂)
      | none => (.success, c₂.modify dir fun d => { d with hasBeenReaddir := true })) := by
  cases env.closedir with
  | some err =>
    have herr := errorConvert_ne_success err
    refine ⟨h.turn.directories, fun _ => ?_, fun hsuccess => absurd hsuccess herr,
      fun hsuccess => absurd hsuccess herr⟩
    exact h.turn.flag.trans hflag
  | none =>
    have hsame : ∀ e, ∃ flag, (c₂.modify dir fun d => { d with hasBeenReaddir := true }) e =
        { c₂ e with hasBeenReaddir := flag } := by
      intro e
      unfold Cache.modify
      rcases eq_or_ne e dir with rfl | hne
      · exact ⟨true, Function.update_self ..⟩
      · exact ⟨_, Function.update_of_ne hne ..⟩
    refine ⟨?_, fun hne => absurd rfl hne, fun _ => ?_, fun _ => ?_⟩
    · refine h.turn.directories.congr (fun e => ?_) (fun e => ?_) fun e => ?_
      all_goals
        obtain ⟨flag, heq⟩ := hsame e
        dsimp only
        rw [heq]
    · simp [Cache.modify]
    · obtain ⟨flag, heq⟩ := hsame dir
      have hputs := h.puts
      rw [hnodes] at hputs
      dsimp only
      rw [heq]
      exact hputs

/-- `cache_inode_readdir_populate` of a directory that is not populated. -/
theorem cacheInodeReaddirPopulate_spec (hQ : Q true) (hc : Directories Q c)
    (htype : (c dir).type = .dirBeginning) (hread : (c dir).hasBeenReaddir = false)
    (hgiven : Given Q dir (fun e => (c e).validState) (allItems env.readdirs)) :
    env.LateStart ∧ cacheInodeReaddirPopulate c dir env = none ∨
      ¬ env.LateStart ∧ ∃ r, cacheInodeReaddirPopulate c dir env = some r ∧
        Populated Q c dir env r := by
  unfold cacheInodeReaddirPopulate
  rw [if_neg (not_not_intro htype), hread, if_neg Bool.false_ne_true]
  have hc₁ := hc.invalidateAll dir
  have hvalid := invalidateAll_validState c dir
  rw [cacheInodeInvalidateAllCachedDirent_of_dir htype] at hc₁ hvalid ⊢
  dsimp only at hc₁ hvalid ⊢
  set c₁ := c.modify dir fun d =>
    { d with nodes := invalidateNodes d.nodes, hasBeenReaddir := false } with hdef
  have hdir : c₁ dir =
      { c dir with nodes := invalidateNodes (c dir).nodes, hasBeenReaddir := false } := by
    rw [hdef, Cache.modify, Function.update_self]
  have htype₁ : (c₁ dir).type = .dirBeginning := by
    rw [hdir]
    exact htype
  have hflag : (c₁ dir).hasBeenReaddir = false := by rw [hdir]
  have hnodes : (c₁ dir).nodes = invalidateNodes (c dir).nodes := by rw [hdir]
  have hgiven₁ : Given Q dir (fun e => (c₁ e).validState) (allItems env.readdirs) := by
    simp only [hvalid]
    exact hgiven
  cases hopen : env.opendir with
  | some err =>
    refine .inr ⟨fun hlate => ?_, _, rfl, .of_stopped (populateError_stopped hc₁ err env) hflag⟩
    have hnone := hlate.1
    rw [hopen] at hnone
    cases hnone
  | none =>
    rcases hcalls : env.readdirs with _ | ⟨call, batches⟩
    · exact absurd hcalls env.readdirs_ne
    cases call with
    | error err =>
      refine .inr ⟨fun hlate => ?_, _, rfl, .of_stopped ⟨errorConvert_ne_success err, hc₁, id⟩ hflag⟩
      obtain ⟨-, items, batches', heq, -⟩ := hlate
      rw [hcalls] at heq
      cases heq
    | ok items =>
      -- what it means that the first call lists nothing that is cached
      have hlate : env.LateStart ↔ (∀ item ∈ items, item.special = true) ∧
          ∃ item, firstRegular batches = some item ∧ item.entered = true := by
        constructor
        · rintro ⟨_, items', batches', heq, h⟩
          rw [hcalls] at heq
          cases heq
          exact h
        · exact fun h => ⟨hopen, items, batches, hcalls, h⟩
      rw [hcalls] at hgiven₁
      have hnode : Cursor (c₁ dir).nodes (some 0) := by
        intro pos hpos
        cases hpos
        exact ⟨List.length_pos_of_ne_nil (hc₁ dir htype₁).1.ne, .inl rfl⟩
      rw [populateBatches]
      rcases populateItems_spec env hQ items (allItems batches) hc₁ htype₁ hgiven₁ hnode (.none _) with
        ⟨r, hr, hstopped⟩ | ⟨⟨next', c₂⟩, hr, hfilled, hnone⟩
      · rw [hr]
        refine .inr ⟨fun h => ?_, r, rfl, .of_stopped hstopped hflag⟩
        rw [populateItems_of_special (some 0) (hlate.mp h).1] at hr
        cases hr
      · rw [hr, Option.bind_some]
        cases next' with
        | some n =>
          have hnotlate : ¬ env.LateStart := by
            intro h
            rw [populateItems_of_special (some 0) (hlate.mp h).1] at hr
            cases hr
          refine .inr ⟨hnotlate, ?_⟩
          rcases populateBatches_spec env hQ batches hfilled.turn.directories hfilled.turn.type
            hfilled.given hfilled.turn.next hfilled.turn.next with
            ⟨r, hr', hstopped⟩ | ⟨next', c₃, hr', hrest⟩
          all_goals
            dsimp only at hr' ⊢
            rw [hr']
          · exact ⟨r, rfl, .of_stopped (.of_turn hfilled.turn hstopped) hflag⟩
          · have hall := Filled.append hfilled.turn hfilled.puts hrest
            have heq : allItems env.readdirs = items ++ allItems batches := by rw [hcalls]; rfl
            rw [← heq] at hall
            exact ⟨_, rfl, populated_of_filled hnodes hflag hall⟩
        | none =>
          have hspecial := (hnone rfl).2
          rw [populateItems_of_special (some 0) hspecial] at hr
          cases hr
          rcases populateBatches_late env hc₁ htype₁ batches with
            ⟨hfirst, hr'⟩ | ⟨hfirst, hrest⟩
          · dsimp only
            rw [hr']
            exact .inl ⟨hlate.mpr ⟨hspecial, hfirst⟩, rfl⟩
          refine .inr ⟨fun h => hfirst (hlate.mp h).2, ?_⟩
          rcases hrest with ⟨r, hr', hstopped⟩ | ⟨hr', hrest⟩
          all_goals
            dsimp only
            rw [hr']
          · exact ⟨r, rfl, .of_stopped hstopped hflag⟩
          · have hall := Filled.append hfilled.turn hfilled.puts hrest
            have heq : allItems env.readdirs = items ++ allItems batches := by rw [hcalls]; rfl
            rw [← heq] at hall
            exact ⟨_, rfl, populated_of_filled hnodes hflag hall⟩

end Ganesha.CacheInode.Dirents
