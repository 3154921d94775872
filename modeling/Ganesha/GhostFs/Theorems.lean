import Mathlib.Algebra.BigOperators.Group.Finset.Basic
import Ganesha.GhostFs.Operations

/-!
# GHOST_FS, main results
-/

namespace Ganesha.GhostFs
open Library.LinkTree
open Library.Transition

variable {flag : Bool} {root p p₁ p₂ o : ℕ} {name srcName tgtName : Name} {s s' : State} {it it₁ it₂ ito : Item}
  {L : Finset Link} {h h₂ src tgt parent target tmphandle : Handle} {l : List Dirlist} {rc : Error}

/-! ## Handles -/

/-- No freed item has the handle. -/
def InUse (s : State) (h : Handle) : Prop := ∀ p it, getEntryFromHandle s h = some (p, it) → it.live = true

/-- A handle is resolved by its inode and checked by its magic. -/
lemma getEntryFromHandle_eq_some (hget : getEntryFromHandle s h = some (p, it)) :
    p = h.inode ∧ s.memory.lookup h.inode = some it ∧ it.magic = h.magic := by
  rw [getEntryFromHandle] at hget
  split_ifs at hget
  split at hget
  · cases hget
  · rename_i it' hlookup
    split_ifs at hget with hmagic
    rw [Option.some.injEq, Prod.mk.injEq] at hget
    rw [← hget.1, ← hget.2]
    exact ⟨rfl, hlookup, hmagic⟩

lemma InUse.item (huse : InUse s h) (hget : getEntryFromHandle s h = some (p, it)) :
    p = h.inode ∧ s.item h.inode = some it ∧ Valid s.kind h := by
  obtain ⟨hp, hlookup, hmagic⟩ := getEntryFromHandle_eq_some hget
  have hitem := item_eq_some.mpr ⟨hlookup, huse p it hget⟩
  exact ⟨hp, hitem, valid_of_item hitem hmagic⟩

/-- A valid handle is in use. -/
lemma InUse.of_valid (hv : Valid s.kind h) : InUse s h := by
  intro p it hget
  obtain ⟨-, hlookup, -⟩ := getEntryFromHandle_eq_some hget
  obtain ⟨t, ht⟩ := hv
  obtain ⟨it', hit'⟩ := isSome_kind.mp (Option.isSome_of_eq_some ht)
  obtain ⟨hlookup', hlive⟩ := item_eq_some.mp hit'
  rw [Option.some.inj (hlookup.symm.trans hlookup'), hlive]

lemma ne_of_isNameOk (hname : isNameOk name = true) : name ≠ dot ∧ name ≠ dotDot := by
  obtain ⟨-, hdot, hdotDot, -⟩ := of_decide_eq_true hname
  exact ⟨hdot, hdotDot⟩

/-- What the common checks of the creating calls leave. -/
lemma getParent_eq_ok (hget : getParent s parent name = .ok p) (huse : InUse s parent) :
    p = parent.inode ∧ Valid s.kind parent ∧ (name ≠ dot ∧ name ≠ dotDot) ∧
      ∃ it, s.item p = some it ∧ it.type = .dir ∧ findEntry it.direntries name = none := by
  rw [getParent] at hget
  split_ifs at hget with hname
  split at hget
  · cases hget
  · rename_i p' it hp'
    split_ifs at hget with hdir hfind
    obtain rfl : p' = p := Except.ok.inj hget
    obtain ⟨rfl, hitem, hv⟩ := huse.item hp'
    refine ⟨rfl, hv, ne_of_isNameOk hname, it, hitem, not_not.mp hdir, ?_⟩
    exact Option.not_isSome_iff_eq_none.mp hfind

/-! ## Removal -/

/-- The items after an entry was removed. -/
lemma item_removeEntry (hp : s.item p = some it)
    (hremove : GhostFs.removeEntry name it.direntries = some l) (x : ℕ) :
    (s.removeEntry p name).item x = if x = p then some { it with direntries := l } else s.item x := by
  rw [State.removeEntry, item_modify]
  · split_ifs with hx
    · rw [hx, hp, Option.map_some, hremove]
      rfl
    · rfl
  · exact fun _ => rfl

lemma kind_removeEntry : (s.removeEntry p name).kind = s.kind := kind_modify fun _ => ⟨rfl, rfl, rfl⟩

/-- An empty directory has no links. -/
lemma Rep.not_mem_of_isEmptyDir (hrep : Rep flag root s L) (ho : s.item o = some it)
    (hempty : isEmptyDir it.direntries = true) (n : Name) (y : ℕ) : (o, n, y) ∉ L := by
  intro hl
  obtain ⟨h, hh⟩ := mem_names.mp (hrep.name_mem ho hl)
  have hnamed := hrep.shape.named o n y hl
  rcases of_decide_eq_true (List.all_eq_true.mp hempty _ hh) with heq | heq
  · exact hnamed.1 heq
  · exact hnamed.2 heq

/-- A change of the memory by `removeObject`. -/
structure Removed (s s' : State) (L : Finset Link) (p : ℕ) (name : Name) (o : ℕ) (it ito : Item)
    (l : List Dirlist) (c : ℕ) : Prop where
  shrinks : Shrinks s.kind s'.kind L p name o
  item : ∀ x, x ≠ o →
    s'.item x = if x = p then some { it with linkcount := c, direntries := l } else s.item x
  target : ∀ itx, s'.item o = some itx →
    itx = { ito with linkcount := ito.linkcount - 1 } ∧ isDir s.kind o = false
  linkcount : c = if isDir s.kind o = true then it.linkcount - 1 else it.linkcount

/-- An empty directory removed. -/
lemma Rep.removed_dir (hrep : Rep flag root s L) (hp : s.item p = some it) (ho : s.item o = some ito)
    (hlink : (p, name, o) ∈ L) (hremove : GhostFs.removeEntry name it.direntries = some l)
    (hdir : ito.type = .dir) (hempty : isEmptyDir ito.direntries = true) :
    Removed s (((s.removeEntry p name).modify p fun it => { it with linkcount := it.linkcount - 1 }).free o)
      L p name o it ito l (it.linkcount - 1) := by
  have hodir : isDir s.kind o = true := by rw [isDir_of_item ho, hdir]; rfl
  have hkeeps : Keeps fun it : Item => { it with linkcount := it.linkcount - 1 } := fun _ => ⟨rfl, rfl, rfl⟩
  have hkind : ∀ x, (((s.removeEntry p name).modify p fun it =>
      { it with linkcount := it.linkcount - 1 }).free o).kind x = if x = o then none else s.kind x := by
    intro x
    rw [kind_free, kind_modify hkeeps, kind_removeEntry]
  refine ⟨⟨fun x hx => by rw [hkind, if_neg hx], .inr ⟨by rw [hkind, if_pos rfl], ?_, ?_⟩⟩, ?_, ?_, ?_⟩
  · exact fun x m hl => hrep.shape.tree.single x m p name o hodir hl hlink
  · exact hrep.not_mem_of_isEmptyDir ho hempty
  · intro x hx
    rw [item_free, if_neg hx, item_modify fun it => (hkeeps it).1, item_removeEntry hp hremove]
    split_ifs <;> rfl
  · intro itx hitx
    rw [item_free, if_pos rfl] at hitx
    cases hitx
  · rw [if_pos hodir]

/-- A name of a file removed. -/
lemma Rep.removed_file (hrep : Rep flag root s L) (hp : s.item p = some it) (ho : s.item o = some ito)
    (hlink : (p, name, o) ∈ L) (hop : o ≠ p) (hremove : GhostFs.removeEntry name it.direntries = some l)
    (hfile : ito.type ≠ .dir) {s₁ : State}
    (hs₁ : s₁ = (s.removeEntry p name).modify o fun it => { it with linkcount := it.linkcount - 1 }) :
    Removed s (if ito.linkcount - 1 = 0 then s₁.free o else s₁) L p name o it ito l it.linkcount := by
  have hodir : isDir s.kind o = false := by rw [isDir_of_item ho]; exact decide_eq_false hfile
  have hkeeps : Keeps fun it : Item => { it with linkcount := it.linkcount - 1 } := fun _ => ⟨rfl, rfl, rfl⟩
  have hcount : ito.linkcount = linksTo L o := by
    have hroot : o ≠ root := fun heq => hrep.shape.tree.not_root p name (heq ▸ hlink)
    have hcounts := hrep.counts o ito ho hroot
    rw [count, hodir] at hcounts
    exact hcounts
  have hpos : 0 < linksTo L o := linksTo_pos hlink
  have hkind : s₁.kind = s.kind := by rw [hs₁, kind_modify hkeeps, kind_removeEntry]
  have hitem : ∀ x, x ≠ o → s₁.item x = if x = p then some { it with direntries := l } else s.item x := by
    intro x hx
    rw [hs₁, item_modify fun it => (hkeeps it).1, if_neg hx, item_removeEntry hp hremove]
  have hc : it.linkcount = if isDir s.kind o = true then it.linkcount - 1 else it.linkcount := by
    rw [hodir]
    rfl
  split_ifs with hzero
  · refine ⟨⟨fun x hx => by rw [kind_free, if_neg hx, hkind], .inr ⟨by rw [kind_free, if_pos rfl], ?_, ?_⟩⟩,
      fun x hx => ?_, fun itx hitx => ?_, hc⟩
    · exact fun x m hl => eq_of_linksTo (by omega) hlink hl
    · intro m y hl
      have hdir := hrep.shape.tree.source o m y hl
      rw [hodir] at hdir
      cases hdir
    · rw [item_free, if_neg hx]
      exact hitem x hx
    · rw [item_free, if_pos rfl] at hitx
      cases hitx
  · refine ⟨⟨fun x _ => by rw [hkind], .inl ⟨by rw [hkind], hodir, ?_⟩⟩, hitem, fun itx hitx => ⟨?_, hodir⟩, hc⟩
    · exact exists_of_linksTo (by omega) p name
    · rw [hs₁, item_modify fun it => (hkeeps it).1, if_pos rfl, item_removeEntry hp hremove, if_neg hop, ho]
        at hitx
      exact (Option.some.inj hitx).symm

lemma Rep.removed (hrep : Rep flag root s L) (hp : s.item p = some it) (ho : s.item o = some ito)
    (hlink : (p, name, o) ∈ L) (hop : o ≠ p) (hremove : GhostFs.removeEntry name it.direntries = some l)
    (hempty : ito.type = .dir → isEmptyDir ito.direntries = true) :
    ∃ c, Removed s (removeObject s p name o ito) L p name o it ito l c := by
  by_cases hdir : ito.type = .dir
  · rw [removeObject, if_pos hdir]
    exact ⟨_, hrep.removed_dir hp ho hlink hremove hdir (hempty hdir)⟩
  · rw [removeObject, if_neg hdir]
    exact ⟨_, hrep.removed_file hp ho hlink hop hremove hdir rfl⟩

lemma Removed.rep {c : ℕ} (hremoved : Removed s s' L p name o it ito l c) (hrep : Rep flag root s L)
    (hp : s.item p = some it) (ho : s.item o = some ito) (hlink : (p, name, o) ∈ L)
    (hremove : GhostFs.removeEntry name it.direntries = some l) : Rep flag root s' (L.erase (p, name, o)) :=
  hrep.remove hp ho hlink hremoved.shrinks hremove hremoved.item hremoved.target hremoved.linkcount

/-! ## Move -/

lemma lookup_of_item (hp : s.item p = some it) : s.memory.lookup p = some it := (item_eq_some.mp hp).1

lemma Valid.exists_item (hv : Valid s.kind h) : ∃ it, s.item h.inode = some it ∧ it.magic = h.magic := by
  obtain ⟨t, ht⟩ := hv
  obtain ⟨it, hit⟩ := isSome_kind.mp (Option.isSome_of_eq_some ht)
  rw [kind_eq_of_item hit, Option.some.injEq, Prod.mk.injEq] at ht
  exact ⟨it, hit, ht.2⟩

variable {type : TypeItem}

/-- Within one directory the entry is renamed in place. -/
lemma Rep.moveSource_same (hrep : Rep flag root s L) (hp : s.item src.inode = some it) (hv : Valid s.kind h)
    (hlink : (src.inode, srcName, h.inode) ∈ L) (hfind : findEntry it.direntries tgtName = none)
    (hname : tgtName ≠ dot ∧ tgtName ≠ dotDot)
    (hmove : moveSource s src src src.inode src.inode srcName tgtName h type = some (s', rc)) :
    Rep flag root s' (insert (src.inode, tgtName, h.inode) (L.erase (src.inode, srcName, h.inode))) := by
  obtain ⟨l, hl⟩ := @exists_updateEntry it.direntries srcName (fun e => { e with name := tgtName })
    (hrep.name_mem hp hlink)
  rw [moveSource, if_pos rfl, lookup_of_item hp] at hmove
  simp only [renameEntry, hl, Option.some.injEq, Prod.mk.injEq] at hmove
  have hkeeps : Keeps fun it : Item => { it with direntries := l } := fun _ => ⟨rfl, rfl, rfl⟩
  refine hrep.rename hp hv hlink hfind hname hl (hmove.1 ▸ kind_modify hkeeps) fun x => ?_
  rw [← hmove.1, item_modify fun it => (hkeeps it).1]
  split_ifs with hx
  · rw [hx, hp]
    rfl
  · rfl

/-- A file moves to another directory. -/
lemma Rep.moveSource_file (hrep : Rep flag root s L) (hp₁ : s.item p₁ = some it₁) (hp₂ : s.item p₂ = some it₂)
    (hdir₂ : it₂.type = .dir) (hpp : p₁ ≠ p₂) (hst : src ≠ tgt) (hv : Valid s.kind h)
    (hlink : (p₁, srcName, h.inode) ∈ L) (hfind : findEntry it₂.direntries tgtName = none)
    (hname : tgtName ≠ dot ∧ tgtName ≠ dotDot) (htype : isDir s.kind h.inode = decide (type = .dir))
    (hfile : type ≠ .dir) (hmove : moveSource s src tgt p₁ p₂ srcName tgtName h type = some (s', rc)) :
    Rep flag root s' (insert (p₂, tgtName, h.inode) (L.erase (p₁, srcName, h.inode))) := by
  rw [moveSource, if_neg hst, if_neg hfile, Option.some.injEq, Prod.mk.injEq] at hmove
  have hodir : isDir s.kind h.inode = false := htype.trans (decide_eq_false hfile)
  obtain ⟨l, hl⟩ := exists_removeEntry (hrep.name_mem hp₁ hlink)
  obtain ⟨ito, ho, -⟩ := hv.exists_item
  -- a file is none of the directories
  have hne : ∀ p, isDir s.kind p = true → h.inode ≠ p := by
    intro p hp heq
    rw [← heq, hodir] at hp
    cases hp
  have hop₁ := hne p₁ (hrep.shape.tree.source _ _ _ hlink)
  have hop₂ := hne p₂ (by rw [isDir_of_item hp₂, hdir₂]; rfl)
  have hkeeps : Keeps fun it : Item => { it with direntries := addDirEntry it.direntries h tgtName } :=
    fun _ => ⟨rfl, rfl, rfl⟩
  have hc : ∀ c c' : ℕ, c = if isDir s.kind h.inode = true then c' else c := by
    intro c c'
    rw [hodir]
    rfl
  refine hrep.move hp₁ hp₂ hdir₂ hpp ho hop₁ hop₂ hv hlink hfind hname (fun hdir => ?_) hl
    (hc it₁.linkcount _) (hc it₂.linkcount _) ⟨hrep.names _ ito ho, fun e => ?_⟩ ?_ fun x => ?_
  · rw [hodir] at hdir
    cases hdir
  · rw [hrep.entries _ ito ho]
    exact iff_of_false (Entry.not_of_isDir hodir) (Entry.not_of_isDir hodir)
  · rw [← hmove.1, kind_modify hkeeps, kind_removeEntry]
  · rw [← hmove.1, item_modify fun it => (hkeeps it).1, item_removeEntry hp₁ hl]
    by_cases hx : x = p₂
    · rw [if_pos hx, if_pos hx, hx, if_neg hpp.symm, hp₂]
      rfl
    · rw [if_neg hx, if_neg hx]
      by_cases hx₁ : x = p₁
      · rw [if_pos hx₁, if_pos hx₁]
      · rw [if_neg hx₁, if_neg hx₁]
        split_ifs with hxo
        · rw [hxo, ho]
        · rfl

/-- A directory moves: both parents and its `..` entry change. -/
lemma Rep.moveSource_dir (hrep : Rep flag root s L) (hp₁ : s.item p₁ = some it₁)
    (hp₂ : s.item p₂ = some it₂) (hdir₂ : it₂.type = .dir) (hpp : p₁ ≠ p₂) (hst : src ≠ tgt)
    (htgt : Valid s.kind tgt) (htgt₂ : tgt.inode = p₂)
    (hv : Valid s.kind h) (hlink : (p₁, srcName, h.inode) ∈ L)
    (hfind : findEntry it₂.direntries tgtName = none) (hname : tgtName ≠ dot ∧ tgtName ≠ dotDot)
    (hodir : isDir s.kind h.inode = true)
    (hbelow : ¬Below (fun p => isDir s.kind p = true) (fun d n o => (d, n, o) ∈ L) h.inode p₂)
    (hmove : moveSource s src tgt p₁ p₂ srcName tgtName h .dir = some (s', rc)) :
    Rep flag root s' (insert (p₂, tgtName, h.inode) (L.erase (p₁, srcName, h.inode))) := by
  rw [moveSource, if_neg hst, if_pos rfl] at hmove
  split_ifs at hmove with hop
  obtain ⟨hop₁, hop₂⟩ := not_or.mp hop
  obtain ⟨l, hl⟩ := exists_removeEntry (hrep.name_mem hp₁ hlink)
  obtain ⟨ito, ho, -⟩ := hv.exists_item
  -- the directory has a parent, so it has an entry for it
  obtain ⟨lo, hlo⟩ : ∃ lo, changeEntryHandle ito.direntries dotDot tgt = some lo := by
    refine exists_updateEntry (mem_names.mpr ⟨⟨p₁, it₁.magic⟩, (hrep.entries _ ito ho _).mpr ⟨hodir, ?_, ?_⟩⟩)
    · exact valid_of_item hp₁ rfl
    · exact .inr (.inl ⟨rfl, .inr ⟨srcName, hlink⟩⟩)
  have hlookup : (s.removeEntry p₁ srcName).memory.lookup h.inode = some ito := by
    apply lookup_of_item
    rw [item_removeEntry hp₁ hl, if_neg hop₁, ho]
  simp only [hlookup, hlo, Option.some.injEq, Prod.mk.injEq] at hmove
  have hnames := hrep.names _ ito ho
  have hnodup : (GhostFs.names lo).Nodup := nodup_updateEntry hnames (fun _ => rfl) (fun _ => rfl) hlo
  have hmem : ∀ e, e ∈ lo ↔ Entry flag root s.kind
      (insert (p₂, tgtName, h.inode) (L.erase (p₁, srcName, h.inode))) h.inode e := by
    intro e
    obtain ⟨h', -, hmem⟩ := mem_updateEntry hnames hlo
    rw [hmem, hrep.shape.entry_moved hlink hodir hop₁ hop₂ htgt htgt₂, hrep.entries _ ito ho]
  refine hrep.move hp₁ hp₂ hdir₂ hpp ho hop₁ hop₂ hv hlink hfind hname (fun _ => hbelow) hl
    (if_pos hodir).symm (if_pos hodir).symm ⟨hnodup, hmem⟩ ?_ fun x => ?_
  · rw [← hmove.1, kind_modify, kind_modify, kind_modify, kind_removeEntry]
    all_goals exact fun _ => ⟨rfl, rfl, rfl⟩
  · rw [← hmove.1, item_modify, item_modify, item_modify, item_removeEntry hp₁ hl]
    · by_cases hx₂ : x = p₂
      · have hxo : ¬p₂ = h.inode := fun heq => hop₂ heq.symm
        simp only [hx₂, if_true, hpp.symm, hxo, if_false, hp₂, Option.map_some]
      · by_cases hx₁ : x = p₁
        · have hxo : ¬p₁ = h.inode := fun heq => hop₁ heq.symm
          simp only [hx₁, if_true, hpp, hxo, if_false, Option.map_some]
        · by_cases hxo : x = h.inode
          · simp only [hxo, if_true, hop₁, hop₂, if_false, ho, Option.map_some]
          · simp only [hx₂, hx₁, hxo, if_false]
    · exact fun _ => rfl
    · exact fun _ => rfl
    · exact fun _ => rfl

/-- The three ways of the move. -/
lemma Rep.moveSource (hrep : Rep flag root s L) (hp₁ : s.item src.inode = some it₁)
    (hp₂ : s.item tgt.inode = some it₂) (hdir₂ : it₂.type = .dir) (hsrc : Valid s.kind src)
    (htgt : Valid s.kind tgt) (hv : Valid s.kind h) (hlink : (src.inode, srcName, h.inode) ∈ L)
    (hfind : findEntry it₂.direntries tgtName = none) (hname : tgtName ≠ dot ∧ tgtName ≠ dotDot)
    (htype : isDir s.kind h.inode = decide (type = .dir))
    (hbelow : src ≠ tgt → isDir s.kind h.inode = true →
      ¬Below (fun p => isDir s.kind p = true) (fun d n o => (d, n, o) ∈ L) h.inode tgt.inode)
    (hmove : moveSource s src tgt src.inode tgt.inode srcName tgtName h type = some (s', rc)) :
    Rep flag root s' (insert (tgt.inode, tgtName, h.inode) (L.erase (src.inode, srcName, h.inode))) := by
  by_cases hst : src = tgt
  · subst hst
    exact hrep.moveSource_same hp₂ hv hlink hfind hname hmove
  · have hpp : src.inode ≠ tgt.inode := fun heq => hst (hsrc.eq htgt heq)
    by_cases hdir : type = .dir
    · subst hdir
      exact hrep.moveSource_dir hp₁ hp₂ hdir₂ hpp hst htgt rfl hv hlink hfind hname htype
        (hbelow hst htype) hmove
    · exact hrep.moveSource_file hp₁ hp₂ hdir₂ hpp hst hv hlink hfind hname htype hdir hmove

/-- The target of a rename is removed only if it is a file or an empty directory. -/
lemma removeTarget_eq_ok (hv : Valid s.kind h) (hremove : removeTarget s p₁ p₂ tgtName h type = some (.ok s')) :
    ∃ ito, s.item h.inode = some ito ∧ h.inode ≠ p₁ ∧ h.inode ≠ p₂ ∧
      (ito.type = .dir → isEmptyDir ito.direntries = true) ∧ s' = removeObject s p₂ tgtName h.inode ito := by
  rw [removeTarget] at hremove
  split at hremove
  · cases hremove
  · rename_i o ito hget
    obtain ⟨rfl, hitem, -⟩ := (InUse.of_valid hv).item hget
    split_ifs at hremove with hp hdirs hempty hfiles
    · obtain ⟨hp₁, hp₂⟩ := not_or.mp hp
      rw [Option.some.injEq, Except.ok.injEq] at hremove
      exact ⟨ito, hitem, hp₁, hp₂, fun _ => hempty, hremove.symm⟩
    · cases hremove
    · obtain ⟨hp₁, hp₂⟩ := not_or.mp hp
      rw [Option.some.injEq, Except.ok.injEq] at hremove
      exact ⟨ito, hitem, hp₁, hp₂, fun hdir => absurd hdir hfiles.2, hremove.symm⟩
    · cases hremove

variable {d x : ℕ} {n : Name}

lemma Shrinks.kind_eq {k k' : Kind} {y : ℕ} {m : Name} (hk : Shrinks k k' L d n o) (hl : (y, m, x) ∈ L)
    (hne : ¬(y = d ∧ m = n)) : k' x = k x := by
  by_cases hx : x = o
  · rcases hk.cases with ⟨heq, -⟩ | ⟨-, hlast, -⟩
    · rw [hx, heq]
    · exact absurd (hlast y m (hx ▸ hl)) hne
  · exact hk.keep x hx

lemma Shrinks.isDir_of {k k' : Kind} (hk : Shrinks k k' L d n o) (hx : isDir k' x = true) : isDir k x = true := by
  have hxo : x ≠ o := by
    intro heq
    rw [heq, hk.not_dir] at hx
    cases hx
  rw [← isDir_congr (hk.keep x hxo), hx]

/-- A rename over an object that is removed first. -/
lemma Rep.moveOver {s₁ : State} (hrep : Rep flag root s L) (hp₁ : s.item src.inode = some it₁)
    (hp₂ : s.item tgt.inode = some it₂) (hdir₂ : it₂.type = .dir) (hsrc : Valid s.kind src)
    (htgt : Valid s.kind tgt) (hv : Valid s.kind h) (hlink : (src.inode, srcName, h.inode) ∈ L)
    (hv₂ : Valid s.kind h₂) (hlink₂ : (tgt.inode, tgtName, h₂.inode) ∈ L)
    (hname : tgtName ≠ dot ∧ tgtName ≠ dotDot) (htype : isDir s.kind h.inode = decide (type = .dir))
    (hbelow : src ≠ tgt → isDir s.kind h.inode = true →
      ¬Below (fun p => isDir s.kind p = true) (fun d n o => (d, n, o) ∈ L) h.inode tgt.inode)
    (hremove : removeTarget s src.inode tgt.inode tgtName h₂ type = some (.ok s₁))
    (hmove : GhostFs.moveSource s₁ src tgt src.inode tgt.inode srcName tgtName h type = some (s', rc)) :
    ∃ L', Rep flag root s' L' ∧ (¬ (src.inode = tgt.inode ∧ srcName = tgtName) → L' =
      insert (tgt.inode, tgtName, h.inode)
        ((L.erase (tgt.inode, tgtName, h₂.inode)).erase (src.inode, srcName, h.inode))) := by
  obtain ⟨ito, ho, hop₁, hop₂, hempty, rfl⟩ := removeTarget_eq_ok hv₂ hremove
  obtain ⟨l, hl⟩ := exists_removeEntry (hrep.name_mem hp₂ hlink₂)
  obtain ⟨c, hremoved⟩ := hrep.removed hp₂ ho hlink₂ hop₂ hl hempty
  have hrep₁ := hremoved.rep hrep hp₂ ho hlink₂ hl
  have hp₂' := hremoved.item tgt.inode (Ne.symm hop₂)
  rw [if_pos rfl] at hp₂'
  -- the target name is free now
  have hgone : tgtName ∉ GhostFs.names l := by
    intro hmem
    obtain ⟨h', hh'⟩ := mem_names.mp hmem
    exact (((mem_removeEntry (hrep.names _ it₂ hp₂) hl).2 _).mp hh').2 rfl
  by_cases hself : src.inode = tgt.inode ∧ srcName = tgtName
  · -- the source was the target
    obtain rfl := hsrc.eq htgt hself.1
    obtain rfl := hself.2
    rw [GhostFs.moveSource, if_pos rfl, lookup_of_item hp₂'] at hmove
    cases hrename : renameEntry l srcName srcName with
    | none =>
      simp only [hrename, Option.some.injEq, Prod.mk.injEq] at hmove
      exact ⟨_, hmove.1 ▸ hrep₁, fun hne => absurd ⟨rfl, rfl⟩ hne⟩
    | some l' =>
      obtain ⟨h', hh', -⟩ := mem_updateEntry (mem_removeEntry (hrep.names _ it₂ hp₂) hl).1 hrename
      exact absurd (mem_names.mpr ⟨h', hh'⟩) hgone
  · have hp₁' : ∃ it', (removeObject s tgt.inode tgtName h₂.inode ito).item src.inode = some it' := by
      rw [hremoved.item src.inode (Ne.symm hop₁)]
      split_ifs
      · exact ⟨_, rfl⟩
      · exact ⟨it₁, hp₁⟩
    obtain ⟨it₁', hp₁'⟩ := hp₁'
    have hkind := hremoved.shrinks.kind_eq hlink hself
    refine ⟨_, hrep₁.moveSource hp₁' hp₂' hdir₂ ((Valid.congr (hremoved.shrinks.keep _ (Ne.symm hop₁))).mpr hsrc)
      ((Valid.congr (hremoved.shrinks.keep _ (Ne.symm hop₂))).mpr htgt) ((Valid.congr hkind).mpr hv)
      ((mem_erase_iff hrep.shape.tree hlink₂).mpr ⟨hlink, hself⟩) (findEntry_eq_none.mpr hgone) hname
      ((isDir_congr hkind).trans htype) (fun hst hdir hpath => ?_) hmove, fun _ => rfl⟩
    refine hbelow hst ((isDir_congr hkind).symm.trans hdir) (hpath.mono fun x y hxy => ?_)
    exact ⟨hremoved.shrinks.isDir_of hxy.1, hxy.2.imp fun m hm => Finset.mem_of_mem_erase hm⟩

/-! ## Calls -/

/-- A directory has an entry for an object, other than `.` and `..`. -/
def Linked (s : State) (d : ℕ) (n : Name) (o : ℕ) : Prop :=
  n ≠ dot ∧ n ≠ dotDot ∧ ∃ it e, s.item d = some it ∧ e ∈ it.direntries ∧ e.name = n ∧ e.handle.inode = o

/-- A directory is in the subtree of another one. -/
def InSubtree (s : State) : ℕ → ℕ → Prop := Below (fun p => isDir s.kind p = true) (Linked s)

/-- What a call has to respect. No handle is that of a freed item. A rename is not of `.` or `..`, and it
does not move a directory into its own subtree. -/
def Careful (s : State) : Call → Prop
  | .mkDir parent _ _ _ => InUse s parent
  | .create parent _ _ _ => InUse s parent
  | .symlink parent _ _ _ => InUse s parent
  | .link parent _ target => InUse s parent ∧ InUse s target
  | .unlink parent _ => InUse s parent
  | .rename src tgt srcName _ _ => InUse s src ∧ InUse s tgt ∧ srcName ≠ dot ∧ srcName ≠ dotDot ∧
    (src ≠ tgt → ∀ it h, s.item src.inode = some it → findEntry it.direntries srcName = some h →
      isDir s.kind h.inode = true → ¬InSubtree s h.inode tgt.inode)

/-- The links of the state are those of the relation. -/
lemma Rep.linked_iff (hrep : Rep flag root s L) : Linked s d n o ↔ (d, n, o) ∈ L := by
  constructor
  · rintro ⟨hdot, hdotDot, it, e, hd, he, rfl, rfl⟩
    rcases ((hrep.entries d it hd e).mp he).cases with ⟨heq, -⟩ | ⟨heq, -⟩ | hl
    · exact absurd heq hdot
    · exact absurd heq hdotDot
    · exact hl
  · intro hl
    have hdir := hrep.shape.tree.source d n o hl
    obtain ⟨it, hd⟩ := isSome_kind.mp (isSome_of_isDir hdir)
    obtain ⟨⟨t, m⟩, ho⟩ := Option.isSome_iff_exists.mp (hrep.shape.target d n o hl)
    obtain ⟨hdot, hdotDot⟩ := hrep.shape.named d n o hl
    refine ⟨hdot, hdotDot, it, ⟨n, ⟨o, m⟩⟩, hd, ?_, rfl, rfl⟩
    exact (hrep.entries d it hd _).mpr ⟨hdir, ⟨t, ho⟩, .inr (.inr hl)⟩

lemma Rep.inSubtree_eq (hrep : Rep flag root s L) :
    InSubtree s = Below (fun p => isDir s.kind p = true) (fun d n o => (d, n, o) ∈ L) := by
  have heq : Linked s = fun d n o => (d, n, o) ∈ L := by
    funext d n o
    exact propext hrep.linked_iff
  rw [InSubtree, heq]

variable {addr magic : ℕ}

/-- A file is created. -/
lemma Rep.createObject (hrep : Rep flag root s L) (htype : type ≠ .dir) (haddr : s.item addr = none)
    (huse : InUse s parent) : ∃ L', Rep flag root (createObject type s parent name addr magic).1 L' := by
  rw [GhostFs.createObject]
  split
  · exact ⟨L, hrep⟩
  · rename_i p hget
    obtain ⟨-, -, hname, it, hp, hdir, hfind⟩ := getParent_eq_ok hget huse
    exact ⟨_, hrep.create htype haddr hp hdir hfind hname⟩

/-- A directory is created. -/
lemma Rep.ghostfsMkDir (hrep : Rep flag root s L) (haddr : s.item addr = none) (huse : InUse s parent) :
    ∃ L', Rep flag root (ghostfsMkDir s parent name addr magic).1 L' := by
  rw [GhostFs.ghostfsMkDir]
  split
  · exact ⟨L, hrep⟩
  · rename_i p hget
    obtain ⟨hp', hv, hname, it, hp, hdir, hfind⟩ := getParent_eq_ok hget huse
    exact ⟨_, hrep.mkDir haddr hp hdir hv hp'.symm hfind hname⟩

/-- GHOSTFS_Link keeps the relation. -/
lemma Rep.ghostfsLink (hrep : Rep flag root s L) (huse : InUse s parent) (huse' : InUse s target) :
    ∃ L', Rep flag root (ghostfsLink s parent name target).1 L' := by
  rw [GhostFs.ghostfsLink]
  split
  · exact ⟨L, hrep⟩
  · rename_i p hget
    obtain ⟨-, -, hname, it, hp, hdir, hfind⟩ := getParent_eq_ok hget huse
    split
    · exact ⟨L, hrep⟩
    · rename_i o ito hget'
      obtain ⟨rfl, ho, -⟩ := huse'.item hget'
      split_ifs with hfile
      · exact ⟨L, hrep⟩
      · have hpo : p ≠ target.inode := by
          rintro rfl
          rw [hp] at ho
          exact hfile (Option.some.inj ho ▸ hdir)
        refine ⟨_, hrep.link hp hdir ho (getEntryFromHandle_eq_some hget').2.2 hfile hfind hname ?_ fun x => ?_⟩
        · rw [kind_modify, kind_modify]
          all_goals exact fun _ => ⟨rfl, rfl, rfl⟩
        · rw [item_modify_modify _ _ hp ho hpo]
          all_goals exact fun _ => ⟨rfl, rfl, rfl⟩

/-- GHOSTFS_Unlink changes nothing or takes one name away. -/
lemma ghostfsUnlink_cases (hunlink : ghostfsUnlink s parent name = some (s', rc)) :
    s' = s ∨ ∃ p itp h o it, isNameOk name = true ∧ getEntryFromHandle s parent = some (p, itp) ∧
      findEntry itp.direntries name = some h ∧ getEntryFromHandle s h = some (o, it) ∧ o ≠ p ∧
      (it.type = .dir → isEmptyDir it.direntries = true) ∧ s' = removeObject s p name o it := by
  unfold ghostfsUnlink at hunlink
  by_cases hname : isNameOk name = true
  · rw [if_neg (not_not.mpr hname)] at hunlink
    split at hunlink
    · cases hunlink
      exact .inl rfl
    · rename_i p itp hp
      by_cases hdir : itp.type = .dir
      · rw [if_neg (not_not.mpr hdir)] at hunlink
        split at hunlink
        · cases hunlink
          exact .inl rfl
        · rename_i h hfind
          split at hunlink
          · cases hunlink
            exact .inl rfl
          · rename_i o it ho
            split_ifs at hunlink with hop hempty
            · cases hunlink
              exact .inl rfl
            · cases hunlink
              refine .inr ⟨p, itp, h, o, it, hname, hp, hfind, ho, hop, fun hdir => ?_, rfl⟩
              exact not_not.mp fun hne => hempty ⟨hdir, hne⟩
      · rw [if_pos hdir] at hunlink
        cases hunlink
        exact .inl rfl
  · rw [if_pos hname] at hunlink
    cases hunlink
    exact .inl rfl

/-- A name is removed. -/
lemma Rep.ghostfsUnlink (hrep : Rep flag root s L) (huse : InUse s parent)
    (hunlink : ghostfsUnlink s parent name = some (s', rc)) : ∃ L', Rep flag root s' L' := by
  obtain rfl | ⟨p, itp, h, o, it, hname, hget, hfind, hget', hop, hempty, rfl⟩ := ghostfsUnlink_cases hunlink
  · exact ⟨L, hrep⟩
  · obtain ⟨rfl, hp, -⟩ := huse.item hget
    obtain ⟨hv, hlink⟩ := hrep.link_of_find hp hfind (ne_of_isNameOk hname)
    obtain ⟨rfl, ho, -⟩ := (InUse.of_valid hv).item hget'
    obtain ⟨l, hl⟩ := exists_removeEntry (hrep.name_mem hp hlink)
    obtain ⟨c, hremoved⟩ := hrep.removed hp ho hlink hop hl hempty
    exact ⟨_, hremoved.rep hrep hp ho hlink hl⟩

/-- GHOSTFS_Rename changes nothing or passes all its checks. -/
lemma ghostfsRename_cases (hrename : ghostfsRename s src tgt srcName tgtName tmphandle = some (s', rc)) :
    s' = s ∨ ∃ p₁ it₁ p₂ it₂ h o it, isNameOk tgtName = true ∧ getEntryFromHandle s src = some (p₁, it₁) ∧
      getEntryFromHandle s tgt = some (p₂, it₂) ∧ it₂.type = .dir ∧
      findEntry it₁.direntries srcName = some h ∧ getEntryFromHandle s h = some (o, it) ∧
      (findEntry it₂.direntries tgtName = none ∧
          moveSource s src tgt p₁ p₂ srcName tgtName h it.type = some (s', rc) ∨
        ∃ h₂ s₁, findEntry it₂.direntries tgtName = some h₂ ∧
          removeTarget s p₁ p₂ tgtName h₂ it.type = some (.ok s₁) ∧
          moveSource s₁ src tgt p₁ p₂ srcName tgtName h it.type = some (s', rc)) := by
  unfold ghostfsRename at hrename
  by_cases hname : isNameOk tgtName = true
  · rw [if_neg (not_not.mpr hname)] at hrename
    split at hrename
    · rename_i p₁ it₁ p₂ it₂ hp₁ hp₂
      by_cases hdirs : it₁.type ≠ .dir ∨ it₂.type ≠ .dir
      · rw [if_pos hdirs] at hrename
        cases hrename
        exact .inl rfl
      · -- both parents are directories
        rw [if_neg hdirs] at hrename
        split at hrename
        · cases hrename
          exact .inl rfl
        · rename_i h hfind
          split at hrename
          · cases hrename
            exact .inl rfl
          · rename_i o it ho
            have hdir₂ : it₂.type = .dir := not_not.mp fun hne => hdirs (.inr hne)
            dsimp only at hrename
            split_ifs at hrename with hsame
            · cases hrename
              exact .inl rfl
            · split at hrename
              · rename_i hnone
                exact .inr ⟨p₁, it₁, p₂, it₂, h, o, it, hname, hp₁, hp₂, hdir₂, hfind, ho,
                  .inl ⟨hnone, hrename⟩⟩
              · rename_i h₂ hfind₂
                split at hrename
                · cases hrename
                · cases hrename
                  exact .inl rfl
                · rename_i s₁ hremove
                  exact .inr ⟨p₁, it₁, p₂, it₂, h, o, it, hname, hp₁, hp₂, hdir₂, hfind, ho,
                    .inr ⟨h₂, s₁, hfind₂, hremove, hrename⟩⟩
    · cases hrename
      exact .inl rfl
  · rw [if_pos hname] at hrename
    cases hrename
    exact .inl rfl

/-- GHOSTFS_Rename keeps the relation for careful calls. -/
lemma Rep.ghostfsRename (hrep : Rep flag root s L)
    (hcareful : Careful s (.rename src tgt srcName tgtName tmphandle))
    (hrename : ghostfsRename s src tgt srcName tgtName tmphandle = some (s', rc)) :
    ∃ L', Rep flag root s' L' ∧ (¬ (src.inode = tgt.inode ∧ srcName = tgtName) → s' = s ∨
      ∃ o, (src.inode, srcName, o) ∈ L ∧ ∀ d n x, (d, n, x) ∈ L' ↔
        d = tgt.inode ∧ n = tgtName ∧ x = o ∨ (d, n, x) ∈ L ∧ ¬ (d = tgt.inode ∧ n = tgtName) ∧
          ¬ (d = src.inode ∧ n = srcName)) := by
  obtain ⟨huse₁, huse₂, hdot, hdotDot, hinto⟩ := hcareful
  obtain rfl | ⟨p₁, it₁, p₂, it₂, h, o, it, hname, hget₁, hget₂, hdir₂, hfind, hget, hcases⟩ :=
    ghostfsRename_cases hrename
  · exact ⟨L, hrep, fun _ => .inl rfl⟩
  · obtain ⟨rfl, hp₁, hsrc⟩ := huse₁.item hget₁
    obtain ⟨rfl, hp₂, htgt⟩ := huse₂.item hget₂
    obtain ⟨hv, hlink⟩ := hrep.link_of_find hp₁ hfind ⟨hdot, hdotDot⟩
    obtain ⟨rfl, ho, -⟩ := (InUse.of_valid hv).item hget
    -- a directory is not moved below itself
    have hbelow : src ≠ tgt → isDir s.kind h.inode = true →
        ¬Below (fun p => isDir s.kind p = true) (fun d n o => (d, n, o) ∈ L) h.inode tgt.inode := by
      intro hst hdir
      rw [← hrep.inSubtree_eq]
      exact hinto hst it₁ h hp₁ hfind hdir
    have hname := ne_of_isNameOk hname
    rcases hcases with ⟨hnone, hmove⟩ | ⟨h₂, s₁, hfind₂, hremove, hmove⟩
    · refine ⟨_, hrep.moveSource hp₁ hp₂ hdir₂ hsrc htgt hv hlink hnone hname (isDir_of_item ho) hbelow hmove,
        fun _ => .inr ⟨_, hlink, fun d n x => ?_⟩⟩
      rw [Finset.mem_insert, mem_erase_iff hrep.shape.tree hlink, Prod.mk.injEq, Prod.mk.injEq]
      have hfree : (d, n, x) ∈ L → ¬ (d = tgt.inode ∧ n = tgtName) := by
        rintro hl ⟨rfl, rfl⟩
        exact findEntry_eq_none.mp hnone (hrep.name_mem hp₂ hl)
      exact or_congr Iff.rfl ⟨fun hl => ⟨hl.1, hfree hl.1, hl.2⟩, fun hl => ⟨hl.1, hl.2.2⟩⟩
    · obtain ⟨hv₂, hlink₂⟩ := hrep.link_of_find hp₂ hfind₂ hname
      obtain ⟨L', hrep', heq⟩ := hrep.moveOver hp₁ hp₂ hdir₂ hsrc htgt hv hlink hv₂ hlink₂ hname
        (isDir_of_item ho) hbelow hremove hmove
      refine ⟨L', hrep', fun hne => .inr ⟨_, hlink, fun d n x => ?_⟩⟩
      have hsource : (d, n, x) ∈ L.erase (src.inode, srcName, h.inode) ↔ _ :=
        mem_erase_iff hrep.shape.tree hlink
      rw [Finset.mem_erase] at hsource
      rw [heq hne, Finset.mem_insert, Prod.mk.injEq, Prod.mk.injEq, Finset.mem_erase,
        mem_erase_iff hrep.shape.tree hlink₂]
      exact or_congr Iff.rfl ⟨fun hl => ⟨hl.2.1, hl.2.2, (hsource.mp ⟨hl.1, hl.2.1⟩).2⟩,
        fun hl => ⟨(hsource.mpr ⟨hl.1, hl.2.2⟩).1, hl.1, hl.2.1⟩⟩

/-- A free address has no item. -/
lemma item_of_isFree (hfree : s.isFree addr = true) : s.item addr = none := by
  obtain ⟨-, hall⟩ := of_decide_eq_true hfree
  rw [State.item]
  cases hlookup : s.memory.lookup addr with
  | none => rfl
  | some it =>
    rw [hlookup, Option.all_some, Bool.not_eq_true'] at hall
    exact Option.filter_some_neg hall

/-- Every careful call keeps the relation. -/
lemma Rep.step {c : Call} (hrep : Rep flag root s L) (hcareful : Careful s c)
    (hstep : GhostFs.step s c = some s') : ∃ L', Rep flag root s' L' := by
  cases c with
  | mkDir parent name addr magic =>
    rw [GhostFs.step] at hstep
    split_ifs at hstep with hfree
    rw [← Option.some.inj hstep]
    exact hrep.ghostfsMkDir (item_of_isFree hfree) hcareful
  | create parent name addr magic =>
    rw [GhostFs.step] at hstep
    split_ifs at hstep with hfree
    rw [← Option.some.inj hstep]
    exact hrep.createObject (by decide) (item_of_isFree hfree) hcareful
  | symlink parent name addr magic =>
    rw [GhostFs.step] at hstep
    split_ifs at hstep with hfree
    rw [← Option.some.inj hstep]
    exact hrep.createObject (by decide) (item_of_isFree hfree) hcareful
  | link parent name target =>
    rw [← Option.some.inj hstep]
    exact hrep.ghostfsLink hcareful.1 hcareful.2
  | unlink parent name =>
    obtain ⟨⟨s₁, rc⟩, hunlink, rfl⟩ := Option.map_eq_some_iff.mp hstep
    exact hrep.ghostfsUnlink hcareful hunlink
  | rename src tgt srcName tgtName tmphandle =>
    obtain ⟨⟨s₁, rc⟩, hrename, rfl⟩ := Option.map_eq_some_iff.mp hstep
    obtain ⟨L', hrep', -⟩ := hrep.ghostfsRename hcareful hrename
    exact ⟨L', hrep'⟩

/-! ## Consistency -/

/-- The entries of a directory. -/
def State.entriesOf (s : State) (d : ℕ) : List Dirlist := ((s.item d).map Item.direntries).getD []

/-- The number of entries that reference an item. -/
def references (s : State) (o : ℕ) : ℕ :=
  ∑ d ∈ s.memory.keys, (s.entriesOf d).countP fun e => e.handle.inode = o

/-- The number of subdirectories of a directory. -/
def subdirectories (s : State) (d : ℕ) : ℕ :=
  (s.entriesOf d).countP fun e => e.name ≠ dot ∧ e.name ≠ dotDot ∧ isDir s.kind e.handle.inode = true

/-- What the namespace is to satisfy between the calls. -/
structure Consistent (root : ℕ) (s : State) : Prop where
  /-- The names in a directory are different. -/
  names : ∀ d it, s.item d = some it → (it.direntries.map Dirlist.name).Nodup
  /-- The handle of an entry is that of an item in use. -/
  entries : ∀ d it e, s.item d = some it → e ∈ it.direntries →
    ∃ it', s.item e.handle.inode = some it' ∧ it'.magic = e.handle.magic
  linkcount : ∀ o it, s.item o = some it → it.type ≠ .dir → it.linkcount = references s o
  /-- A file or a symbolic link is freed exactly if no entry references it. -/
  freed : ∀ o it, s.memory.lookup o = some it → it.type ≠ .dir → (it.live = true ↔ references s o ≠ 0)
  /-- A directory has one name, and its `..` is the directory with that name. -/
  single : ∀ o, isDir s.kind o = true → o ≠ root → ∃ d n, Linked s d n o ∧
    (∀ d' n', Linked s d' n' o → d' = d ∧ n' = n) ∧
    ∃ h, findEntry (s.entriesOf o) dotDot = some h ∧ h.inode = d
  dirLinkcount : ∀ o it, s.item o = some it → it.type = .dir → o ≠ root →
    it.linkcount = 2 + subdirectories s o
  reach : ∀ o, isDir s.kind o = true → InSubtree s root o
  acyclic : ∀ o, isDir s.kind o = true →
    ¬Relation.TransGen (Child (fun p => isDir s.kind p = true) (Linked s)) o o

lemma entriesOf_item (hd : s.item p = some it) : s.entriesOf p = it.direntries := by
  rw [State.entriesOf, hd]
  rfl

/-- Counting entries of a directory is counting links out of it. -/
lemma Rep.countP_eq {Q : ℕ → Bool} {P : Dirlist → Bool} (hrep : Rep flag root s L) (hd : s.item d = some it)
    (hP : ∀ e ∈ it.direntries, P e = true ↔ (d, e.name, e.handle.inode) ∈ L ∧ Q e.handle.inode = true) :
    it.direntries.countP P = (L.filter fun l => l.1 = d ∧ Q l.2.2 = true).card := by
  have hnames := hrep.names d it hd
  have hnodup : ((it.direntries.filter P).map fun e => ((d, e.name, e.handle.inode) : Link)).Nodup := by
    refine List.Nodup.map_on (fun e he e' he' heq => ?_) ((List.Nodup.of_map _ hnames).filter P)
    rw [Prod.mk.injEq, Prod.mk.injEq] at heq
    exact eq_of_name hnames (List.mem_of_mem_filter he) (List.mem_of_mem_filter he') heq.2.1
  rw [List.countP_eq_length_filter, ← List.length_map fun e => ((d, e.name, e.handle.inode) : Link),
    ← List.toFinset_card_of_nodup hnodup]
  refine congrArg Finset.card (Finset.ext fun ⟨x, n, o⟩ => ?_)
  rw [List.mem_toFinset, List.mem_map, Finset.mem_filter]
  constructor
  · rintro ⟨e, he, heq⟩
    obtain ⟨hmem, hPe⟩ := List.mem_filter.mp he
    obtain ⟨hl, hQ⟩ := (hP e hmem).mp hPe
    rw [← heq]
    exact ⟨hl, rfl, hQ⟩
  · rintro ⟨hl, rfl, hQ⟩
    obtain ⟨-, -, it', e, hd', he, rfl, rfl⟩ := hrep.linked_iff.mpr hl
    obtain rfl := Option.some.inj (hd.symm.trans hd')
    exact ⟨e, List.mem_filter.mpr ⟨he, (hP e he).mpr ⟨hl, hQ⟩⟩, rfl⟩

/-- The references to a file are the links to it. -/
lemma Rep.references_eq (hrep : Rep flag root s L) (ho : isDir s.kind o = false) :
    references s o = linksTo L o := by
  have hmaps : ∀ l ∈ L.filter fun l => l.2.2 = o, l.1 ∈ s.memory.keys := by
    rintro ⟨d, n, x⟩ hl
    have hdir := hrep.shape.tree.source d n x (Finset.mem_filter.mp hl).1
    obtain ⟨it, hd⟩ := isSome_kind.mp (isSome_of_isDir hdir)
    exact Finmap.mem_keys.mpr (Finmap.mem_of_lookup_eq_some (lookup_of_item hd))
  rw [references, linksTo, Finset.card_eq_sum_card_fiberwise hmaps]
  refine Finset.sum_congr rfl fun d _ => ?_
  rw [Finset.filter_filter]
  cases hd : s.item d with
  | none =>
    rw [State.entriesOf, hd]
    refine (Finset.card_eq_zero.mpr (Finset.filter_eq_empty_iff.mpr ?_)).symm
    rintro ⟨x, n, y⟩ hl ⟨-, rfl⟩
    obtain ⟨it, hx⟩ := isSome_kind.mp (isSome_of_isDir (hrep.shape.tree.source _ _ _ hl))
    rw [hd] at hx
    cases hx
  | some it =>
    rw [entriesOf_item hd, hrep.countP_eq (Q := fun x => x = o) hd]
    · refine congrArg Finset.card (Finset.filter_congr fun l _ => ?_)
      rw [decide_eq_true_eq, and_comm]
    · intro e he
      rw [decide_eq_true_eq]
      refine ⟨fun heq => ⟨?_, heq⟩, And.right⟩
      obtain ⟨hdir, -, hcases⟩ := (hrep.entries d it hd e).mp he
      rw [heq] at hcases
      rw [heq]
      rcases hcases with ⟨-, rfl⟩ | ⟨-, ⟨-, rfl, -⟩ | ⟨n, hl⟩⟩ | hl
      · rw [ho] at hdir
        cases hdir
      · exact absurd (ho.symm.trans hrep.shape.tree.dir_root) Bool.false_ne_true
      · exact absurd (ho.symm.trans (hrep.shape.tree.source _ _ _ hl)) Bool.false_ne_true
      · exact hl

/-- The subdirectories by entries and by links. -/
lemma Rep.subdirectories_eq (hrep : Rep flag root s L) (hd : s.item d = some it) :
    subdirectories s d = subdirs s.kind L d := by
  rw [subdirectories, entriesOf_item hd, hrep.countP_eq (Q := isDir s.kind) hd, subdirs]
  intro e he
  rw [decide_eq_true_eq]
  constructor
  · rintro ⟨hdot, hdotDot, hdir⟩
    exact ⟨hrep.linked_iff.mp ⟨hdot, hdotDot, it, e, hd, he, rfl, rfl⟩, hdir⟩
  · rintro ⟨hl, hdir⟩
    obtain ⟨hdot, hdotDot⟩ := hrep.shape.named _ _ _ hl
    exact ⟨hdot, hdotDot, hdir⟩

/-- What the relation says of the counts and the dot entries. -/
lemma Rep.consistent (hrep : Rep flag root s L) : Consistent root s := by
  have htree := hrep.shape.tree
  have hlinked : Linked s = fun d n o => (d, n, o) ∈ L := by
    funext d n o
    exact propext hrep.linked_iff
  have hvalid : ∀ d it e, s.item d = some it → e ∈ it.direntries →
      ∃ it', s.item e.handle.inode = some it' ∧ it'.magic = e.handle.magic :=
    fun d it e hd he => ((hrep.entries d it hd e).mp he).valid.exists_item
  have hcount : ∀ o it, s.item o = some it → it.type ≠ .dir →
      it.linkcount = references s o ∧ 0 < references s o := by
    intro o it ho hfile
    have hodir : isDir s.kind o = false := by rw [isDir_of_item ho]; exact decide_eq_false hfile
    -- the root is a directory
    have hroot : o ≠ root := by
      rintro rfl
      exact Bool.false_ne_true (hodir.symm.trans htree.dir_root)
    have hcounts := hrep.counts o it ho hroot
    rw [count, hodir] at hcounts
    obtain ⟨d, n, hl⟩ := hrep.shape.linked o (isSome_kind.mpr ⟨it, ho⟩) hodir
    rw [hrep.references_eq hodir]
    exact ⟨hcounts, linksTo_pos hl⟩
  refine ⟨hrep.names, hvalid, fun o it ho hfile => (hcount o it ho hfile).1, fun o it ho hfile => ?_,
    fun o hdir hroot => ?_, fun o it ho hdir hroot => ?_, fun o hdir => ?_, fun o hdir => ?_⟩
  · constructor
    · intro hlive
      exact (hcount o it (item_eq_some.mpr ⟨ho, hlive⟩) hfile).2.ne'
    · intro hne
      obtain ⟨d, -, hd⟩ := Finset.exists_ne_zero_of_sum_ne_zero hne
      obtain ⟨e, he, heq⟩ := List.countP_pos_iff.mp (Nat.pos_of_ne_zero hd)
      cases hitem : s.item d with
      | none =>
        rw [State.entriesOf, hitem] at he
        cases he
      | some itd =>
        rw [entriesOf_item hitem] at he
        obtain ⟨it', hit', -⟩ := hvalid d itd e hitem he
        rw [of_decide_eq_true heq] at hit'
        obtain ⟨hlookup, hlive⟩ := item_eq_some.mp hit'
        rw [Option.some.inj (ho.symm.trans hlookup), hlive]
  · obtain ⟨d, n, hl⟩ := htree.exists_link hdir hroot
    rw [hlinked]
    refine ⟨d, n, hl, fun d' n' hl' => htree.single d' n' d n o hdir hl' hl, ?_⟩
    obtain ⟨it, ho⟩ := isSome_kind.mp (isSome_of_isDir hdir)
    obtain ⟨itd, hd⟩ := isSome_kind.mp (isSome_of_isDir (htree.source d n o hl))
    have hentry : (⟨dotDot, ⟨d, itd.magic⟩⟩ : Dirlist) ∈ it.direntries :=
      (hrep.entries o it ho _).mpr ⟨hdir, valid_of_item hd rfl, .inr (.inl ⟨rfl, .inr ⟨n, hl⟩⟩)⟩
    rw [entriesOf_item ho]
    cases hfind : findEntry it.direntries dotDot with
    | none => exact absurd (mem_names.mpr ⟨_, hentry⟩) (findEntry_eq_none.mp hfind)
    | some h =>
      have heq := eq_of_name (hrep.names o it ho) (mem_of_findEntry hfind) hentry rfl
      rw [Dirlist.mk.injEq] at heq
      exact ⟨h, rfl, congrArg Handle.inode heq.2⟩
  · have hodir : isDir s.kind o = true := by rw [isDir_of_item ho, hdir]; rfl
    have hcounts := hrep.counts o it ho hroot
    rw [count, if_pos hodir] at hcounts
    rw [hcounts, hrep.subdirectories_eq ho]
  · rw [InSubtree, hlinked]
    exact htree.reach o hdir
  · rw [hlinked]
    exact htree.acyclic hdir

/-- The root alone. -/
lemma item_ghostfsInit (hx : (ghostfsInit flag root magic).item x = some it) :
    x = root ∧ it.magic = magic ∧ it.type = .dir ∧ it.direntries =
      if flag then [⟨dot, ⟨root, magic⟩⟩, ⟨dotDot, ⟨root, magic⟩⟩] else [⟨dot, ⟨root, magic⟩⟩] := by
  have hlookup := lookup_of_item hx
  have hmem := Finmap.mem_of_lookup_eq_some hlookup
  rw [ghostfsInit, Finmap.mem_singleton] at hmem
  rw [hmem, ghostfsInit, Finmap.lookup_singleton_eq, Option.some.injEq] at hlookup
  rw [← hlookup]
  cases flag with
  | false => exact ⟨hmem, rfl, rfl, rfl⟩
  | true => exact ⟨hmem, rfl, rfl, rfl⟩

/-- After GHOSTFS_Init there is the root alone. -/
lemma rep_init : Rep flag root (ghostfsInit flag root magic) ∅ := by
  have hroot : ∃ it, (ghostfsInit flag root magic).item root = some it := by
    refine ⟨_, item_eq_some.mpr ⟨Finmap.lookup_singleton_eq, ?_⟩⟩
    cases flag with
    | false => rfl
    | true => rfl
  obtain ⟨it₀, hit₀⟩ := hroot
  obtain ⟨-, hmagic, htype, -⟩ := item_ghostfsInit hit₀
  have hdir : isDir (ghostfsInit flag root magic).kind root = true := by rw [isDir_of_item hit₀, htype]; rfl
  have hv : Valid (ghostfsInit flag root magic).kind ⟨root, magic⟩ := valid_of_item hit₀ hmagic
  have honly : ∀ x, ((ghostfsInit flag root magic).kind x).isSome → x = root := by
    intro x hx
    obtain ⟨it, hit⟩ := isSome_kind.mp hx
    exact (item_ghostfsInit hit).1
  refine ⟨⟨⟨hdir, ?_, ?_, ?_, ?_, fun o ho => ?_⟩, ?_, ?_, fun o ho hfile => ?_⟩, fun x it hx => ?_,
    fun x it hx e => ?_, fun x it hx hne => absurd (item_ghostfsInit hx).1 hne⟩
  · exact fun _ _ _ hl => absurd hl (Finset.notMem_empty _)
  · exact fun _ _ _ _ hl => absurd hl (Finset.notMem_empty _)
  · exact fun _ _ _ _ _ _ hl => absurd hl (Finset.notMem_empty _)
  · exact fun _ _ hl => absurd hl (Finset.notMem_empty _)
  · rw [honly o (isSome_of_isDir ho)]
  · exact fun _ _ _ hl => absurd hl (Finset.notMem_empty _)
  · exact fun _ _ _ hl => absurd hl (Finset.notMem_empty _)
  · rw [honly o ho, hdir] at hfile
    cases hfile
  · rw [(item_ghostfsInit hx).2.2.2]
    cases flag with
    | false => exact List.nodup_singleton dot
    | true =>
      show [dot, dotDot].Nodup
      decide
  · obtain ⟨rfl, -, -, hentries⟩ := item_ghostfsInit hx
    rw [hentries]
    constructor
    · intro he
      cases flag with
      | false =>
        rw [List.mem_singleton.mp he]
        exact ⟨hdir, hv, .inl ⟨rfl, rfl⟩⟩
      | true =>
        rcases List.mem_cons.mp he with rfl | he
        · exact ⟨hdir, hv, .inl ⟨rfl, rfl⟩⟩
        · rw [List.mem_singleton.mp he]
          exact ⟨hdir, hv, .inr (.inl ⟨rfl, .inl ⟨rfl, rfl, rfl⟩⟩)⟩
    · rintro ⟨-, hvalid, ⟨hname, heq⟩ | ⟨hname, ⟨-, heq, rfl⟩ | ⟨n, hl⟩⟩ | hl⟩
      · have he : e = ⟨dot, ⟨x, magic⟩⟩ := by rw [← hname, ← hvalid.eq hv heq]
        rw [he]
        cases flag with
        | false => exact List.mem_cons_self
        | true => exact List.mem_cons_self
      · have he : e = ⟨dotDot, ⟨x, magic⟩⟩ := by rw [← hname, ← hvalid.eq hv heq]
        rw [he]
        exact List.mem_cons_of_mem _ List.mem_cons_self
      · exact absurd hl (Finset.notMem_empty _)
      · exact absurd hl (Finset.notMem_empty _)

/-- In every run of careful calls the namespace is consistent. -/
theorem consistent_of_careful {magic : ℕ}
    (hrun : ReachableBy step Careful (ghostfsInit flag root magic) s) : Consistent root s := by
  have hinv : ∃ L, Rep flag root s L := by
    refine hrun.invariant (I := fun s => ∃ L, Rep flag root s L) ⟨∅, rep_init⟩ ?_
    rintro s c s' ⟨L, hrep⟩ hcareful hstep
    exact hrep.step hcareful hstep
  obtain ⟨L, hrep⟩ := hinv
  exact hrep.consistent

/-- In such a run a rename, other than of a name to itself, does nothing or moves one name: the target
name is bound to what the source name was bound to, the source name to nothing, and every other name
to what it was. -/
theorem linked_of_rename {magic : ℕ}
    (hrun : ReachableBy step Careful (ghostfsInit flag root magic) s)
    (hcareful : Careful s (.rename src tgt srcName tgtName tmphandle))
    (hrename : ghostfsRename s src tgt srcName tgtName tmphandle = some (s', rc))
    (hne : ¬ (src.inode = tgt.inode ∧ srcName = tgtName)) :
    s' = s ∨ ∃ o, Linked s src.inode srcName o ∧ ∀ d n x, Linked s' d n x ↔
      d = tgt.inode ∧ n = tgtName ∧ x = o ∨ Linked s d n x ∧ ¬ (d = tgt.inode ∧ n = tgtName) ∧
        ¬ (d = src.inode ∧ n = srcName) := by
  obtain ⟨L, hrep⟩ := hrun.invariant (I := fun s => ∃ L, Rep flag root s L) ⟨∅, rep_init⟩
    fun _ _ _ hrep hcareful hstep => hrep.elim fun _ hrep => hrep.step hcareful hstep
  obtain ⟨L', hrep', hmoved⟩ := hrep.ghostfsRename hcareful hrename
  simpa only [hrep.linked_iff, hrep'.linked_iff] using hmoved hne

/-- A directory with a file that is renamed over another link to it, and then moved. -/
def sampleCalls : List Call :=
  [.mkDir ⟨1, 9⟩ ['a'] 2 8, .create ⟨2, 8⟩ ['f'] 3 7, .link ⟨2, 8⟩ ['g'] ⟨3, 7⟩,
    .rename ⟨2, 8⟩ ⟨2, 8⟩ ['f'] ['g'] ⟨0, 0⟩, .rename ⟨2, 8⟩ ⟨1, 9⟩ ['g'] ['h'] ⟨0, 0⟩]

/-- Whether a handle is in use can be computed. -/
lemma inUse_iff : InUse s h ↔ (getEntryFromHandle s h).all (fun r => r.2.live) = true := by
  cases hget : getEntryFromHandle s h with
  | none =>
    refine iff_of_true (fun p it hp => ?_) rfl
    rw [hget] at hp
    cases hp
  | some r =>
    constructor
    · exact fun huse => huse r.1 r.2 hget
    · intro hall p it hp
      rw [hget, Option.some.injEq] at hp
      rw [hp] at hall
      exact hall

/-- A test for careful calls that move no directory. -/
def isCareful (s : State) : Call → Bool
  | .mkDir parent _ _ _ => (getEntryFromHandle s parent).all fun r => r.2.live
  | .create parent _ _ _ => (getEntryFromHandle s parent).all fun r => r.2.live
  | .symlink parent _ _ _ => (getEntryFromHandle s parent).all fun r => r.2.live
  | .link parent _ target => (getEntryFromHandle s parent).all (fun r => r.2.live) ∧
    (getEntryFromHandle s target).all (fun r => r.2.live)
  | .unlink parent _ => (getEntryFromHandle s parent).all fun r => r.2.live
  | .rename src tgt srcName _ _ => (getEntryFromHandle s src).all (fun r => r.2.live) ∧
    (getEntryFromHandle s tgt).all (fun r => r.2.live) ∧ srcName ≠ dot ∧ srcName ≠ dotDot ∧
    (findEntry (s.entriesOf src.inode) srcName).all fun h => !isDir s.kind h.inode

/-- The check on a call implies `Careful`. -/
lemma careful_of_isCareful {c : Call} (hcheck : isCareful s c = true) : Careful s c := by
  cases c with
  | mkDir => exact inUse_iff.mpr hcheck
  | create => exact inUse_iff.mpr hcheck
  | symlink => exact inUse_iff.mpr hcheck
  | link =>
    obtain ⟨hparent, htarget⟩ := of_decide_eq_true hcheck
    exact ⟨inUse_iff.mpr hparent, inUse_iff.mpr htarget⟩
  | unlink => exact inUse_iff.mpr hcheck
  | rename =>
    obtain ⟨hsrc, htgt, hdot, hdotDot, hfile⟩ := of_decide_eq_true hcheck
    refine ⟨inUse_iff.mpr hsrc, inUse_iff.mpr htgt, hdot, hdotDot, fun _ it h hit hfind hdir => ?_⟩
    rw [entriesOf_item hit, hfind, Option.all_some, hdir] at hfile
    cases hfile

lemma meets_sampleCalls : Meets step Careful (ghostfsInit true 1 9) sampleCalls := by
  have hmeets : Meets step (fun s c => isCareful s c = true) (ghostfsInit true 1 9) sampleCalls := by
    decide +kernel
  exact hmeets.mono fun _ _ => careful_of_isCareful

/-- The file of a directory is moved to the root. -/
theorem linked_of_rename_moved : ∃ s s' rc,
    execute step (ghostfsInit true 1 9) [.mkDir ⟨1, 9⟩ ['a'] 2 8, .create ⟨2, 8⟩ ['f'] 3 7] = some s ∧
    ghostfsRename s ⟨2, 8⟩ ⟨1, 9⟩ ['f'] ['h'] ⟨0, 0⟩ = some (s', rc) ∧
    (s' = s ∨ ∃ o, Linked s 2 ['f'] o ∧ ∀ d n x, Linked s' d n x ↔
      d = 1 ∧ n = ['h'] ∧ x = o ∨ Linked s d n x ∧ ¬ (d = 1 ∧ n = ['h']) ∧ ¬ (d = 2 ∧ n = ['f'])) := by
  have hmeets : Meets step (fun s c => isCareful s c = true) (ghostfsInit true 1 9)
      [.mkDir ⟨1, 9⟩ ['a'] 2 8, .create ⟨2, 8⟩ ['f'] 3 7] := by decide +kernel
  have hrun : ((execute step (ghostfsInit true 1 9)
      [.mkDir ⟨1, 9⟩ ['a'] 2 8, .create ⟨2, 8⟩ ['f'] 3 7]).any fun s =>
      isCareful s (.rename ⟨2, 8⟩ ⟨1, 9⟩ ['f'] ['h'] ⟨0, 0⟩) &&
        (ghostfsRename s ⟨2, 8⟩ ⟨1, 9⟩ ['f'] ['h'] ⟨0, 0⟩).isSome) = true := by decide +kernel
  rw [Option.any_eq_true] at hrun
  obtain ⟨s, hs, hcall⟩ := hrun
  obtain ⟨hcareful, hsome⟩ := (Bool.and_eq_true _ _).mp hcall
  obtain ⟨⟨s', rc⟩, hrename⟩ := Option.isSome_iff_exists.mp hsome
  exact ⟨s, s', rc, hs, hrename, linked_of_rename
    (reachableBy_of_execute hs (hmeets.mono fun _ _ => careful_of_isCareful))
    (careful_of_isCareful hcareful) hrename (by decide)⟩

/-- A sample run with a rename. -/
theorem consistent_of_careful_moved :
    ∃ s, execute step (ghostfsInit true 1 9) sampleCalls = some s ∧ Consistent 1 s ∧
      s.item 3 = some ⟨7, 1, .file, [], true⟩ := by
  have hrun : ((execute step (ghostfsInit true 1 9) sampleCalls).any fun s =>
      s.item 3 = some ⟨7, 1, .file, [], true⟩) = true := by
    decide +kernel
  rw [Option.any_eq_true] at hrun
  obtain ⟨s, hs, hfinal⟩ := hrun
  exact ⟨s, hs, consistent_of_careful (reachableBy_of_execute hs meets_sampleCalls), of_decide_eq_true hfinal⟩

/-- The rename of a directory to a name in its own subdirectory, and the rename of `.`. -/
theorem not_consistent_of_careless :
    (∃ s, execute step (ghostfsInit true 1 9) [.mkDir ⟨1, 9⟩ ['a'] 2 8, .mkDir ⟨2, 8⟩ ['b'] 3 7,
      .rename ⟨1, 9⟩ ⟨3, 7⟩ ['a'] ['c'] ⟨0, 0⟩] = some s ∧ ¬Consistent 1 s) ∧
    ∃ s, execute step (ghostfsInit true 1 9) [.mkDir ⟨1, 9⟩ ['a'] 2 8,
      .rename ⟨2, 8⟩ ⟨2, 8⟩ dot ['b'] ⟨0, 0⟩] = some s ∧ ¬Consistent 1 s := by
  constructor
  · have hrun : ((execute step (ghostfsInit true 1 9) [.mkDir ⟨1, 9⟩ ['a'] 2 8, .mkDir ⟨2, 8⟩ ['b'] 3 7,
        .rename ⟨1, 9⟩ ⟨3, 7⟩ ['a'] ['c'] ⟨0, 0⟩]).any fun s =>
        isDir s.kind 2 = true ∧ s.item 1 =
          some ⟨9, 2, .dir, [⟨dot, ⟨1, 9⟩⟩, ⟨dotDot, ⟨1, 9⟩⟩], true⟩) = true := by
      decide +kernel
    rw [Option.any_eq_true] at hrun
    obtain ⟨s, hs, hfinal⟩ := hrun
    obtain ⟨hdir, hroot⟩ := of_decide_eq_true hfinal
    refine ⟨s, hs, fun hcons => ?_⟩
    -- the root has no entry left
    rcases Relation.ReflTransGen.cases_head (hcons.reach 2 hdir) with
      heq | ⟨c, ⟨-, n, hdot, hdotDot, it, e, hit, he, hname, -⟩, -⟩
    · cases heq
    · rw [hroot, Option.some.injEq] at hit
      rw [← hit] at he
      rcases List.mem_cons.mp he with rfl | he
      · exact hdot hname.symm
      · rw [List.mem_singleton.mp he] at hname
        exact hdotDot hname.symm
  · have hrun : ((execute step (ghostfsInit true 1 9) [.mkDir ⟨1, 9⟩ ['a'] 2 8,
        .rename ⟨2, 8⟩ ⟨2, 8⟩ dot ['b'] ⟨0, 0⟩]).any fun s => s.item 2 =
          some ⟨8, 2, .dir, [⟨['b'], ⟨2, 8⟩⟩, ⟨dotDot, ⟨1, 9⟩⟩], true⟩) = true := by
      decide +kernel
    rw [Option.any_eq_true] at hrun
    obtain ⟨s, hs, hfinal⟩ := hrun
    have hit := of_decide_eq_true hfinal
    refine ⟨s, hs, fun hcons => ?_⟩
    -- the directory is its own child
    have hdir : isDir s.kind 2 = true := by rw [isDir_of_item hit]; rfl
    have hlinked : Linked s 2 ['b'] 2 :=
      ⟨by decide, by decide, _, ⟨['b'], ⟨2, 8⟩⟩, hit, List.mem_cons_self, rfl, rfl⟩
    exact hcons.acyclic 2 hdir (.single ⟨hdir, ['b'], hlinked⟩)

end Ganesha.GhostFs
