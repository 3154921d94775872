import Mathlib.Data.Finset.Card
import Ganesha.GhostFs.Entries
import Ganesha.Library.LinkTree

/-!
# The links of GHOST_FS

A state represents a set of links between its items. The links form a tree of directories, the lists of
entries hold the links and the entries `.` and `..`, and the link counts count them. This module says what
a new link, a removed link and a moved link do to each of the three; only the types and the magic numbers
of the items matter for it.
-/

namespace Ganesha.GhostFs
open Library.LinkTree

/-- The types and the magic numbers of the items in use. -/
abbrev Kind := ℕ → Option (TypeItem × ℕ)

/-- A directory, a name in it, and the object with that name. -/
abbrev Link := ℕ × Name × ℕ

/-- The types and the magic numbers of the items of a state. -/
def State.kind (s : State) : Kind := fun p => (s.item p).map fun it => (it.type, it.magic)

/-- A directory is in use at the address. -/
def isDir (k : Kind) (p : ℕ) : Bool := (k p).any fun t => t.1 = .dir

/-- The handle is that of an item in use. -/
def Valid (k : Kind) (h : Handle) : Prop := ∃ t, k h.inode = some (t, h.magic)

/-- The parent of a directory. The root may have one, itself. -/
def Parent (flag : Bool) (root : ℕ) (L : Finset Link) (d p : ℕ) : Prop :=
  d = root ∧ p = root ∧ flag = true ∨ ∃ n, (p, n, d) ∈ L

/-- The entries of a directory. -/
structure Entry (flag : Bool) (root : ℕ) (k : Kind) (L : Finset Link) (d : ℕ) (e : Dirlist) : Prop where
  dir : isDir k d = true
  valid : Valid k e.handle
  cases : e.name = dot ∧ e.handle.inode = d ∨ e.name = dotDot ∧ Parent flag root L d e.handle.inode ∨
    (d, e.name, e.handle.inode) ∈ L

/-- The links form a tree of directories, and link every other item. -/
structure Shape (root : ℕ) (k : Kind) (L : Finset Link) : Prop where
  tree : Tree root (fun p => isDir k p = true) (fun d n o => (d, n, o) ∈ L)
  target : ∀ d n o, (d, n, o) ∈ L → (k o).isSome
  named : ∀ d n o, (d, n, o) ∈ L → n ≠ dot ∧ n ≠ dotDot
  linked : ∀ o, (k o).isSome → isDir k o = false → ∃ d n, (d, n, o) ∈ L

/-- The number of links to an item. -/
def linksTo (L : Finset Link) (o : ℕ) : ℕ := (L.filter fun l => l.2.2 = o).card

/-- The number of subdirectories of a directory. -/
def subdirs (k : Kind) (L : Finset Link) (d : ℕ) : ℕ :=
  (L.filter fun l => l.1 = d ∧ isDir k l.2.2 = true).card

/-- The link count of an item. -/
def count (k : Kind) (L : Finset Link) (o : ℕ) : ℕ :=
  if isDir k o = true then 2 + subdirs k L o else linksTo L o

/-- A state represents a set of links. -/
structure Rep (flag : Bool) (root : ℕ) (s : State) (L : Finset Link) : Prop where
  shape : Shape root s.kind L
  names : ∀ p it, s.item p = some it → (names it.direntries).Nodup
  entries : ∀ p it, s.item p = some it → ∀ e, e ∈ it.direntries ↔ Entry flag root s.kind L p e
  counts : ∀ p it, s.item p = some it → p ≠ root → it.linkcount = count s.kind L p

variable {flag : Bool} {root d d' o x : ℕ} {n n' : Name} {k k' : Kind} {L : Finset Link} {h h' : Handle}
  {e : Dirlist}

lemma isSome_of_isDir (hd : isDir k d = true) : (k d).isSome := by
  rw [isDir, Option.any_eq_true] at hd
  obtain ⟨t, ht, -⟩ := hd
  rw [ht]
  rfl

lemma isDir_congr (hk : k' x = k x) : isDir k' x = isDir k x := by
  rw [isDir, isDir, hk]

lemma Valid.congr (hk : k' h.inode = k h.inode) : Valid k' h ↔ Valid k h := by
  rw [Valid, Valid, hk]

/-- Valid handles of one object are equal. -/
lemma Valid.eq (hv : Valid k h) (hv' : Valid k h') (hinode : h.inode = h'.inode) : h = h' := by
  obtain ⟨i, m⟩ := h
  obtain ⟨i', m'⟩ := h'
  obtain ⟨t, ht⟩ := hv
  obtain ⟨t', ht'⟩ := hv'
  obtain rfl : i = i' := hinode
  have heq := ht.symm.trans ht'
  rw [Option.some.injEq, Prod.mk.injEq] at heq
  exact congrArg (Handle.mk i) heq.2

/-! ## Counts -/

/-- One link more. -/
lemma linksTo_insert (hnew : (d, n, o) ∉ L) :
    linksTo (insert (d, n, o) L) x = if x = o then linksTo L x + 1 else linksTo L x := by
  rw [linksTo, Finset.filter_insert]
  split_ifs with ho hx hx
  · exact Finset.card_insert_of_notMem fun hmem => hnew (Finset.mem_filter.mp hmem).1
  · exact absurd ho.symm hx
  · exact absurd hx.symm ho
  · rfl

lemma linksTo_erase (hold : (d, n, o) ∈ L) :
    linksTo (L.erase (d, n, o)) x = if x = o then linksTo L x - 1 else linksTo L x := by
  rw [linksTo, Finset.filter_erase]
  split_ifs with hx
  · exact Finset.card_erase_of_mem (Finset.mem_filter.mpr ⟨hold, hx.symm⟩)
  · rw [Finset.erase_eq_of_notMem, linksTo]
    exact fun hmem => hx (Finset.mem_filter.mp hmem).2.symm

/-- One link more, perhaps to a directory. -/
lemma subdirs_insert (hnew : (d, n, o) ∉ L) : subdirs k (insert (d, n, o) L) x =
    if x = d ∧ isDir k o = true then subdirs k L x + 1 else subdirs k L x := by
  rw [subdirs, Finset.filter_insert]
  split_ifs with hl hx hx
  · exact Finset.card_insert_of_notMem fun hmem => hnew (Finset.mem_filter.mp hmem).1
  · exact absurd ⟨hl.1.symm, hl.2⟩ hx
  · exact absurd ⟨hx.1.symm, hx.2⟩ hl
  · rfl

/-- One link less, perhaps to a directory. -/
lemma subdirs_erase (hold : (d, n, o) ∈ L) : subdirs k (L.erase (d, n, o)) x =
    if x = d ∧ isDir k o = true then subdirs k L x - 1 else subdirs k L x := by
  rw [subdirs, Finset.filter_erase]
  split_ifs with hx
  · exact Finset.card_erase_of_mem (Finset.mem_filter.mpr ⟨hold, hx.1.symm, hx.2⟩)
  · rw [Finset.erase_eq_of_notMem, subdirs]
    intro hmem
    obtain ⟨-, hd, ho⟩ := Finset.mem_filter.mp hmem
    exact hx ⟨hd.symm, ho⟩

lemma subdirs_congr (hk : ∀ d n o, (d, n, o) ∈ L → isDir k' o = isDir k o) :
    subdirs k' L x = subdirs k L x := by
  rw [subdirs, subdirs]
  refine congrArg Finset.card (Finset.filter_congr fun l hl => ?_)
  rw [hk l.1 l.2.1 l.2.2 hl]

lemma subdirs_eq_zero (hempty : ∀ n o, (d, n, o) ∉ L) : subdirs k L d = 0 := by
  rw [subdirs, Finset.card_eq_zero, Finset.filter_eq_empty_iff]
  rintro ⟨x, n, o⟩ hl ⟨rfl, -⟩
  exact hempty n o hl

lemma linksTo_eq_zero (hfresh : ∀ d n, (d, n, o) ∉ L) : linksTo L o = 0 := by
  rw [linksTo, Finset.card_eq_zero, Finset.filter_eq_empty_iff]
  rintro ⟨d, n, x⟩ hl rfl
  exact hfresh d n hl

lemma linksTo_pos (hl : (d, n, o) ∈ L) : 0 < linksTo L o :=
  Finset.card_pos.mpr ⟨(d, n, o), Finset.mem_filter.mpr ⟨hl, rfl⟩⟩

lemma eq_of_linksTo (hone : linksTo L o = 1) (hl : (d, n, o) ∈ L) (hl' : (x, n', o) ∈ L) : x = d ∧ n' = n := by
  have heq := Finset.card_le_one.mp hone.le _ (Finset.mem_filter.mpr ⟨hl', rfl⟩) _
    (Finset.mem_filter.mpr ⟨hl, rfl⟩)
  rw [Prod.mk.injEq, Prod.mk.injEq] at heq
  exact ⟨heq.1, heq.2.1⟩

lemma exists_of_linksTo (htwo : 1 < linksTo L o) (d : ℕ) (n : Name) :
    ∃ x m, (x, m, o) ∈ L ∧ ¬(x = d ∧ m = n) := by
  obtain ⟨⟨x, m, y⟩, hmem, hne⟩ := Finset.exists_mem_ne htwo (d, n, o)
  obtain ⟨hl, rfl⟩ := Finset.mem_filter.mp hmem
  exact ⟨x, m, hl, fun heq => hne (by rw [heq.1, heq.2])⟩

lemma subdirs_pos (hl : (d, n, o) ∈ L) (ho : isDir k o = true) : 0 < subdirs k L d :=
  Finset.card_pos.mpr ⟨(d, n, o), Finset.mem_filter.mpr ⟨hl, rfl, ho⟩⟩

/-! ## A new link -/

/-- The items after one may have been added. -/
structure Grows (k k' : Kind) (o : ℕ) : Prop where
  keep : ∀ x, (k x).isSome → k' x = k x
  new : ∀ x, (k' x).isSome → (k x).isSome ∨ x = o
  target : (k' o).isSome

lemma Grows.isDir_eq (hk : Grows k k' o) (hx : x ≠ o) : isDir k' x = isDir k x := by
  by_cases hlive : (k x).isSome
  · exact isDir_congr (hk.keep x hlive)
  · have hnone : ¬(k' x).isSome := fun hlive' => (hk.new x hlive').elim hlive hx
    rw [isDir, isDir, Option.not_isSome_iff_eq_none.mp hlive, Option.not_isSome_iff_eq_none.mp hnone]

lemma Grows.valid (hk : Grows k k' o) (hlive : (k h.inode).isSome) : Valid k' h ↔ Valid k h :=
  Valid.congr (hk.keep _ hlive)

lemma mem_insert_iff {y : ℕ} : (x, n', y) ∈ insert (d, n, o) L ↔ x = d ∧ n' = n ∧ y = o ∨ (x, n', y) ∈ L := by
  rw [Finset.mem_insert, Prod.mk.injEq, Prod.mk.injEq]

/-- The links that are left. -/
lemma mem_erase_iff {y : ℕ} (htree : Tree root (fun p => isDir k p = true) (fun d n o => (d, n, o) ∈ L))
    (hold : (d, n, o) ∈ L) :
    (x, n', y) ∈ L.erase (d, n, o) ↔ (x, n', y) ∈ L ∧ ¬(x = d ∧ n' = n) := by
  rw [Finset.mem_erase, ne_eq, Prod.mk.injEq, Prod.mk.injEq]
  constructor
  · rintro ⟨hne, hl⟩
    refine ⟨hl, ?_⟩
    rintro ⟨rfl, rfl⟩
    exact hne ⟨rfl, rfl, htree.unique x n' y o hl hold⟩
  · rintro ⟨hl, hne⟩
    exact ⟨fun heq => hne ⟨heq.1, heq.2.1⟩, hl⟩

/-- The shape after a link to a new object. -/
lemma Shape.of_insert (hs : Shape root k L) (hk : Grows k k' o) (hname : n ≠ dot ∧ n ≠ dotDot)
    (htree : Tree root (fun p => isDir k' p = true) (fun x m y => (x, m, y) ∈ insert (d, n, o) L)) :
    Shape root k' (insert (d, n, o) L) where
  tree := htree
  target x m y hl := by
    rcases mem_insert_iff.mp hl with ⟨-, -, rfl⟩ | hl
    · exact hk.target
    · have hlive := hs.target x m y hl
      rw [hk.keep y hlive]
      exact hlive
  named x m y hl := by
    rcases mem_insert_iff.mp hl with ⟨-, rfl, -⟩ | hl
    · exact hname
    · exact hs.named x m y hl
  linked y hlive hy := by
    by_cases hyo : y = o
    · exact ⟨d, n, mem_insert_iff.mpr (.inl ⟨rfl, rfl, hyo⟩)⟩
    · obtain ⟨x, m, hl⟩ := hs.linked y ((hk.new y hlive).resolve_right hyo) (by rw [← hk.isDir_eq hyo, hy])
      exact ⟨x, m, mem_insert_iff.mpr (.inr hl)⟩

/-- A new file keeps the shape. -/
lemma Shape.add (hs : Shape root k L) (hk : Grows k k' o) (ho : isDir k' o = false) (hko : isDir k o = false)
    (hd : isDir k d = true) (hfree : ∀ o', (d, n, o') ∉ L) (hname : n ≠ dot ∧ n ≠ dotDot) :
    Shape root k' (insert (d, n, o) L) := by
  have hdir : ∀ x, isDir k' x = isDir k x := by
    intro x
    by_cases hx : x = o
    · rw [hx, ho, hko]
    · exact hk.isDir_eq hx
  refine hs.of_insert hk hname ?_
  simp only [hdir]
  exact hs.tree.add hd (by rw [hko]; exact Bool.false_ne_true) hfree fun x m y => mem_insert_iff

/-- The count of each object after a link to a file. -/
lemma count_add (hk : Grows k k' o) (ho : isDir k' o = false) (hko : isDir k o = false)
    (hnew : (d, n, o) ∉ L) : count k' (insert (d, n, o) L) x =
      if x = o then linksTo L x + 1 else count k L x := by
  have hdir : ∀ x, isDir k' x = isDir k x := by
    intro x
    by_cases hx : x = o
    · rw [hx, ho, hko]
    · exact hk.isDir_eq hx
  have hsub : subdirs k' (insert (d, n, o) L) x = subdirs k L x := by
    rw [subdirs_insert hnew, if_neg fun h => Bool.false_ne_true (ho.symm.trans h.2),
      subdirs_congr fun _ _ y _ => hdir y]
  rw [count, hdir, linksTo_insert hnew, hsub]
  by_cases hx : x = o
  · rw [if_pos hx, if_pos hx, hx, hko]
    rfl
  · rw [if_neg hx, if_neg hx, count]

/-- The counts after a new directory: two for itself, one more for its parent. -/
lemma Shape.count_addDir (hs : Shape root k L) (hk : Grows k k' o) (ho : isDir k' o = true)
    (hko : k o = none) (hd : isDir k d = true) : count k' (insert (d, n, o) L) x =
      if x = o then 2 else if x = d then count k L x + 1 else count k L x := by
  have hfresh : ∀ x m, (x, m, o) ∉ L := by
    intro x m hl
    have hlive := hs.target x m o hl
    rw [hko] at hlive
    cases hlive
  have hempty : ∀ m y, (o, m, y) ∉ L := by
    intro m y hl
    have hlive := isSome_of_isDir (hs.tree.source o m y hl)
    rw [hko] at hlive
    cases hlive
  have hdo : o ≠ d := by
    rintro rfl
    have hlive := isSome_of_isDir hd
    rw [hko] at hlive
    cases hlive
  have hsub : ∀ x, subdirs k' L x = subdirs k L x := by
    intro x
    refine subdirs_congr fun z m y hl => hk.isDir_eq ?_
    rintro rfl
    exact hfresh z m hl
  rw [count, subdirs_insert (hfresh d n), linksTo_insert (hfresh d n), hsub]
  by_cases hx : x = o
  · simp [hx, ho, hdo, subdirs_eq_zero hempty]
  · rw [hk.isDir_eq hx, count]
    by_cases hxd : x = d
    · simp [hxd, hd, ho, Ne.symm hdo, Nat.add_assoc]
    · simp [hx, hxd]

lemma Shape.isSome_of_cases (hs : Shape root k L) (hd : isDir k d = true)
    (hcases : e.name = dot ∧ e.handle.inode = d ∨ e.name = dotDot ∧ Parent flag root L d e.handle.inode ∨
      (d, e.name, e.handle.inode) ∈ L) : (k e.handle.inode).isSome := by
  rcases hcases with ⟨-, heq⟩ | ⟨-, ⟨-, heq, -⟩ | ⟨m, hl⟩⟩ | hl
  · exact heq ▸ isSome_of_isDir hd
  · exact heq ▸ isSome_of_isDir hs.tree.dir_root
  · exact isSome_of_isDir (hs.tree.source _ _ _ hl)
  · exact hs.target _ _ _ hl

/-- The parents after one link more. -/
lemma parent_insert {p : ℕ} : Parent flag root (insert (d, n, o) L) x p ↔
    Parent flag root L x p ∨ x = o ∧ p = d := by
  rw [Parent, Parent, or_assoc]
  refine or_congr_right ?_
  constructor
  · rintro ⟨m, hl⟩
    rcases mem_insert_iff.mp hl with ⟨rfl, rfl, rfl⟩ | hl
    · exact .inr ⟨rfl, rfl⟩
    · exact .inl ⟨m, hl⟩
  · rintro (⟨m, hl⟩ | ⟨rfl, rfl⟩)
    · exact ⟨m, mem_insert_iff.mpr (.inr hl)⟩
    · exact ⟨n, mem_insert_iff.mpr (.inl ⟨rfl, rfl, rfl⟩)⟩

/-- The entries of the old directories after one link more. -/
lemma Shape.entry_insert_dir (hs : Shape root k L) (hk : Grows k k' o) (hx : isDir k x = true) (hxo : x ≠ o)
    (hv : Valid k' h) (hinode : h.inode = o) :
    Entry flag root k' (insert (d, n, o) L) x e ↔ Entry flag root k L x e ∨ x = d ∧ e = ⟨n, h⟩ := by
  constructor
  · rintro ⟨-, hvalid, hcases⟩
    rw [parent_insert, mem_insert_iff] at hcases
    have hold : (e.name = dot ∧ e.handle.inode = x ∨
        e.name = dotDot ∧ Parent flag root L x e.handle.inode ∨ (x, e.name, e.handle.inode) ∈ L) ∨
        x = d ∧ e.name = n ∧ e.handle.inode = o := by
      rcases hcases with hdot | ⟨hname, hp | ⟨heq, -⟩⟩ | hnew | hl
      · exact .inl (.inl hdot)
      · exact .inl (.inr (.inl ⟨hname, hp⟩))
      · exact absurd heq hxo
      · exact .inr hnew
      · exact .inl (.inr (.inr hl))
    rcases hold with hold | ⟨hd, hname, ho⟩
    · exact .inl ⟨hx, (hk.valid (hs.isSome_of_cases hx hold)).mp hvalid, hold⟩
    · refine .inr ⟨hd, ?_⟩
      rw [← hname, ← hvalid.eq hv (ho.trans hinode.symm)]
  · rintro (⟨-, hvalid, hcases⟩ | ⟨rfl, rfl⟩)
    · refine ⟨(hk.isDir_eq hxo).trans hx, (hk.valid (hs.isSome_of_cases hx hcases)).mpr hvalid, ?_⟩
      rw [parent_insert, mem_insert_iff]
      exact hcases.imp_right (Or.imp (And.imp_right .inl) .inr)
    · exact ⟨(hk.isDir_eq hxo).trans hx, hv, .inr (.inr (mem_insert_iff.mpr (.inl ⟨rfl, rfl, hinode⟩)))⟩

lemma Entry.not_of_isDir (hx : isDir k x = false) : ¬Entry flag root k L x e := by
  intro he
  have hdir := he.dir
  rw [hx] at hdir
  cases hdir

/-- The same where the directories are known to stay. -/
lemma Shape.entry_insert (hs : Shape root k L) (hk : Grows k k' o) (hd : isDir k d = true)
    (hdir : isDir k' x = isDir k x) (hne : isDir k x = true → x ≠ o) (hv : Valid k' h) (hinode : h.inode = o) :
    Entry flag root k' (insert (d, n, o) L) x e ↔ Entry flag root k L x e ∨ x = d ∧ e = ⟨n, h⟩ := by
  cases hx : isDir k x with
  | false =>
    refine iff_of_false (Entry.not_of_isDir (hdir.trans hx)) ?_
    rintro (he | ⟨rfl, -⟩)
    · exact Entry.not_of_isDir hx he
    · rw [hd] at hx
      cases hx
  | true =>
    exact hs.entry_insert_dir hk hx (hne hx) hv hinode

/-- A new directory keeps the shape. -/
lemma Shape.addDir (hs : Shape root k L) (hk : Grows k k' o) (ho : isDir k' o = true) (hko : k o = none)
    (hd : isDir k d = true) (hfree : ∀ o', (d, n, o') ∉ L) (hname : n ≠ dot ∧ n ≠ dotDot) :
    Shape root k' (insert (d, n, o) L) := by
  have hdir : ¬isDir k o = true := by
    rw [isDir, hko]
    exact Bool.false_ne_true
  have hfresh : ∀ x m, (x, m, o) ∉ L := by
    intro x m hl
    have hlive := hs.target x m o hl
    rw [hko] at hlive
    cases hlive
  refine hs.of_insert hk hname (hs.tree.addDir hd hdir hfresh hfree (fun x => ?_) fun x m y => mem_insert_iff)
  by_cases hx : x = o
  · rw [hx]
    exact iff_of_true ho (.inl rfl)
  · rw [hk.isDir_eq hx]
    exact (or_iff_right hx).symm

/-- A new directory has its two dot entries. -/
lemma Shape.entry_new (hs : Shape root k L) (ho : isDir k' o = true) (hko : k o = none)
    (hv : Valid k' h) (hinode : h.inode = o) (hv' : Valid k' h') (hinode' : h'.inode = d) (hdo : d ≠ o) :
    Entry flag root k' (insert (d, n, o) L) o e ↔ e = ⟨dot, h⟩ ∨ e = ⟨dotDot, h'⟩ := by
  have hdir : ¬isDir k o = true := by
    rw [isDir, hko]
    exact Bool.false_ne_true
  constructor
  · rintro ⟨-, hvalid, hcases⟩
    rw [parent_insert, mem_insert_iff] at hcases
    rcases hcases with ⟨hname, heq⟩ | ⟨hname, (⟨heq, -⟩ | ⟨m, hl⟩) | ⟨-, heq⟩⟩ | ⟨heq, -⟩ | hl
    · left
      rw [← hname, ← hvalid.eq hv (heq.trans hinode.symm)]
    · exact absurd (heq ▸ hs.tree.dir_root) hdir
    · have hlive := hs.target _ m o hl
      rw [hko] at hlive
      cases hlive
    · right
      rw [← hname, ← hvalid.eq hv' (heq.trans hinode'.symm)]
    · exact absurd heq.symm hdo
    · exact absurd (hs.tree.source _ _ _ hl) hdir
  · rintro (rfl | rfl)
    · exact ⟨ho, hv, .inl ⟨rfl, hinode⟩⟩
    · exact ⟨ho, hv', .inr (.inl ⟨rfl, parent_insert.mpr (.inr ⟨rfl, hinode'⟩)⟩)⟩

/-! ## A link is removed -/

/-- The items after a link was removed: its target is a file that has other links, or it is freed and has
no link left. -/
structure Shrinks (k k' : Kind) (L : Finset Link) (d : ℕ) (n : Name) (o : ℕ) : Prop where
  keep : ∀ x, x ≠ o → k' x = k x
  cases : (k' o = k o ∧ isDir k o = false ∧ ∃ x m, (x, m, o) ∈ L ∧ ¬(x = d ∧ m = n)) ∨
    k' o = none ∧ (∀ x m, (x, m, o) ∈ L → x = d ∧ m = n) ∧ ∀ m y, (o, m, y) ∉ L

lemma Shrinks.not_dir (hk : Shrinks k k' L d n o) : isDir k' o = false := by
  rcases hk.cases with ⟨heq, hdir, -⟩ | ⟨hnone, -⟩
  · rw [isDir_congr heq, hdir]
  · rw [isDir, hnone]
    rfl

/-- The shape after a link was taken away. -/
lemma Shape.erase (hs : Shape root k L) (hk : Shrinks k k' L d n o) (hold : (d, n, o) ∈ L) :
    Shape root k' (L.erase (d, n, o)) where
  tree := by
    cases hdir : isDir k o with
    | true =>
      -- the directory that goes is empty
      have hempty : ∀ m y, (o, m, y) ∉ L := by
        rcases hk.cases with ⟨-, hfile, -⟩ | ⟨-, -, hempty⟩
        · rw [hdir] at hfile
          cases hfile
        · exact hempty
      refine hs.tree.eraseDir hold hdir hempty (fun x => ?_) fun x m y => mem_erase_iff hs.tree hold
      by_cases hx : x = o
      · rw [hx, hk.not_dir]
        exact iff_of_false Bool.false_ne_true fun h => h.2 rfl
      · rw [isDir_congr (hk.keep x hx)]
        exact (and_iff_left hx).symm
    | false =>
      have heq : ∀ x, isDir k' x = isDir k x := by
        intro x
        by_cases hx : x = o
        · rw [hx, hk.not_dir, hdir]
        · exact isDir_congr (hk.keep x hx)
      simp only [heq]
      exact hs.tree.erase (by rw [hdir]; exact Bool.false_ne_true)
        (fun x m y => mem_erase_iff hs.tree hold) hold
  target x m y hl := by
    obtain ⟨hl, hne⟩ := (mem_erase_iff hs.tree hold).mp hl
    have hlive := hs.target x m y hl
    by_cases hy : y = o
    · rcases hk.cases with ⟨heq, -⟩ | ⟨-, hlast, -⟩
      · rw [hy] at hlive
        rw [hy, heq]
        exact hlive
      · exact absurd (hlast x m (hy ▸ hl)) hne
    · rw [hk.keep y hy]
      exact hlive
  named x m y hl := hs.named x m y ((mem_erase_iff hs.tree hold).mp hl).1
  linked y hlive hy := by
    by_cases hyo : y = o
    · rcases hk.cases with ⟨-, -, x, m, hl, hne⟩ | ⟨hnone, -⟩
      · exact ⟨x, m, (mem_erase_iff hs.tree hold).mpr ⟨hyo ▸ hl, hne⟩⟩
      · rw [hyo, hnone] at hlive
        cases hlive
    · rw [hk.keep y hyo] at hlive
      rw [isDir_congr (hk.keep y hyo)] at hy
      obtain ⟨x, m, hl⟩ := hs.linked y hlive hy
      refine ⟨x, m, (mem_erase_iff hs.tree hold).mpr ⟨hl, ?_⟩⟩
      rintro ⟨rfl, rfl⟩
      exact hyo (hs.tree.unique x m y o hl hold)

/-- The entries of the directories after a link was taken away. -/
lemma Shape.entry_erase_dir (hs : Shape root k L) (hk : Shrinks k k' L d n o) (hold : (d, n, o) ∈ L)
    (hx : isDir k' x = true) : Entry flag root k' (L.erase (d, n, o)) x e ↔
      Entry flag root k L x e ∧ ¬(x = d ∧ e.name = n) := by
  -- what is left is not the directory that goes
  have hxo : x ≠ o := by
    intro heq
    rw [heq, hk.not_dir] at hx
    cases hx
  have hx₀ : isDir k x = true := by rw [← isDir_congr (hk.keep x hxo), hx]
  have hparent : ∀ p, Parent flag root (L.erase (d, n, o)) x p ↔ Parent flag root L x p := by
    intro p
    refine or_congr_right (exists_congr fun m => ?_)
    rw [mem_erase_iff hs.tree hold]
    refine and_iff_left_of_imp fun hl => ?_
    rintro ⟨rfl, rfl⟩
    exact hxo (hs.tree.unique p m x o hl hold)
  constructor
  · rintro ⟨-, hvalid, hcases⟩
    rw [hparent, mem_erase_iff hs.tree hold] at hcases
    have hvalid₀ : Valid k e.handle := by
      by_cases ho : e.handle.inode = o
      · rcases hk.cases with ⟨heq, -⟩ | ⟨hnone, -⟩
        · exact (Valid.congr (by rw [ho, heq])).mp hvalid
        · obtain ⟨t, ht⟩ := hvalid
          rw [ho, hnone] at ht
          cases ht
      · exact (Valid.congr (hk.keep _ ho)).mp hvalid
    refine ⟨⟨hx₀, hvalid₀, hcases.imp_right (.imp_right And.left)⟩, ?_⟩
    intro heq
    have hnamed := hs.named d n o hold
    rcases hcases with ⟨hname, -⟩ | ⟨hname, -⟩ | ⟨-, hne⟩
    · exact hnamed.1 (heq.2.symm.trans hname)
    · exact hnamed.2 (heq.2.symm.trans hname)
    · exact hne heq
  · rintro ⟨⟨-, hvalid, hcases⟩, hne⟩
    have hcases' : e.name = dot ∧ e.handle.inode = x ∨ e.name = dotDot ∧
        Parent flag root (L.erase (d, n, o)) x e.handle.inode ∨
        (x, e.name, e.handle.inode) ∈ L.erase (d, n, o) := by
      rw [hparent, mem_erase_iff hs.tree hold]
      exact hcases.imp_right (.imp_right fun hl => ⟨hl, hne⟩)
    refine ⟨hx, ?_, hcases'⟩
    by_cases ho : e.handle.inode = o
    · rcases hk.cases with ⟨heq, -⟩ | ⟨-, hlast, hempty⟩
      · exact (Valid.congr (by rw [ho, heq])).mpr hvalid
      · -- the freed object is in no entry that is left
        exfalso
        rw [ho] at hcases
        rcases hcases with ⟨-, heq⟩ | ⟨-, ⟨-, heq, -⟩ | ⟨m, hl⟩⟩ | hl
        · exact hxo heq.symm
        · exact hs.tree.not_root d n (heq ▸ hold)
        · exact hempty m x hl
        · exact hne (hlast x _ hl)
    · exact (Valid.congr (hk.keep _ ho)).mpr hvalid

lemma Shape.entry_erase (hs : Shape root k L) (hk : Shrinks k k' L d n o) (hold : (d, n, o) ∈ L)
    (hdir : isDir k' x = isDir k x) : Entry flag root k' (L.erase (d, n, o)) x e ↔
      Entry flag root k L x e ∧ ¬(x = d ∧ e.name = n) := by
  cases hx : isDir k x with
  | false =>
    exact iff_of_false (Entry.not_of_isDir (hdir.trans hx)) fun he => Entry.not_of_isDir hx he.1
  | true => exact hs.entry_erase_dir hk hold (hdir.trans hx)

/-- The count of each object after a link to a file was taken away. -/
lemma count_erase (hk : Shrinks k k' L d n o) (hold : (d, n, o) ∈ L) (ho : isDir k o = false) :
    count k' (L.erase (d, n, o)) x = if x = o then linksTo L x - 1 else count k L x := by
  have hdir : ∀ x, isDir k' x = isDir k x := by
    intro x
    by_cases hx : x = o
    · rw [hx, hk.not_dir, ho]
    · exact isDir_congr (hk.keep x hx)
  have hsub : subdirs k' (L.erase (d, n, o)) x = subdirs k L x := by
    rw [subdirs_congr fun _ _ y _ => hdir y, subdirs_erase hold,
      if_neg fun h => Bool.false_ne_true (ho.symm.trans h.2)]
  rw [count, hdir, linksTo_erase hold, hsub]
  by_cases hx : x = o
  · rw [if_pos hx, if_pos hx, hx, ho]
    rfl
  · rw [if_neg hx, if_neg hx, count]

/-- The counts after a directory was taken away. -/
lemma Shape.count_eraseDir (hs : Shape root k L) (hk : Shrinks k k' L d n o) (hold : (d, n, o) ∈ L)
    (ho : isDir k o = true) (hx : x ≠ o) :
    count k' (L.erase (d, n, o)) x = if x = d then count k L x - 1 else count k L x := by
  have hsub : subdirs k' (L.erase (d, n, o)) x = subdirs k (L.erase (d, n, o)) x := by
    refine subdirs_congr fun z m y hl => isDir_congr (hk.keep y ?_)
    rintro rfl
    obtain ⟨hl, hne⟩ := (mem_erase_iff hs.tree hold).mp hl
    exact hne (hs.tree.single z m d n y ho hl hold)
  rw [count, hsub, isDir_congr (hk.keep x hx), linksTo_erase hold, if_neg hx, subdirs_erase hold, count]
  by_cases hxd : x = d
  · have hd : isDir k x = true := hxd ▸ hs.tree.source d n o hold
    have hpos : 0 < subdirs k L x := subdirs_pos (hxd ▸ hold) ho
    rw [if_pos hd, if_pos hd, if_pos ⟨hxd, ho⟩, if_pos hxd]
    omega
  · simp [hxd]

/-! ## A link is moved -/

lemma mem_move_iff {y : ℕ} {m : Name} (hs : Shape root k L) (hold : (d, n, o) ∈ L) :
    (x, m, y) ∈ insert (d', n', o) (L.erase (d, n, o)) ↔
      x = d' ∧ m = n' ∧ y = o ∨ (x, m, y) ∈ L ∧ ¬(x = d ∧ m = n) := by
  rw [mem_insert_iff, mem_erase_iff hs.tree hold]

/-- The shape after a link moved to another place. -/
lemma Shape.move (hs : Shape root k L) (hold : (d, n, o) ∈ L) (hd' : isDir k d' = true)
    (hfree : ∀ y, (d', n', y) ∉ L) (hname : n' ≠ dot ∧ n' ≠ dotDot)
    (hbelow : isDir k o = true → d = d' ∨
      ¬Below (fun p => isDir k p = true) (fun d n o => (d, n, o) ∈ L) o d') :
    Shape root k (insert (d', n', o) (L.erase (d, n, o))) where
  tree := hs.tree.move hold hd' hfree hbelow fun x m y => mem_move_iff hs hold
  target x m y hl := by
    rcases (mem_move_iff hs hold).mp hl with ⟨-, -, rfl⟩ | ⟨hl, -⟩
    · exact hs.target d n y hold
    · exact hs.target x m y hl
  named x m y hl := by
    rcases (mem_move_iff hs hold).mp hl with ⟨-, rfl, -⟩ | ⟨hl, -⟩
    · exact hname
    · exact hs.named x m y hl
  linked y hlive hy := by
    obtain ⟨x, m, hl⟩ := hs.linked y hlive hy
    by_cases hxm : x = d ∧ m = n
    · obtain ⟨rfl, rfl⟩ := hxm
      exact ⟨d', n', (mem_move_iff hs hold).mpr (.inl ⟨rfl, rfl, hs.tree.unique x m y o hl hold⟩)⟩
    · exact ⟨x, m, (mem_move_iff hs hold).mpr (.inr ⟨hl, hxm⟩)⟩

/-- Objects that do not move keep their parents. -/
lemma Shape.parent_move {p : ℕ} (hs : Shape root k L) (hold : (d, n, o) ∈ L) (hx : isDir k x = true)
    (hsame : x ≠ o ∨ d = d') :
    Parent flag root (insert (d', n', o) (L.erase (d, n, o))) x p ↔ Parent flag root L x p := by
  refine or_congr_right ⟨?_, ?_⟩
  · rintro ⟨m, hl⟩
    rcases (mem_move_iff hs hold).mp hl with ⟨rfl, rfl, rfl⟩ | ⟨hl, -⟩
    · exact ⟨n, hsame.resolve_left (fun hne => hne rfl) ▸ hold⟩
    · exact ⟨m, hl⟩
  · rintro ⟨m, hl⟩
    by_cases hxo : x = o
    · obtain ⟨hp, -⟩ := hs.tree.single p m d n x hx hl (hxo ▸ hold)
      exact ⟨n', (mem_move_iff hs hold).mpr
        (.inl ⟨hp.trans (hsame.resolve_left fun hne => hne hxo), rfl, hxo⟩)⟩
    · refine ⟨m, (mem_move_iff hs hold).mpr (.inr ⟨hl, ?_⟩)⟩
      rintro ⟨rfl, rfl⟩
      exact hxo (hs.tree.unique p m x o hl hold)

/-- The entries of directories that do not move. -/
lemma Shape.entry_move_dir (hs : Shape root k L) (hold : (d, n, o) ∈ L) (hx : isDir k x = true)
    (hsame : x ≠ o ∨ d = d') (hv : Valid k h) (hinode : h.inode = o) :
    Entry flag root k (insert (d', n', o) (L.erase (d, n, o))) x e ↔
      Entry flag root k L x e ∧ ¬(x = d ∧ e.name = n) ∨ x = d' ∧ e = ⟨n', h⟩ := by
  constructor
  · rintro ⟨-, hvalid, hcases⟩
    rw [hs.parent_move hold hx hsame, mem_move_iff hs hold] at hcases
    have hnamed := hs.named d n o hold
    rcases hcases with hdot | hdotDot | ⟨hd', hname, ho⟩ | ⟨hl, hne⟩
    · exact .inl ⟨⟨hx, hvalid, .inl hdot⟩, fun heq => hnamed.1 (heq.2.symm.trans hdot.1)⟩
    · exact .inl ⟨⟨hx, hvalid, .inr (.inl hdotDot)⟩, fun heq => hnamed.2 (heq.2.symm.trans hdotDot.1)⟩
    · refine .inr ⟨hd', ?_⟩
      rw [← hname, ← hvalid.eq hv (ho.trans hinode.symm)]
    · exact .inl ⟨⟨hx, hvalid, .inr (.inr hl)⟩, hne⟩
  · rintro (⟨⟨-, hvalid, hcases⟩, hne⟩ | ⟨rfl, rfl⟩)
    · refine ⟨hx, hvalid, ?_⟩
      rw [hs.parent_move hold hx hsame, mem_move_iff hs hold]
      exact hcases.imp_right (.imp_right fun hl => .inr ⟨hl, hne⟩)
    · exact ⟨hx, hv, .inr (.inr ((mem_move_iff hs hold).mpr (.inl ⟨rfl, rfl, hinode⟩)))⟩

/-- The entries after a move. -/
lemma Shape.entry_move (hs : Shape root k L) (hold : (d, n, o) ∈ L) (hd' : isDir k d' = true)
    (hsame : isDir k x = true → x ≠ o ∨ d = d') (hv : Valid k h) (hinode : h.inode = o) :
    Entry flag root k (insert (d', n', o) (L.erase (d, n, o))) x e ↔
      Entry flag root k L x e ∧ ¬(x = d ∧ e.name = n) ∨ x = d' ∧ e = ⟨n', h⟩ := by
  cases hx : isDir k x with
  | false =>
    refine iff_of_false (Entry.not_of_isDir hx) ?_
    rintro (he | ⟨rfl, -⟩)
    · exact Entry.not_of_isDir hx he.1
    · rw [hd'] at hx
      cases hx
  | true => exact hs.entry_move_dir hold hx (hsame hx) hv hinode

/-- A directory that moves changes its `..` entry alone. -/
lemma Shape.entry_moved (hs : Shape root k L) (hold : (d, n, o) ∈ L) (ho : isDir k o = true)
    (hod : o ≠ d) (hod' : o ≠ d') (hv : Valid k h) (hinode : h.inode = d') :
    Entry flag root k (insert (d', n', o) (L.erase (d, n, o))) o e ↔
      Entry flag root k L o e ∧ e.name ≠ dotDot ∨ e = ⟨dotDot, h⟩ := by
  constructor
  · rintro ⟨-, hvalid, hcases⟩
    rw [mem_move_iff hs hold] at hcases
    rcases hcases with hdot | ⟨hname, ⟨heq, -⟩ | ⟨m, hl⟩⟩ | ⟨heq, -⟩ | ⟨hl, -⟩
    · refine .inl ⟨⟨ho, hvalid, .inl hdot⟩, ?_⟩
      rw [hdot.1]
      decide
    · exact absurd (heq ▸ hold) (hs.tree.not_root d n)
    · right
      rcases (mem_move_iff hs hold).mp hl with ⟨hp, -⟩ | ⟨hl, hne⟩
      · rw [← hname, ← hvalid.eq hv (hp.trans hinode.symm)]
      · exact absurd (hs.tree.single _ m d n o ho hl hold) hne
    · exact absurd heq hod'
    · exact .inl ⟨⟨ho, hvalid, .inr (.inr hl)⟩, (hs.named _ _ _ hl).2⟩
  · rintro (⟨⟨-, hvalid, hcases⟩, hne⟩ | rfl)
    · refine ⟨ho, hvalid, ?_⟩
      rw [mem_move_iff hs hold]
      rcases hcases with hdot | ⟨hname, -⟩ | hl
      · exact .inl hdot
      · exact absurd hname hne
      · exact .inr (.inr (.inr ⟨hl, fun heq => hod heq.1⟩))
    · exact ⟨ho, hv, .inr (.inl ⟨rfl, .inr ⟨n', (mem_move_iff hs hold).mpr (.inl ⟨hinode, rfl, rfl⟩)⟩⟩)⟩

/-- A file that moves keeps its count. -/
lemma count_move (hold : (d, n, o) ∈ L) (hfree : ∀ y, (d', n', y) ∉ L)
    (hsame : isDir k o = true → d = d') :
    count k (insert (d', n', o) (L.erase (d, n, o))) x = count k L x := by
  have hnew : (d', n', o) ∉ L.erase (d, n, o) := fun hl => hfree o (Finset.mem_of_mem_erase hl)
  have hlinks : linksTo (insert (d', n', o) (L.erase (d, n, o))) x = linksTo L x := by
    rw [linksTo_insert hnew, linksTo_erase hold]
    split_ifs with hx
    · have hpos : 0 < linksTo L x := hx ▸ linksTo_pos hold
      omega
    · rfl
  have hsub : subdirs k (insert (d', n', o) (L.erase (d, n, o))) x = subdirs k L x := by
    rw [subdirs_insert hnew, subdirs_erase hold]
    by_cases ho : isDir k o = true
    · rw [hsame ho]
      split_ifs with hx
      · have hpos : 0 < subdirs k L x := hx.1 ▸ hsame ho ▸ subdirs_pos hold ho
        omega
      · rfl
    · rw [if_neg fun h => ho h.2, if_neg fun h => ho h.2]
  rw [count, count, hlinks, hsub]

/-- A directory that moves: one less in the old parent, one more in the new. -/
lemma Shape.count_moveDir (hs : Shape root k L) (hold : (d, n, o) ∈ L) (hfree : ∀ y, (d', n', y) ∉ L)
    (ho : isDir k o = true) (hd' : isDir k d' = true) (hdd' : d ≠ d') :
    count k (insert (d', n', o) (L.erase (d, n, o))) x =
      if x = d then count k L x - 1 else if x = d' then count k L x + 1 else count k L x := by
  have hnew : (d', n', o) ∉ L.erase (d, n, o) := fun hl => hfree o (Finset.mem_of_mem_erase hl)
  have hd : isDir k d = true := hs.tree.source d n o hold
  have hpos : 0 < subdirs k L d := subdirs_pos hold ho
  rw [count, subdirs_insert hnew, subdirs_erase hold, linksTo_insert hnew, linksTo_erase hold, count]
  by_cases hx : x = d
  · have hx' : ¬d = d' := hdd'
    simp only [hx, hd, ho, hx', if_true, and_self, false_and, if_false]
    omega
  · by_cases hx' : x = d'
    · simp only [hx', hd', ho, Ne.symm hdd', if_true, and_self, false_and, if_false]
      omega
    · by_cases hxo : x = o
      · rw [hxo] at hx hx'
        simp only [hxo, ho, hx, hx', if_true, false_and, if_false]
      · simp only [hx, hx', hxo, false_and, if_false]

end Ganesha.GhostFs
