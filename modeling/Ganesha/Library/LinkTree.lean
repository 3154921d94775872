import Mathlib.Logic.Relation

/-!
# Trees of directories with hard links

Objects, some of which are directories, and links: `link d n o` says that the directory `d` has an entry
`n` for `o`. A directory has one link, except for the root, which has none, and another object may have
several. Names and objects are of any type.
-/

namespace Library.LinkTree
open Relation

variable {α ν : Type*}

/-- A directory with an entry for a directory. -/
def Child (isDir : α → Prop) (link : α → ν → α → Prop) (d c : α) : Prop := isDir c ∧ ∃ n, link d n c

/-- A directory in the subtree of another one. -/
abbrev Below (isDir : α → Prop) (link : α → ν → α → Prop) : α → α → Prop :=
  ReflTransGen (Child isDir link)

/-- The links form a tree of directories below the root. -/
structure Tree (root : α) (isDir : α → Prop) (link : α → ν → α → Prop) : Prop where
  dir_root : isDir root
  source : ∀ d n o, link d n o → isDir d
  unique : ∀ d n o o', link d n o → link d n o' → o = o'
  single : ∀ d n d' n' o, isDir o → link d n o → link d' n' o → d = d' ∧ n = n'
  not_root : ∀ d n, ¬link d n root
  reach : ∀ o, isDir o → Below isDir link root o

variable {root d d' o x y : α} {n n' : ν} {isDir isDir' : α → Prop} {link link' : α → ν → α → Prop}

lemma Below.mono (hsub : ∀ d c, Child isDir link d c → Child isDir' link' d c)
    (h : Below isDir link x y) : Below isDir' link' x y :=
  ReflTransGen.mono hsub x y h

lemma Tree.exists_link (h : Tree root isDir link) (ho : isDir o) (hne : o ≠ root) :
    ∃ d n, link d n o := by
  rcases (h.reach o ho).cases_tail with heq | ⟨d, -, -, n, hlink⟩
  · exact absurd heq hne
  · exact ⟨d, n, hlink⟩

/-- No directory is in its own subtree, below itself. -/
theorem Tree.acyclic (h : Tree root isDir link) (hd : isDir d) : ¬TransGen (Child isDir link) d d := by
  have hpath : ∀ z, Below isDir link root z → ¬TransGen (Child isDir link) z z := by
    intro z hz
    induction hz with
    | refl =>
      intro hcycle
      obtain ⟨y, -, -, m, hm⟩ := TransGen.tail'_iff.mp hcycle
      exact h.not_root y m hm
    | @tail x c _ hstep ih =>
      intro hcycle
      -- the cycle enters by the only entry
      obtain ⟨y, hcy, hyc⟩ := TransGen.tail'_iff.mp hcycle
      obtain ⟨hc, m, hm⟩ := hyc
      obtain ⟨m', hm'⟩ := hstep.2
      obtain ⟨rfl, -⟩ := h.single y m x m' c hc hm hm'
      exact ih (TransGen.head' hstep hcy)
  exact hpath d (h.reach d hd)

/-- A new entry for an object that is no directory. -/
theorem Tree.add (h : Tree root isDir link) (hd : isDir d) (ho : ¬isDir o) (hfree : ∀ o', ¬link d n o')
    (hlink : ∀ x m y, link' x m y ↔ x = d ∧ m = n ∧ y = o ∨ link x m y) : Tree root isDir link' where
  dir_root := h.dir_root
  source x m y hl := by
    rcases (hlink x m y).mp hl with ⟨rfl, -, -⟩ | hl
    · exact hd
    · exact h.source x m y hl
  unique x m y y' hl hl' := by
    rcases (hlink x m y).mp hl with ⟨rfl, rfl, rfl⟩ | hl
    · rcases (hlink x m y').mp hl' with ⟨-, -, rfl⟩ | hl'
      · rfl
      · exact absurd hl' (hfree y')
    · rcases (hlink x m y').mp hl' with ⟨rfl, rfl, rfl⟩ | hl'
      · exact absurd hl (hfree y)
      · exact h.unique x m y y' hl hl'
  single x m x' m' y hy hl hl' := by
    have hold : ∀ x m, link' x m y → link x m y := by
      intro x m hl
      rcases (hlink x m y).mp hl with ⟨-, -, rfl⟩ | hl
      · exact absurd hy ho
      · exact hl
    exact h.single x m x' m' y hy (hold x m hl) (hold x' m' hl')
  not_root x m hl := by
    rcases (hlink x m root).mp hl with ⟨-, -, rfl⟩ | hl
    · exact ho h.dir_root
    · exact h.not_root x m hl
  reach y hy := (h.reach y hy).mono fun x z hxz =>
    ⟨hxz.1, hxz.2.imp fun m hm => (hlink x m z).mpr (.inr hm)⟩

/-- A new directory. -/
theorem Tree.addDir (h : Tree root isDir link) (hd : isDir d) (ho : ¬isDir o) (hfresh : ∀ x m, ¬link x m o)
    (hfree : ∀ o', ¬link d n o') (hdir : ∀ x, isDir' x ↔ x = o ∨ isDir x)
    (hlink : ∀ x m y, link' x m y ↔ x = d ∧ m = n ∧ y = o ∨ link x m y) : Tree root isDir' link' where
  dir_root := (hdir root).mpr (.inr h.dir_root)
  source x m y hl := by
    rw [hdir]
    rcases (hlink x m y).mp hl with ⟨rfl, -, -⟩ | hl
    · exact .inr hd
    · exact .inr (h.source x m y hl)
  unique x m y y' hl hl' := by
    rcases (hlink x m y).mp hl with ⟨rfl, rfl, rfl⟩ | hl
    · rcases (hlink x m y').mp hl' with ⟨-, -, rfl⟩ | hl'
      · rfl
      · exact absurd hl' (hfree y')
    · rcases (hlink x m y').mp hl' with ⟨rfl, rfl, rfl⟩ | hl'
      · exact absurd hl (hfree y)
      · exact h.unique x m y y' hl hl'
  single x m x' m' y hy hl hl' := by
    rcases (hlink x m y).mp hl with ⟨rfl, rfl, rfl⟩ | hl
    · rcases (hlink x' m' y).mp hl' with ⟨rfl, rfl, -⟩ | hl'
      · exact ⟨rfl, rfl⟩
      · exact absurd hl' (hfresh x' m')
    · rcases (hlink x' m' y).mp hl' with ⟨rfl, rfl, rfl⟩ | hl'
      · exact absurd hl (hfresh x m)
      · rcases (hdir y).mp hy with rfl | hy
        · exact absurd hl (hfresh x m)
        · exact h.single x m x' m' y hy hl hl'
  not_root x m hl := by
    rcases (hlink x m root).mp hl with ⟨-, -, rfl⟩ | hl
    · exact ho h.dir_root
    · exact h.not_root x m hl
  reach y hy := by
    have hmono : ∀ z, isDir z → Below isDir' link' root z := fun z hz =>
      (h.reach z hz).mono fun x c hxc =>
        ⟨(hdir c).mpr (.inr hxc.1), hxc.2.imp fun m hm => (hlink x m c).mpr (.inr hm)⟩
    rcases (hdir y).mp hy with rfl | hy
    · exact (hmono d hd).tail ⟨(hdir y).mpr (.inl rfl), n, (hlink d n y).mpr (.inl ⟨rfl, rfl, rfl⟩)⟩
    · exact hmono y hy

/-- An entry for an object that is no directory is removed. -/
theorem Tree.erase (h : Tree root isDir link) (ho : ¬isDir o)
    (hlink : ∀ x m y, link' x m y ↔ link x m y ∧ ¬(x = d ∧ m = n)) (hold : link d n o) :
    Tree root isDir link' where
  dir_root := h.dir_root
  source x m y hl := h.source x m y ((hlink x m y).mp hl).1
  unique x m y y' hl hl' := h.unique x m y y' ((hlink x m y).mp hl).1 ((hlink x m y').mp hl').1
  single x m x' m' y hy hl hl' := h.single x m x' m' y hy ((hlink x m y).mp hl).1 ((hlink x' m' y).mp hl').1
  not_root x m hl := h.not_root x m ((hlink x m root).mp hl).1
  reach y hy := (h.reach y hy).mono fun x c hxc => by
    obtain ⟨hc, m, hm⟩ := hxc
    refine ⟨hc, m, (hlink x m c).mpr ⟨hm, ?_⟩⟩
    rintro ⟨rfl, rfl⟩
    exact ho (h.unique x m c o hm hold ▸ hc)

/-- A directory without entries is removed. -/
theorem Tree.eraseDir (h : Tree root isDir link) (hold : link d n o) (ho : isDir o)
    (hempty : ∀ m y, ¬link o m y) (hdir : ∀ x, isDir' x ↔ isDir x ∧ x ≠ o)
    (hlink : ∀ x m y, link' x m y ↔ link x m y ∧ ¬(x = d ∧ m = n)) : Tree root isDir' link' where
  dir_root := (hdir root).mpr ⟨h.dir_root, fun heq => h.not_root d n (heq ▸ hold)⟩
  source x m y hl := by
    obtain ⟨hl, -⟩ := (hlink x m y).mp hl
    refine (hdir x).mpr ⟨h.source x m y hl, ?_⟩
    rintro rfl
    exact hempty m y hl
  unique x m y y' hl hl' := h.unique x m y y' ((hlink x m y).mp hl).1 ((hlink x m y').mp hl').1
  single x m x' m' y hy hl hl' :=
    h.single x m x' m' y ((hdir y).mp hy).1 ((hlink x m y).mp hl).1 ((hlink x' m' y).mp hl').1
  not_root x m hl := h.not_root x m ((hlink x m root).mp hl).1
  reach y hy := by
    -- a path to another directory does not pass through the one that is removed
    have hpath : ∀ z, Below isDir link root z → z ≠ o → Below isDir' link' root z := by
      intro z hz
      induction hz with
      | refl => exact fun _ => .refl
      | @tail x c _ hstep ih =>
        intro hc
        obtain ⟨hcdir, m, hm⟩ := hstep
        have hx : x ≠ o := fun heq => hempty m c (heq ▸ hm)
        refine (ih hx).tail ⟨(hdir c).mpr ⟨hcdir, hc⟩, m, (hlink x m c).mpr ⟨hm, ?_⟩⟩
        rintro ⟨rfl, rfl⟩
        exact hc (h.unique x m c o hm hold)
    obtain ⟨hy, hne⟩ := (hdir y).mp hy
    exact hpath y (h.reach y hy) hne

/-- An entry is replaced by another one for the same object, which is in the same directory, or does not
bring a directory below itself. -/
theorem Tree.move (h : Tree root isDir link) (hold : link d n o) (hd' : isDir d')
    (hfree : ∀ o', ¬link d' n' o') (hbelow : isDir o → d = d' ∨ ¬Below isDir link o d')
    (hlink : ∀ x m y, link' x m y ↔ x = d' ∧ m = n' ∧ y = o ∨ link x m y ∧ ¬(x = d ∧ m = n)) :
    Tree root isDir link' where
  dir_root := h.dir_root
  source x m y hl := by
    -- the moved link or an old one
    rcases (hlink x m y).mp hl with ⟨rfl, -, -⟩ | ⟨hl, -⟩
    · exact hd'
    · exact h.source x m y hl
  unique x m y y' hl hl' := by
    rcases (hlink x m y).mp hl with ⟨rfl, rfl, rfl⟩ | ⟨hl, -⟩
    · rcases (hlink x m y').mp hl' with ⟨-, -, rfl⟩ | ⟨hl', -⟩
      · rfl
      · exact absurd hl' (hfree y')
    · rcases (hlink x m y').mp hl' with ⟨rfl, rfl, rfl⟩ | ⟨hl', -⟩
      · exact absurd hl (hfree y)
      · exact h.unique x m y y' hl hl'
  single x m x' m' y hy hl hl' := by
    rcases (hlink x m y).mp hl with ⟨rfl, rfl, rfl⟩ | ⟨hl, hne⟩
    · rcases (hlink x' m' y).mp hl' with ⟨rfl, rfl, -⟩ | ⟨hl', hne'⟩
      · exact ⟨rfl, rfl⟩
      · exact absurd (h.single x' m' d n y hy hl' hold) hne'
    · rcases (hlink x' m' y).mp hl' with ⟨rfl, rfl, rfl⟩ | ⟨hl', -⟩
      · exact absurd (h.single x m d n y hy hl hold) hne
      · exact h.single x m x' m' y hy hl hl'
  not_root x m hl := by
    rcases (hlink x m root).mp hl with ⟨-, -, rfl⟩ | ⟨hl, -⟩
    · exact h.not_root d n hold
    · exact h.not_root x m hl
  reach y hy := by
    have hnew : isDir o → Child isDir link' d' o := fun ho =>
      ⟨ho, n', (hlink d' n' o).mpr (.inl ⟨rfl, rfl, rfl⟩)⟩
    have hstep : ∀ x c, Child isDir link x c → Child isDir link' x c ∨ x = d ∧ c = o ∧ isDir o := by
      rintro x c ⟨hc, m, hm⟩
      by_cases hxm : x = d ∧ m = n
      · obtain ⟨rfl, rfl⟩ := hxm
        obtain rfl := h.unique x m c o hm hold
        exact .inr ⟨rfl, rfl, hc⟩
      · exact .inl ⟨hc, m, (hlink x m c).mpr (.inr ⟨hm, hxm⟩)⟩
    by_cases hsame : d = d'
    · refine (h.reach y hy).mono fun x c hxc => ?_
      rcases hstep x c hxc with hxc | ⟨rfl, rfl, ho⟩
      · exact hxc
      · exact hsame ▸ hnew ho
    · -- a path leads to the directory as before, or passes through the one that is moved
      have hsubtree : ∀ z, Below isDir link o z → Below isDir link' o z := by
        intro z hz
        induction hz with
        | refl => exact .refl
        | tail _ hxc ih =>
          rcases hstep _ _ hxc with hxc | ⟨-, rfl, -⟩
          · exact ih.tail hxc
          · exact .refl
      have hpath : ∀ z, Below isDir link root z →
          Below isDir link' root z ∨ isDir o ∧ Below isDir link o z := by
        intro z hz
        induction hz with
        | refl => exact .inl .refl
        | tail _ hxc ih =>
          rcases ih with ih | ⟨ho, ih⟩
          · rcases hstep _ _ hxc with hxc | ⟨-, rfl, ho⟩
            · exact .inl (ih.tail hxc)
            · exact .inr ⟨ho, .refl⟩
          · exact .inr ⟨ho, ih.tail hxc⟩
      rcases hpath y (h.reach y hy) with hy | ⟨ho, hy⟩
      · exact hy
      · have hd'' : Below isDir link' root d' := by
          rcases hpath d' (h.reach d' hd') with hd'' | ⟨-, hd''⟩
          · exact hd''
          · exact absurd hd'' ((hbelow ho).resolve_left hsame)
        exact (hd''.tail (hnew ho)).trans (hsubtree y hy)

end Library.LinkTree
