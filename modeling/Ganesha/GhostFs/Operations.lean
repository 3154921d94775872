import Ganesha.GhostFs.Represents

/-!
# The operations of GHOST_FS, on links

Each change that an operation makes to the memory is a new link, a removed link or a moved link. The link
counts and the entries follow it.
-/

namespace Ganesha.GhostFs
open Library.LinkTree

variable {flag : Bool} {root p p₂ o x addr magic : ℕ} {name newName : Name} {s s' : State} {it ito it₂ : Item}
  {L : Finset Link} {h tgt : Handle} {e : Dirlist} {type : TypeItem}

/-! ## Items -/

/-- A change of an item that keeps its type, its magic number and its memory. -/
def Keeps (f : Item → Item) : Prop :=
  ∀ it, (f it).live = it.live ∧ (f it).type = it.type ∧ (f it).magic = it.magic

lemma kind_eq_of_item (hx : s.item x = some it) : s.kind x = some (it.type, it.magic) := by
  rw [State.kind, hx]
  rfl

/-- A change that keeps type and magic keeps every kind. -/
lemma kind_modify {f : Item → Item} (hf : Keeps f) : (s.modify p f).kind = s.kind := by
  funext x
  show ((s.modify p f).item x).map _ = (s.item x).map _
  rw [item_modify fun it => (hf it).1]
  split_ifs
  · rw [Option.map_map]
    refine congrArg (Option.map · (s.item x)) (funext fun it => ?_)
    show ((f it).type, (f it).magic) = (it.type, it.magic)
    rw [(hf it).2.1, (hf it).2.2]
  · rfl

lemma kind_free : (s.free p).kind x = if x = p then none else s.kind x := by
  show ((s.free p).item x).map _ = _
  rw [item_free]
  split_ifs <;> rfl

lemma kind_alloc (hlive : it.live = true) :
    (s.alloc p it).kind x = if x = p then some (it.type, it.magic) else s.kind x := by
  show ((s.alloc p it).item x).map _ = _
  rw [item_alloc hlive]
  split_ifs <;> rfl

lemma isDir_of_item (hx : s.item x = some it) : isDir s.kind x = decide (it.type = .dir) := by
  rw [isDir, kind_eq_of_item hx]
  rfl

lemma valid_of_item (hx : s.item h.inode = some it) (hmagic : it.magic = h.magic) : Valid s.kind h :=
  ⟨it.type, hmagic ▸ kind_eq_of_item hx⟩

lemma isSome_kind : (s.kind x).isSome ↔ ∃ it, s.item x = some it := by
  rw [State.kind, Option.isSome_map, Option.isSome_iff_exists]

/-! ## Names -/

lemma Rep.link_of_find (hrep : Rep flag root s L) (hp : s.item p = some it)
    (hfind : findEntry it.direntries name = some h) (hname : name ≠ dot ∧ name ≠ dotDot) :
    Valid s.kind h ∧ (p, name, h.inode) ∈ L := by
  obtain ⟨-, hvalid, hcases⟩ := (hrep.entries p it hp _).mp (mem_of_findEntry hfind)
  rcases hcases with ⟨heq, -⟩ | ⟨heq, -⟩ | hl
  · exact absurd heq hname.1
  · exact absurd heq hname.2
  · exact ⟨hvalid, hl⟩

lemma Rep.name_mem (hrep : Rep flag root s L) (hp : s.item p = some it) (hl : (p, name, o) ∈ L) :
    name ∈ GhostFs.names it.direntries := by
  obtain ⟨⟨t, m⟩, hk⟩ := Option.isSome_iff_exists.mp (hrep.shape.target p name o hl)
  refine mem_names.mpr ⟨⟨o, m⟩, (hrep.entries p it hp _).mpr ⟨?_, ⟨t, hk⟩, .inr (.inr hl)⟩⟩
  exact hrep.shape.tree.source p name o hl

lemma Rep.not_mem_of_find (hrep : Rep flag root s L) (hp : s.item p = some it)
    (hfind : findEntry it.direntries name = none) (o : ℕ) : (p, name, o) ∉ L :=
  fun hl => findEntry_eq_none.mp hfind (hrep.name_mem hp hl)

/-! ## Operations that add a name -/

variable {new : Item} {f : Item → Item}

lemma ne_of_item (haddr : s.item addr = none) (hp : s.item p = some it) : p ≠ addr := by
  rintro rfl
  rw [hp] at haddr
  cases haddr

lemma item_alloc_modify (hf : Keeps f) (hlive : new.live = true) (haddr : s.item addr = none)
    (hp : s.item p = some it) : ((s.alloc addr new).modify p f).item x =
      if x = p then some (f it) else if x = addr then some new else s.item x := by
  rw [item_modify fun it => (hf it).1, item_alloc hlive]
  by_cases hx : x = p
  · rw [if_pos hx, if_pos hx, hx, if_neg (ne_of_item haddr hp), hp]
    rfl
  · rw [if_neg hx, if_neg hx]

lemma kind_alloc_modify (hf : Keeps f) (hlive : new.live = true) :
    ((s.alloc addr new).modify p f).kind x =
      if x = addr then some (new.type, new.magic) else s.kind x := by
  rw [kind_modify hf, kind_alloc hlive]

lemma kind_of_free (haddr : s.item addr = none) : s.kind addr = none := by
  rw [State.kind, haddr]
  rfl

/-- A new item is the only new kind. -/
lemma grows_alloc (hf : Keeps f) (hlive : new.live = true) (haddr : s.item addr = none) :
    Grows s.kind ((s.alloc addr new).modify p f).kind addr where
  keep x hx := by
    rw [kind_alloc_modify hf hlive, if_neg]
    rintro rfl
    rw [kind_of_free haddr] at hx
    cases hx
  new x hx := by
    rw [kind_alloc_modify hf hlive] at hx
    split_ifs at hx with hxa
    · exact .inr hxa
    · exact .inl hx
  target := by
    rw [kind_alloc_modify hf hlive, if_pos rfl]
    rfl

lemma isDir_alloc (hf : Keeps f) (hlive : new.live = true) :
    isDir ((s.alloc addr new).modify p f).kind addr = decide (new.type = .dir) := by
  rw [isDir, kind_alloc_modify hf hlive, if_pos rfl]
  rfl

lemma valid_alloc (hf : Keeps f) (hlive : new.live = true) :
    Valid ((s.alloc addr new).modify p f).kind ⟨addr, new.magic⟩ :=
  ⟨new.type, by rw [kind_alloc_modify hf hlive, if_pos rfl]⟩

/-- A new file: one link more. -/
lemma Rep.create (hrep : Rep flag root s L) (htype : type ≠ .dir) (haddr : s.item addr = none)
    (hp : s.item p = some it) (hdir : it.type = .dir) (hfind : findEntry it.direntries name = none)
    (hname : name ≠ dot ∧ name ≠ dotDot) :
    Rep flag root ((s.alloc addr ⟨magic, 1, type, [], true⟩).modify p fun it =>
      { it with direntries := addDirEntry it.direntries ⟨addr, magic⟩ name })
      (insert (p, name, addr) L) := by
  have hf : Keeps fun it : Item =>
      { it with direntries := addDirEntry it.direntries ⟨addr, magic⟩ name } := fun _ => ⟨rfl, rfl, rfl⟩
  have hk := @grows_alloc p addr s ⟨magic, 1, type, [], true⟩ _ hf rfl haddr
  have hnew := (@isDir_alloc p addr s ⟨magic, 1, type, [], true⟩ _ hf rfl).trans (decide_eq_false htype)
  have hv := @valid_alloc p addr s ⟨magic, 1, type, [], true⟩ _ hf rfl
  have hold : isDir s.kind addr = false := by rw [isDir, kind_of_free haddr]; rfl
  have hpdir : isDir s.kind p = true := by rw [isDir_of_item hp, hdir]; rfl
  -- the parent is another address than the new one
  have hpa := ne_of_item haddr hp
  have hfree := hrep.not_mem_of_find hp hfind
  refine ⟨hrep.shape.add hk hnew hold hpdir hfree hname, fun x itx hx => ?_, fun x itx hx e => ?_,
    fun x itx hx hroot => ?_⟩
  all_goals
    rw [item_alloc_modify hf rfl haddr hp] at hx
    split_ifs at hx with hxp hxa
  · rw [← Option.some.inj hx]
    exact nodup_addDirEntry (hrep.names p it hp) (findEntry_eq_none.mp hfind)
  · rw [← Option.some.inj hx]
    exact List.nodup_nil
  · exact hrep.names x itx hx
  · rw [← Option.some.inj hx, hxp, mem_addDirEntry, hrep.entries p it hp,
      hrep.shape.entry_insert hk hpdir (hk.isDir_eq hpa) (fun _ => hpa) hv rfl]
    exact or_congr_right (and_iff_right rfl).symm
  · rw [← Option.some.inj hx, hxa]
    exact iff_of_false List.not_mem_nil (Entry.not_of_isDir hnew)
  · rw [hrep.entries x itx hx,
      hrep.shape.entry_insert hk hpdir (hk.isDir_eq hxa) (fun _ => hxa) hv rfl]
    exact (or_iff_left fun heq => hxp heq.1).symm
  · rw [← Option.some.inj hx, count_add hk hnew hold (hfree addr), hxp, if_neg hpa]
    exact hrep.counts p it hp (hxp ▸ hroot)
  · rw [← Option.some.inj hx, count_add hk hnew hold (hfree addr), if_pos hxa, hxa, linksTo_eq_zero]
    intro d n hl
    have hlive := hrep.shape.target d n addr hl
    rw [kind_of_free haddr] at hlive
    cases hlive
  · rw [count_add hk hnew hold (hfree addr), if_neg hxa]
    exact hrep.counts x itx hx hroot

/-- A new directory: one link more, and the parent counts it. -/
lemma Rep.mkDir (hrep : Rep flag root s L) (haddr : s.item addr = none) (hp : s.item p = some it)
    (hdir : it.type = .dir) (hparent : Valid s.kind tgt) (hinode : tgt.inode = p)
    (hfind : findEntry it.direntries name = none) (hname : name ≠ dot ∧ name ≠ dotDot) :
    Rep flag root ((s.alloc addr ⟨magic, 2, .dir,
        addDirEntry (addDirEntry [] ⟨addr, magic⟩ dot) tgt dotDot, true⟩).modify p fun it =>
      { it with
        linkcount := it.linkcount + 1
        direntries := addDirEntry it.direntries ⟨addr, magic⟩ name })
      (insert (p, name, addr) L) := by
  set l := addDirEntry (addDirEntry [] ⟨addr, magic⟩ dot) tgt dotDot with hl
  have hf : Keeps fun it : Item =>
      { it with
        linkcount := it.linkcount + 1
        direntries := addDirEntry it.direntries ⟨addr, magic⟩ name } := fun _ => ⟨rfl, rfl, rfl⟩
  have hk := @grows_alloc p addr s ⟨magic, 2, .dir, l, true⟩ _ hf rfl haddr
  have hnew := (@isDir_alloc p addr s ⟨magic, 2, .dir, l, true⟩ _ hf rfl).trans (decide_eq_true rfl)
  have hv := @valid_alloc p addr s ⟨magic, 2, .dir, l, true⟩ _ hf rfl
  have hnone := kind_of_free haddr
  have hpdir : isDir s.kind p = true := by rw [isDir_of_item hp, hdir]; rfl
  have hpa := ne_of_item haddr hp
  have hfree := hrep.not_mem_of_find hp hfind
  have hv' := (hk.valid (hinode.symm ▸ isSome_of_isDir hpdir)).mpr hparent
  refine ⟨hrep.shape.addDir hk hnew hnone hpdir hfree hname, fun x itx hx => ?_, fun x itx hx e => ?_,
    fun x itx hx hroot => ?_⟩
  all_goals
    rw [item_alloc_modify hf rfl haddr hp] at hx
    split_ifs at hx with hxp hxa
  · rw [← Option.some.inj hx]
    exact nodup_addDirEntry (hrep.names p it hp) (findEntry_eq_none.mp hfind)
  · rw [← Option.some.inj hx, hl]
    refine nodup_addDirEntry (nodup_addDirEntry List.nodup_nil List.not_mem_nil) ?_
    show dotDot ∉ [dot]
    decide
  · exact hrep.names x itx hx
  · rw [← Option.some.inj hx, hxp, mem_addDirEntry, hrep.entries p it hp,
      hrep.shape.entry_insert hk hpdir (hk.isDir_eq hpa) (fun _ => hpa) hv rfl]
    exact or_congr_right (and_iff_right rfl).symm
  · rw [← Option.some.inj hx, hxa, hrep.shape.entry_new hnew hnone hv rfl hv' hinode hpa, hl,
      mem_addDirEntry, mem_addDirEntry, or_iff_right List.not_mem_nil]
  · rw [hrep.entries x itx hx,
      hrep.shape.entry_insert hk hpdir (hk.isDir_eq hxa) (fun _ => hxa) hv rfl]
    exact (or_iff_left fun heq => hxp heq.1).symm
  · rw [← Option.some.inj hx, hrep.shape.count_addDir hk hnew hnone hpdir, hxp, if_neg hpa, if_pos rfl,
      ← hrep.counts p it hp (hxp ▸ hroot)]
  · rw [← Option.some.inj hx, hrep.shape.count_addDir hk hnew hnone hpdir, if_pos hxa]
  · rw [hrep.shape.count_addDir hk hnew hnone hpdir, if_neg hxa, if_neg hxp]
    exact hrep.counts x itx hx hroot

/-- Two items changed one after the other. -/
lemma item_modify_modify {g : Item → Item} (hf : Keeps f) (hg : Keeps g) (hp : s.item p = some it)
    (ho : s.item o = some ito) (hpo : p ≠ o) : ((s.modify p f).modify o g).item x =
      if x = o then some (g ito) else if x = p then some (f it) else s.item x := by
  rw [item_modify fun it => (hg it).1, item_modify fun it => (hf it).1]
  by_cases hx : x = o
  · rw [if_pos hx, if_pos hx, hx, if_neg hpo.symm, ho]
    rfl
  · rw [if_neg hx, if_neg hx]
    by_cases hxp : x = p
    · rw [if_pos hxp, if_pos hxp, hxp, hp]
      rfl
    · rw [if_neg hxp, if_neg hxp]

/-- A hard link: the object keeps its kind and counts one more. -/
lemma Rep.link (hrep : Rep flag root s L) (hp : s.item p = some it) (hdir : it.type = .dir)
    (ho : s.item tgt.inode = some ito) (hmagic : ito.magic = tgt.magic) (hfile : ito.type ≠ .dir)
    (hfind : findEntry it.direntries name = none) (hname : name ≠ dot ∧ name ≠ dotDot)
    (hkind : s'.kind = s.kind) (hitem : ∀ x, s'.item x =
      if x = tgt.inode then some { ito with linkcount := ito.linkcount + 1 }
      else if x = p then some { it with direntries := addDirEntry it.direntries tgt name }
      else s.item x) : Rep flag root s' (insert (p, name, tgt.inode) L) := by
  have hpdir : isDir s.kind p = true := by rw [isDir_of_item hp, hdir]; rfl
  have hodir : isDir s.kind tgt.inode = false := by rw [isDir_of_item ho]; exact decide_eq_false hfile
  -- a directory is no file
  have hpo : p ≠ tgt.inode := by
    intro heq
    rw [heq, hodir] at hpdir
    cases hpdir
  have hlive : (s.kind tgt.inode).isSome := isSome_kind.mpr ⟨ito, ho⟩
  have hk : Grows s.kind s.kind tgt.inode := ⟨fun _ _ => rfl, fun _ => .inl, hlive⟩
  have hv : Valid s.kind tgt := valid_of_item ho hmagic
  have hfree := hrep.not_mem_of_find hp hfind
  have hentry : ∀ x e, Entry flag root s.kind (insert (p, name, tgt.inode) L) x e ↔
      Entry flag root s.kind L x e ∨ x = p ∧ e = ⟨name, tgt⟩ := by
    intro x e
    refine hrep.shape.entry_insert hk hpdir rfl (fun hx => ?_) hv rfl
    rintro rfl
    rw [hodir] at hx
    cases hx
  have hshape := hrep.shape.add hk hodir hodir hpdir hfree hname
  refine ⟨by rw [hkind]; exact hshape, fun x itx hx => ?_, fun x itx hx e => ?_, fun x itx hx hroot => ?_⟩
  all_goals
    rw [hitem] at hx
    split_ifs at hx with hxo hxp
  · rw [← Option.some.inj hx]
    exact hrep.names _ ito ho
  · rw [← Option.some.inj hx]
    exact nodup_addDirEntry (hrep.names p it hp) (findEntry_eq_none.mp hfind)
  · exact hrep.names x itx hx
  · rw [← Option.some.inj hx, hkind, hentry, hxo, hrep.entries _ ito ho]
    exact (or_iff_left fun heq => hpo heq.1.symm).symm
  · rw [← Option.some.inj hx, hkind, hentry, hxp, mem_addDirEntry, hrep.entries p it hp]
    exact or_congr_right (and_iff_right rfl).symm
  · rw [hkind, hentry, hrep.entries x itx hx]
    exact (or_iff_left fun heq => hxp heq.1).symm
  · rw [← Option.some.inj hx, hkind, count_add hk hodir hodir (hfree _), if_pos hxo, hxo]
    have hcount := hrep.counts _ ito ho (hxo ▸ hroot)
    rw [count, hodir] at hcount
    exact congrArg (· + 1) hcount
  · rw [← Option.some.inj hx, hkind, count_add hk hodir hodir (hfree _), if_neg hxo, hxp]
    exact hrep.counts p it hp (hxp ▸ hroot)
  · rw [hkind, count_add hk hodir hodir (hfree _), if_neg hxo]
    exact hrep.counts x itx hx hroot

/-! ## The removal of an object -/

variable {l : List Dirlist} {c : ℕ}

/-- The links after a change of the memory that removes an entry and the object it is for, or keeps the
object with one link less. -/
lemma Rep.remove (hrep : Rep flag root s L) (hp : s.item p = some it) (ho : s.item o = some ito)
    (hlink : (p, name, o) ∈ L) (hk : Shrinks s.kind s'.kind L p name o)
    (hremove : GhostFs.removeEntry name it.direntries = some l)
    (hitem : ∀ x, x ≠ o → s'.item x =
      if x = p then some { it with linkcount := c, direntries := l } else s.item x)
    (hitemo : ∀ itx, s'.item o = some itx →
      itx = { ito with linkcount := ito.linkcount - 1 } ∧ isDir s.kind o = false)
    (hc : c = if isDir s.kind o = true then it.linkcount - 1 else it.linkcount) :
    Rep flag root s' (L.erase (p, name, o)) := by
  obtain ⟨hnodup, hmem⟩ := mem_removeEntry (hrep.names p it hp) hremove
  -- only `o` may be gone
  have hdir : ∀ x itx, s'.item x = some itx → isDir s'.kind x = isDir s.kind x := by
    intro x itx hx
    by_cases hxo : x = o
    · rw [hxo] at hx
      rw [hxo, hk.not_dir, (hitemo itx hx).2]
    · exact isDir_congr (hk.keep x hxo)
  refine ⟨hrep.shape.erase hk hlink, fun x itx hx => ?_, fun x itx hx e => ?_, fun x itx hx hroot => ?_⟩
  · by_cases hxo : x = o
    · rw [hxo] at hx
      rw [(hitemo itx hx).1]
      exact hrep.names o ito ho
    · rw [hitem x hxo] at hx
      split_ifs at hx
      · rw [← Option.some.inj hx]
        exact hnodup
      · exact hrep.names x itx hx
  · rw [hrep.shape.entry_erase hk hlink (hdir x itx hx)]
    by_cases hxo : x = o
    · rw [hxo] at hx
      rw [hxo, (hitemo itx hx).1]
      show e ∈ ito.direntries ↔ _
      rw [hrep.entries o ito ho]
      refine (and_iff_left ?_).symm
      rintro ⟨heq, -⟩
      have hpdir := hrep.shape.tree.source p name o hlink
      rw [← heq, (hitemo itx hx).2] at hpdir
      cases hpdir
    · rw [hitem x hxo] at hx
      split_ifs at hx with hxp
      · rw [← Option.some.inj hx, hxp]
        show e ∈ l ↔ _
        rw [hmem, hrep.entries p it hp]
        exact and_congr_right' (not_congr (and_iff_right rfl)).symm
      · rw [hrep.entries x itx hx]
        exact (and_iff_left fun heq => hxp heq.1).symm
  · by_cases hxo : x = o
    · rw [hxo] at hx hroot
      obtain ⟨hitx, hfile⟩ := hitemo itx hx
      have hcount := hrep.counts o ito ho hroot
      rw [count, hfile] at hcount
      rw [hxo, hitx, count_erase hk hlink hfile, if_pos rfl]
      exact congrArg (· - 1) hcount
    · rw [hitem x hxo] at hx
      have hcount : count s'.kind (L.erase (p, name, o)) x =
          if x = p ∧ isDir s.kind o = true then count s.kind L x - 1 else count s.kind L x := by
        cases hodir : isDir s.kind o with
        | true =>
          rw [hrep.shape.count_eraseDir hk hlink hodir hxo]
          simp
        | false =>
          rw [count_erase hk hlink hodir, if_neg hxo]
          simp
      rw [hcount]
      split_ifs at hx with hxp
      · rw [← Option.some.inj hx, hxp, ← hrep.counts p it hp (hxp ▸ hroot)]
        show c = _
        rw [hc]
        simp
      · rw [if_neg fun heq => hxp heq.1]
        exact hrep.counts x itx hx hroot

/-! ## The move of an entry -/

/-- A rename within one directory: the link changes its name. -/
lemma Rep.rename (hrep : Rep flag root s L) (hp : s.item p = some it) (hv : Valid s.kind h)
    (hlink : (p, name, h.inode) ∈ L) (hfind : findEntry it.direntries newName = none)
    (hname : newName ≠ dot ∧ newName ≠ dotDot) (hrename : renameEntry it.direntries name newName = some l)
    (hkind : s'.kind = s.kind)
    (hitem : ∀ x, s'.item x = if x = p then some { it with direntries := l } else s.item x) :
    Rep flag root s' (insert (p, newName, h.inode) (L.erase (p, name, h.inode))) := by
  have hpdir := hrep.shape.tree.source p name _ hlink
  have hfree := hrep.not_mem_of_find hp hfind
  have hshape := hrep.shape.move hlink hpdir hfree hname fun _ => .inl rfl
  have hnodup : (GhostFs.names l).Nodup := by
    refine nodup_updateEntry (hrep.names p it hp) (fun _ => rfl) (fun hmem => ?_) hrename
    exact absurd hmem (findEntry_eq_none.mp hfind)
  -- the entry that is renamed is the one for the object
  have hmem : ∀ e, e ∈ l ↔ e ∈ it.direntries ∧ e.name ≠ name ∨ e = ⟨newName, h⟩ := by
    obtain ⟨h', hh', hmem⟩ := mem_updateEntry (hrep.names p it hp) hrename
    have hh : (⟨name, h⟩ : Dirlist) ∈ it.direntries :=
      (hrep.entries p it hp _).mpr ⟨hpdir, hv, .inr (.inr hlink)⟩
    have heq := eq_of_name (hrep.names p it hp) hh' hh rfl
    rw [Dirlist.mk.injEq] at heq
    rw [heq.2] at hmem
    exact hmem
  have hentry : ∀ x e, Entry flag root s.kind (insert (p, newName, h.inode) (L.erase (p, name, h.inode))) x e ↔
      Entry flag root s.kind L x e ∧ ¬(x = p ∧ e.name = name) ∨ x = p ∧ e = ⟨newName, h⟩ :=
    fun x e => hrep.shape.entry_move hlink hpdir (fun _ => .inr rfl) hv rfl
  refine ⟨by rw [hkind]; exact hshape, fun x itx hx => ?_, fun x itx hx e => ?_, fun x itx hx hroot => ?_⟩
  all_goals
    rw [hitem] at hx
    split_ifs at hx with hxp
  · rw [← Option.some.inj hx]
    exact hnodup
  · exact hrep.names x itx hx
  · rw [← Option.some.inj hx, hkind, hentry, hxp]
    show e ∈ l ↔ _
    rw [hmem, hrep.entries p it hp]
    simp
  · rw [hkind, hentry, hrep.entries x itx hx]
    simp [hxp]
  · rw [← Option.some.inj hx, hkind, count_move hlink hfree fun _ => rfl, hxp]
    exact hrep.counts p it hp (hxp ▸ hroot)
  · rw [hkind, count_move hlink hfree fun _ => rfl]
    exact hrep.counts x itx hx hroot

/-- `GHOSTFS_Rename` to another directory. The list of entries of the object is the one of its new parent. -/
lemma Rep.move {lo : List Dirlist} {c₂ : ℕ} (hrep : Rep flag root s L) (hp : s.item p = some it)
    (hp₂ : s.item p₂ = some it₂) (hdir₂ : it₂.type = .dir) (hpp₂ : p ≠ p₂) (ho : s.item h.inode = some ito)
    (hop : h.inode ≠ p) (hop₂ : h.inode ≠ p₂) (hv : Valid s.kind h) (hlink : (p, name, h.inode) ∈ L)
    (hfind : findEntry it₂.direntries newName = none) (hname : newName ≠ dot ∧ newName ≠ dotDot)
    (hbelow : isDir s.kind h.inode = true →
      ¬Below (fun p => isDir s.kind p = true) (fun d n o => (d, n, o) ∈ L) h.inode p₂)
    (hremove : GhostFs.removeEntry name it.direntries = some l)
    (hc : c = if isDir s.kind h.inode = true then it.linkcount - 1 else it.linkcount)
    (hc₂ : c₂ = if isDir s.kind h.inode = true then it₂.linkcount + 1 else it₂.linkcount)
    (hlo : (GhostFs.names lo).Nodup ∧ ∀ e, e ∈ lo ↔
      Entry flag root s.kind (insert (p₂, newName, h.inode) (L.erase (p, name, h.inode))) h.inode e)
    (hkind : s'.kind = s.kind)
    (hitem : ∀ x, s'.item x =
      if x = p₂ then some { it₂ with linkcount := c₂, direntries := addDirEntry it₂.direntries h newName }
      else if x = p then some { it with linkcount := c, direntries := l }
      else if x = h.inode then some { ito with direntries := lo }
      else s.item x) :
    Rep flag root s' (insert (p₂, newName, h.inode) (L.erase (p, name, h.inode))) := by
  have hdir₂' : isDir s.kind p₂ = true := by rw [isDir_of_item hp₂, hdir₂]; rfl
  have hfree := hrep.not_mem_of_find hp₂ hfind
  have hshape := hrep.shape.move hlink hdir₂' hfree hname fun hdir => .inr (hbelow hdir)
  obtain ⟨hnodup, hmem⟩ := mem_removeEntry (hrep.names p it hp) hremove
  -- the moved object gets the new parent as its `..`
  have hentry : ∀ x, x ≠ h.inode → ∀ e,
      Entry flag root s.kind (insert (p₂, newName, h.inode) (L.erase (p, name, h.inode))) x e ↔
      Entry flag root s.kind L x e ∧ ¬(x = p ∧ e.name = name) ∨ x = p₂ ∧ e = ⟨newName, h⟩ :=
    fun x hx e => hrep.shape.entry_move hlink hdir₂' (fun _ => .inl hx) hv rfl
  have hcount : ∀ x, count s.kind (insert (p₂, newName, h.inode) (L.erase (p, name, h.inode))) x =
      if isDir s.kind h.inode = true ∧ x = p then count s.kind L x - 1
      else if isDir s.kind h.inode = true ∧ x = p₂ then count s.kind L x + 1 else count s.kind L x := by
    intro x
    cases hodir : isDir s.kind h.inode with
    | true =>
      rw [hrep.shape.count_moveDir hlink hfree hodir hdir₂' hpp₂]
      simp
    | false =>
      rw [count_move hlink hfree fun hdir => absurd (hodir.symm.trans hdir) Bool.false_ne_true]
      simp
  refine ⟨by rw [hkind]; exact hshape, fun x itx hx => ?_, fun x itx hx e => ?_, fun x itx hx hroot => ?_⟩
  all_goals
    rw [hitem] at hx
    split_ifs at hx with hxp₂ hxp hxo
  · rw [← Option.some.inj hx]
    exact nodup_addDirEntry (hrep.names p₂ it₂ hp₂) (findEntry_eq_none.mp hfind)
  · rw [← Option.some.inj hx]
    exact hnodup
  · rw [← Option.some.inj hx]
    exact hlo.1
  · exact hrep.names x itx hx
  · rw [← Option.some.inj hx, hkind, hxp₂, hentry p₂ hop₂.symm, mem_addDirEntry, hrep.entries p₂ it₂ hp₂]
    simp [hpp₂.symm]
  · rw [← Option.some.inj hx, hkind, hxp, hentry p hop.symm]
    show e ∈ l ↔ _
    rw [hmem, hrep.entries p it hp]
    simp [hpp₂]
  · rw [← Option.some.inj hx, hkind, hxo]
    exact hlo.2 e
  · rw [hkind, hentry x hxo, hrep.entries x itx hx]
    simp [hxp, hxp₂]
  · rw [← Option.some.inj hx, hkind, hcount, hxp₂, ← hrep.counts p₂ it₂ hp₂ (hxp₂ ▸ hroot)]
    show c₂ = _
    rw [hc₂]
    simp [hpp₂.symm]
  · rw [← Option.some.inj hx, hkind, hcount, hxp, ← hrep.counts p it hp (hxp ▸ hroot)]
    show c = _
    rw [hc]
    simp [hpp₂]
  · rw [← Option.some.inj hx, hkind, hcount, hxo, ← hrep.counts _ ito ho (hxo ▸ hroot)]
    simp [hop, hop₂]
  · rw [hkind, hcount]
    simp only [hxp, hxp₂, and_false, if_false]
    exact hrep.counts x itx hx hroot

end Ganesha.GhostFs
