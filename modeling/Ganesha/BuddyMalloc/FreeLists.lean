import Mathlib.Data.Set.Insert
import Ganesha.Library.LinkedList
import Ganesha.BuddyMalloc.Common

/-!
# The lists of free blocks

`Listed c L`: the lists from `MemDesc` hold the blocks `L`, each once and in the list of its size.
`Insert_FreeBlock` and `Remove_FreeBlock` add and take out one block (`Listed.insert`,
`Listed.remove`) and leave everything but the links as it is (`core_insertFreeBlock`,
`core_removeFreeBlock`).
-/

namespace Ganesha.BuddyMalloc
open Library.LinkedList

variable {c : Context} {L : Set ℕ} {a b k : ℕ}

/-- A descriptor without its links. -/
def BuddyBlock.core (b : BuddyBlock) : BuddyBlock := { b with nextBlock := none, prevBlock := none }

lemma BuddyBlock.core_eq {b b' : BuddyBlock} : b.core = b'.core ↔
    b.basePtr = b'.basePtr ∧ b.magicNumber = b'.magicNumber ∧ b.ownerThread = b'.ownerThread ∧
      b.baseKSize = b'.baseKSize ∧ b.kSize = b'.kSize ∧ b.extraInfo = b'.extraInfo ∧
      b.status = b'.status := by
  simp [BuddyBlock.core]

/-! ## What the two functions write -/

@[simp] lemma modify_mem_self (f : BuddyBlock → BuddyBlock) : (c.modify a f).mem a = f (c.mem a) :=
  Function.update_self ..

lemma modify_mem_of_ne (f : BuddyBlock → BuddyBlock) (h : b ≠ a) :
    (c.modify a f).mem b = c.mem b := Function.update_of_ne h _ _

lemma modify_mem (f : BuddyBlock → BuddyBlock) (x : ℕ) :
    (c.modify a f).mem x = if x = a then f (c.mem a) else c.mem x := by
  split_ifs with h
  · rw [h, modify_mem_self]
  · rw [modify_mem_of_ne f h]

@[simp] lemma setMemDesc_mem (p : Option ℕ) : (c.setMemDesc k p).mem = c.mem := rfl

lemma core_modify {f : BuddyBlock → BuddyBlock} (hf : ∀ b, (f b).core = b.core) (x : ℕ) :
    ((c.modify a f).mem x).core = (c.mem x).core := by
  rw [modify_mem]
  split_ifs with h
  · rw [hf, h]
  · rfl

/-- Everything but the lists of free blocks. -/
structure SameBut (c c' : Context) : Prop where
  core : ∀ x, (c'.mem x).core = (c.mem x).core
  kSize : c'.kSize = c.kSize
  pages : c'.pages = c.pages
  extras : c'.extras = c.extras
  config : c'.config = c.config
  initialized : c'.initialized = c.initialized
  ownerThread : c'.ownerThread = c.ownerThread
  toBeFreedList : c'.toBeFreedList = c.toBeFreedList

lemma SameBut.trans {c' c'' : Context} (h : SameBut c c') (h' : SameBut c' c'') : SameBut c c'' :=
  ⟨fun x => (h'.core x).trans (h.core x), h'.kSize.trans h.kSize, h'.pages.trans h.pages,
    h'.extras.trans h.extras, h'.config.trans h.config, h'.initialized.trans h.initialized,
    h'.ownerThread.trans h.ownerThread, h'.toBeFreedList.trans h.toBeFreedList⟩

lemma SameBut.modify {f : BuddyBlock → BuddyBlock} (hf : ∀ b, (f b).core = b.core) :
    SameBut c (c.modify a f) := ⟨core_modify hf, rfl, rfl, rfl, rfl, rfl, rfl, rfl⟩

lemma SameBut.setMemDesc (p : Option ℕ) : SameBut c (c.setMemDesc k p) :=
  ⟨fun _ => rfl, rfl, rfl, rfl, rfl, rfl, rfl, rfl⟩

/-- Insertion into a free list writes links only. -/
lemma sameBut_insertFreeBlock (c : Context) (a : ℕ) : SameBut c (insertFreeBlock c a) := by
  simp only [insertFreeBlock]
  cases c.memDesc (c.mem a).kSize with
  | none =>
    refine SameBut.trans (.setMemDesc (some a)) (.modify ?_)
    exact fun _ => rfl
  | some next =>
    refine SameBut.trans (SameBut.trans (.setMemDesc (some a)) (.modify ?_)) (.modify ?_)
    · exact fun _ => rfl
    · exact fun _ => rfl

/-- Taking a block out of its list changes links only. -/
lemma sameBut_removeFreeBlock (c : Context) (a : ℕ) : SameBut c (removeFreeBlock c a) := by
  simp only [removeFreeBlock]
  rcases (c.mem a).prevBlock with _ | p <;> rcases (c.mem a).nextBlock with _ | n
  · refine SameBut.trans (.setMemDesc none) (.modify ?_)
    exact fun _ => rfl
  · refine SameBut.trans (SameBut.trans (.setMemDesc (some n)) (.modify ?_)) (.modify ?_)
    · exact fun _ => rfl
    · exact fun _ => rfl
  · refine SameBut.trans (.modify ?_) (.modify ?_)
    · exact fun _ => rfl
    · exact fun _ => rfl
  · refine SameBut.trans (SameBut.trans (.modify ?_) (.modify ?_)) (.modify ?_)
    · exact fun _ => rfl
    · exact fun _ => rfl
    · exact fun _ => rfl

lemma insertFreeBlock_stats (c : Context) (a : ℕ) : (insertFreeBlock c a).stats = c.stats := by
  simp only [insertFreeBlock]
  cases c.memDesc (c.mem a).kSize with
  | none => rfl
  | some next => rfl

lemma removeFreeBlock_stats (c : Context) (a : ℕ) : (removeFreeBlock c a).stats = c.stats := by
  simp only [removeFreeBlock]
  cases (c.mem a).prevBlock with
  | none => cases (c.mem a).nextBlock <;> rfl
  | some prev => cases (c.mem a).nextBlock <;> rfl

lemma insertFreeBlock_memDesc (c : Context) (a : ℕ) :
    (insertFreeBlock c a).memDesc = Function.update c.memDesc (c.mem a).kSize (some a) := by
  simp only [insertFreeBlock]
  cases c.memDesc (c.mem a).kSize with
  | none => rfl
  | some next => rfl

/-- The links after a block is put before the others of its list. -/
lemma insertFreeBlock_links (c : Context) (a x : ℕ) (hne : c.memDesc (c.mem a).kSize ≠ some a) :
    ((insertFreeBlock c a).mem x).nextBlock =
        (if x = a then c.memDesc (c.mem a).kSize else (c.mem x).nextBlock) ∧
      ((insertFreeBlock c a).mem x).prevBlock =
        (if x = a then none
          else if c.memDesc (c.mem a).kSize = some x then some a else (c.mem x).prevBlock) := by
  simp only [insertFreeBlock]
  rcases hhead : c.memDesc (c.mem a).kSize with _ | next
  · simp only [modify_mem, setMemDesc_mem]
    by_cases hx : x = a <;> simp [hx]
  · have hnext : a ≠ next := fun heq => hne (by rw [hhead, heq])
    simp only [modify_mem, setMemDesc_mem]
    by_cases hx : x = a
    · simp [hx, hnext]
    · by_cases hxn : x = next
      · simp [hxn, hnext.symm]
      · simp [hx, hxn, Ne.symm hxn]

lemma removeFreeBlock_memDesc (c : Context) (a : ℕ) :
    (removeFreeBlock c a).memDesc = if (c.mem a).prevBlock = none then
      Function.update c.memDesc (c.mem a).kSize (c.mem a).nextBlock else c.memDesc := by
  simp only [removeFreeBlock]
  cases (c.mem a).prevBlock with
  | none => cases (c.mem a).nextBlock <;> rfl
  | some prev => cases (c.mem a).nextBlock <;> rfl

/-- The links after a block is taken out: its neighbours are linked. -/
lemma removeFreeBlock_links (c : Context) {a x : ℕ} (hx : x ≠ a) :
    ((removeFreeBlock c a).mem x).nextBlock =
        (if (c.mem a).prevBlock = some x then (c.mem a).nextBlock else (c.mem x).nextBlock) ∧
      ((removeFreeBlock c a).mem x).prevBlock =
        (if (c.mem a).nextBlock = some x then (c.mem a).prevBlock else (c.mem x).prevBlock) := by
  simp only [removeFreeBlock]
  rw [modify_mem_of_ne _ hx]
  rcases (c.mem a).prevBlock with _ | p <;> rcases (c.mem a).nextBlock with _ | n
  · simp
  · by_cases hn : x = n
    · simp [hn]
    · simp [modify_mem, hn, Ne.symm hn]
  · by_cases hp : x = p
    · simp [hp]
    · simp [modify_mem, hp, Ne.symm hp]
  · by_cases hp : x = p
    · by_cases hn : x = n
      · simp [← hp, ← hn]
      · simp [modify_mem, ← hp, hn, Ne.symm hn]
    · by_cases hn : x = n
      · simp [modify_mem, ← hn, hp, Ne.symm hp]
      · simp [modify_mem, hn, Ne.symm hn, hp, Ne.symm hp]

/-! ## The lists -/

/-- The lists hold the blocks `L`, each in the list of its size. -/
def Listed (c : Context) (L : Set ℕ) : Prop :=
  ∃ lists : ℕ → List ℕ, ∀ i,
    Linked (fun x => (c.mem x).nextBlock) (fun x => (c.mem x).prevBlock) none (c.memDesc i)
      (lists i) ∧ (lists i).Nodup ∧ ∀ x, x ∈ lists i ↔ x ∈ L ∧ (c.mem x).kSize = i

/-- A list is the same if its head and its blocks are. -/
lemma Listed.congr {c' : Context} (h : Listed c L) (hdesc : c'.memDesc = c.memDesc)
    (hmem : ∀ x ∈ L, c'.mem x = c.mem x) : Listed c' L := by
  obtain ⟨lists, hlists⟩ := h
  refine ⟨lists, fun i => ?_⟩
  obtain ⟨hlink, hnd, hiff⟩ := hlists i
  have hin : ∀ x ∈ lists i, c'.mem x = c.mem x := fun x hx => hmem x ((hiff x).mp hx).1
  refine ⟨?_, hnd, fun x => ?_⟩
  · rw [hdesc]
    refine hlink.congr fun x hx => ?_
    rw [hin x hx]
    exact ⟨rfl, rfl⟩
  · rw [hiff x]
    refine and_congr_right fun hx => ?_
    rw [hmem x hx]

/-- `Insert_FreeBlock` of a block that is in no list. -/
theorem Listed.insert (h : Listed c L) (ha : a ∉ L) : Listed (insertFreeBlock c a) (insert a L) := by
  obtain ⟨lists, hlists⟩ := h
  set k := (c.mem a).kSize with hk
  have hsize : ∀ x, ((insertFreeBlock c a).mem x).kSize = (c.mem x).kSize := fun x =>
    (BuddyBlock.core_eq.mp ((sameBut_insertFreeBlock c a).core x)).2.2.2.2.1
  have hnotin : ∀ i, a ∉ lists i := fun i hx => ha (((hlists i).2.2 a).mp hx).1
  have hhead : ∀ x, c.memDesc k = some x → x ∈ lists k := fun x hx => by
    rw [(hlists k).1.head_eq] at hx
    exact List.mem_of_head? hx
  have hne : c.memDesc k ≠ some a := fun heq => hnotin k (hhead a heq)
  have hlinks := fun x => insertFreeBlock_links c a x hne
  refine ⟨Function.update lists k (a :: lists k), fun i => ?_⟩
  obtain ⟨hlink, hnd, hiff⟩ := hlists i
  rw [insertFreeBlock_memDesc]
  -- only the list of this size has a new head
  rcases eq_or_ne i k with rfl | hik
  · rw [Function.update_self, Function.update_self]
    refine ⟨?_, List.nodup_cons.mpr ⟨hnotin k, hnd⟩, fun x => ?_⟩
    · refine hlink.insert hnd ?_ ?_ (fun x hx => ?_) fun x hx => ?_
      · rw [(hlinks a).1, if_pos rfl]
      · rw [(hlinks a).2, if_pos rfl]
      · have hxa : x ≠ a := fun heq => hnotin k (heq ▸ hx)
        rw [(hlinks x).1, if_neg hxa]
      · have hxa : x ≠ a := fun heq => hnotin k (heq ▸ hx)
        rw [(hlinks x).2, if_neg hxa]
    · rw [List.mem_cons, hiff x, hsize, Set.mem_insert_iff]
      constructor
      · rintro (rfl | ⟨hx, hxk⟩)
        · exact ⟨.inl rfl, rfl⟩
        · exact ⟨.inr hx, hxk⟩
      · rintro ⟨hx | hx, hxk⟩
        · exact .inl hx
        · exact .inr ⟨hx, hxk⟩
  · rw [Function.update_of_ne hik, Function.update_of_ne hik]
    refine ⟨hlink.congr fun x hx => ?_, hnd, fun x => ?_⟩
    · have hxa : x ≠ a := fun heq => hnotin i (heq ▸ hx)
      have hxk : c.memDesc k ≠ some x := fun heq =>
        hik (((hiff x).mp hx).2.symm.trans (((hlists k).2.2 x).mp (hhead x heq)).2)
      rw [(hlinks x).1, (hlinks x).2, if_neg hxa, if_neg hxa, if_neg hxk]
      exact ⟨rfl, rfl⟩
    · rw [hiff x, hsize, Set.mem_insert_iff]
      constructor
      · exact fun ⟨hx, hxi⟩ => ⟨.inr hx, hxi⟩
      · rintro ⟨rfl | hx, hxi⟩
        · exact absurd hxi.symm hik
        · exact ⟨hx, hxi⟩

/-- `Remove_FreeBlock` of a block that is in a list. -/
theorem Listed.remove (h : Listed c L) (ha : a ∈ L) : Listed (removeFreeBlock c a) (L \ {a}) := by
  obtain ⟨lists, hlists⟩ := h
  set k := (c.mem a).kSize with hk
  have hsize : ∀ x, ((removeFreeBlock c a).mem x).kSize = (c.mem x).kSize := fun x =>
    (BuddyBlock.core_eq.mp ((sameBut_removeFreeBlock c a).core x)).2.2.2.2.1
  obtain ⟨hlinkk, hndk, hiffk⟩ := hlists k
  have hak : a ∈ lists k := (hiffk a).mpr ⟨ha, rfl⟩
  -- the neighbours of the block are in its list
  have hprev : ∀ x, (c.mem a).prevBlock = some x → x ∈ lists k := fun x hx => by
    obtain ⟨l₁, l₂, hl⟩ := List.append_of_mem hak
    rw [hl] at hlinkk ⊢
    have hp := hlinkk.prev_eq
    simp only [hx] at hp
    split_ifs at hp
    exact List.mem_append_left _ (List.mem_of_getLast? hp.symm)
  have hnext : ∀ x, (c.mem a).nextBlock = some x → x ∈ lists k := fun x hx => by
    obtain ⟨l₁, l₂, hl⟩ := List.append_of_mem hak
    rw [hl] at hlinkk ⊢
    have hn := hlinkk.next_eq
    simp only [hx] at hn
    exact List.mem_append_right _ (List.mem_cons_of_mem _ (List.mem_of_head? hn.symm))
  refine ⟨Function.update lists k ((lists k).erase a), fun i => ?_⟩
  obtain ⟨hlink, hnd, hiff⟩ := hlists i
  rw [removeFreeBlock_memDesc]
  rcases eq_or_ne i k with rfl | hik
  · rw [Function.update_self]
    refine ⟨?_, hnd.erase a, fun x => ?_⟩
    · have hdesc : (if (c.mem a).prevBlock = none then
          Function.update c.memDesc k (c.mem a).nextBlock else c.memDesc) k =
          if (c.mem a).prevBlock = none then (c.mem a).nextBlock else c.memDesc k := by
        split_ifs
        · rw [Function.update_self]
        · rfl
      rw [hdesc]
      exact hlink.remove hnd hak (fun x _ hxa => (removeFreeBlock_links c hxa).1)
        fun x _ hxa => (removeFreeBlock_links c hxa).2
    · rw [hnd.mem_erase_iff, hiff x, hsize, Set.mem_sdiff, Set.mem_singleton_iff]
      tauto
  · have hdesc : (if (c.mem a).prevBlock = none then
        Function.update c.memDesc k (c.mem a).nextBlock else c.memDesc) i = c.memDesc i := by
      split_ifs
      · rw [Function.update_of_ne hik]
      · rfl
    have hother : ∀ x ∈ lists i, x ∉ lists k := fun x hx hxk =>
      hik (((hiff x).mp hx).2.symm.trans ((hiffk x).mp hxk).2)
    rw [hdesc, Function.update_of_ne hik]
    refine ⟨hlink.congr fun x hx => ?_, hnd, fun x => ?_⟩
    · have hxa : x ≠ a := fun heq => hother x hx (heq ▸ hak)
      have hlinks := removeFreeBlock_links c hxa
      rw [hlinks.1, hlinks.2, if_neg fun heq => hother x hx (hprev x heq),
        if_neg fun heq => hother x hx (hnext x heq)]
      exact ⟨rfl, rfl⟩
    · rw [hiff x, hsize, Set.mem_sdiff, Set.mem_singleton_iff]
      constructor
      · rintro ⟨hx, hxi⟩
        refine ⟨⟨hx, ?_⟩, hxi⟩
        rintro rfl
        exact hik hxi.symm
      · exact fun ⟨⟨hx, _⟩, hxi⟩ => ⟨hx, hxi⟩

end Ganesha.BuddyMalloc
