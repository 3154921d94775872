import Ganesha.BuddyMalloc.Requests

/-!
# Full coalescing

In every run of `BuddyMalloc` and `BuddyFree` by the owner of a context, no two free blocks of a page
are buddies of the same size, and a page without a block in use is one free block
(`fullyCoalesced_of_sound`).

The condition is that no block is cut below the size of a header. `__BuddyMalloc` does not look for
the 0 with which `Log2Ceil` refuses sizes beyond 2^63, and cuts a page down to one byte
(`not_fullyCoalesced_of_unsound`).
-/

namespace Ganesha.BuddyMalloc
open Library.Transition

variable {c c' : Context} {B B' : Set ℕ} {s s' : System} {e : Event}

/-! ## Runs -/

/-- The calls that the owner can make: a size is one of 64 bits, `malloc` gives memory that is not in
use, and `BuddyFree` is given `NULL`, a pointer to a block in use, or one to a block that is still
marked free. -/
def Allowed (s : System) : Event → Prop
  | .malloc size answer => size < 2 ^ 64 ∧ Fresh s.context size answer
  | .free ptr => Possible s (.free ptr)

instance (s : System) : ∀ e, Decidable (Allowed s e)
  | .malloc _ _ => inferInstanceAs (Decidable (_ ∧ _))
  | .free ptr => inferInstanceAs (Decidable (Possible s (.free ptr)))

/-- The condition on a call. -/
def EventSound (s : System) : Event → Prop
  | .malloc size answer => Sound s.context size answer
  | .free _ => True

instance (s : System) : ∀ e, Decidable (EventSound s e)
  | .malloc size answer => inferInstanceAs (Decidable (Sound s.context size answer))
  | .free _ => instDecidableTrue

/-- No free block of a page has a free buddy of its size. -/
structure FullyCoalesced (s : System) (B : Set ℕ) : Prop where
  tiled : Tiled s.context.kSize s.context.pages s.context.mem B
  listed : Listed s.context {x | x ∈ B ∧ (s.context.mem x).status = .free}
  /-- Two free blocks of the size `2 ^ i` in a page do not differ in the bit `i` only. -/
  buddies : ∀ i < s.context.kSize, ∀ x ∈ B, ∀ y ∈ B, (s.context.mem x).status = .free →
    (s.context.mem y).status = .free → (s.context.mem x).kSize = i → (s.context.mem y).kSize = i →
    (s.context.mem y).basePtr = (s.context.mem x).basePtr →
    y - (s.context.mem x).basePtr ≠ (x - (s.context.mem x).basePtr) ^^^ 2 ^ i
  /-- A page without a block in use is one free block. -/
  whole : ∀ p ∈ s.context.pages, (∀ q ∈ s.live.map Prod.fst,
      ¬ (p ≤ q - sizeHeader64 ∧ q - sizeHeader64 < p + 2 ^ s.context.kSize)) →
    p ∈ B ∧ (s.context.mem p).kSize = s.context.kSize ∧ (s.context.mem p).status = .free

/-- What every call keeps: the pointers that are out are those of the reserved blocks, and no two free
blocks are buddies. -/
structure Sole (s : System) (B : Set ℕ) : Prop where
  ready : Ready s.context B
  inUse : ∀ q ∈ s.live.map Prod.fst, ∃ n, InUse s.context B (q, n)
  reserved : ∀ x ∈ B, (s.context.mem x).status = .reserved → x + sizeHeader64 ∈ s.live.map Prod.fst
  coalesced : Coalesced s.context.kSize s.context.mem B

/-- If only one thread frees, no two free buddies stay apart. -/
lemma Sole.fullyCoalesced (h : Sole s B) : FullyCoalesced s B := by
  have hfilled := h.ready.toFilled
  refine ⟨h.ready.tiled, h.ready.listed, ?_, fun p hp hout => ?_⟩
  · intro i hi x hx y hy hfreex hfreey hkx hky hbase heq
    refine h.coalesced x hx y hy hfreex hfreey (by omega) (by omega) ?_
    have hle := (hfilled.tiled.block y hy).le
    rw [buddyOf, BuddyBlock.size, hkx, ← heq]
    omega
  · have hfree : ∀ x ∈ B, (s.context.mem x).basePtr = p → (s.context.mem x).status = .free := by
      intro x hx hbase
      cases hs : (s.context.mem x).status with
      | free => rfl
      | reserved =>
        have hok := hfilled.tiled.block x hx
        have hle := hok.le
        have hfits := hok.fits
        have hpos := (s.context.mem x).size_pos
        refine absurd ?_ (hout _ (h.reserved x hx hs))
        rw [Nat.add_sub_cancel]
        omega
    obtain ⟨hpB, hk, hbase⟩ :=
      hfilled.tiled.whole_page hfilled.apart_pages h.coalesced hp hfree
    exact ⟨hpB, hk, hfree p hpB hbase⟩

/-! ## BuddyFree -/

lemma Filled.unique (h : Filled c B) (h' : Filled c B') : B = B' :=
  Set.Subset.antisymm (h.tiled.unique h'.tiled h.apart_pages)
    (h'.tiled.unique h.tiled h.apart_pages)

/-- The block that is given back is joined with its free buddies. -/
lemma InUse.freed_coalesced {x : ℕ × ℕ} (hx : InUse c B x) (h : Ready c B)
    (hco : Coalesced c.kSize c.mem B) (hrun : buddyFreeBlock c (x.1 - sizeHeader64) = some c')
    (h' : Ready c' B') : Coalesced c'.kSize c'.mem B' := by
  rcases hx.room with ⟨ha, -⟩ | ⟨-, hbase, -⟩
  · obtain ⟨c₁, a', B₁, hrun₁, hjoined⟩ := buddyFreeStd_joined h.toRest ha hx.status
    obtain ⟨B₂, hrest, -, hco₂⟩ := settle_spec hjoined.toRest hjoined.mem hjoined.free
    rw [h.buddyFreeBlock_of_mem ha, hrun₁, Option.some.injEq] at hrun
    subst hrun
    rw [h'.toFilled.unique hrest.toFilled]
    exact hco₂ (hjoined.coalesced hco)
  · -- the descriptors of the pages are not written
    rw [buddyFreeBlock, if_pos hbase, Option.some.injEq, freeLargeBlock,
      if_neg (not_not_intro hbase)] at hrun
    subst hrun
    have hB : B' = B := Set.Subset.antisymm (h'.tiled.unique h.tiled h.toFilled.apart_pages)
      (h.tiled.unique h'.tiled h.toFilled.apart_pages)
    rw [hB]
    exact hco

/-- A foreign pointer changes nothing, and one that is out is given back at once. -/
lemma Sole.free_cases {ptr : ℕ} (h : Sole s B) (hallowed : Possible s (.free ptr)) :
    (ptr ∉ s.live.map Prod.fst ∧ buddyFree s.context s.context.ownerThread ptr = some s.context) ∨
      ∃ n, InUse s.context B (ptr, n) ∧ buddyFree s.context s.context.ownerThread ptr =
        buddyFreeBlock s.context (ptr - sizeHeader64) := by
  by_cases hmem : ptr ∈ s.live.map Prod.fst
  · obtain ⟨n, hn⟩ := h.inUse ptr hmem
    refine .inr ⟨n, hn, ?_⟩
    rw [hn.buddyFree_eq h.ready.initialized, if_neg (not_not_intro rfl)]
  · refine .inl ⟨hmem, ?_⟩
    rcases hallowed with rfl | hlive | ⟨hheader, hstatus, hmagic⟩
    · rfl
    · exact absurd hlive hmem
    · have hzero : ptr ≠ 0 := by
        rw [sizeHeader64] at hheader
        omega
      rw [buddyFree, if_neg hzero, if_neg (not_not_intro h.ready.initialized)]
      simp only [hstatus, hmagic]

/-- The blocks in use without one. -/
lemma mem_live_filter {ptr q : ℕ} :
    q ∈ (s.live.filter (·.1 ≠ ptr)).map Prod.fst ↔ q ∈ s.live.map Prod.fst ∧ q ≠ ptr := by
  simp only [List.mem_map, List.mem_filter, decide_eq_true_eq]
  constructor
  · rintro ⟨x, ⟨hx, hne⟩, rfl⟩
    exact ⟨⟨x, hx, rfl⟩, hne⟩
  · rintro ⟨⟨x, hx, rfl⟩, hne⟩
    exact ⟨x, ⟨hx, hne⟩, rfl⟩

/-- The block is free and no page is its own. -/
lemma Sole.freed {ptr n : ℕ} (h : Sole s B) (hn : InUse s.context B (ptr, n))
    (hrun : buddyFreeBlock s.context (ptr - sizeHeader64) = some c')
    (hreleases : Releases s.context c' B B' (ptr - sizeHeader64)) :
    Sole ⟨c', s.live.filter (·.1 ≠ ptr)⟩ B' := by
  refine ⟨hreleases.ready, fun q hq => ?_, fun x hx hres => ?_,
    hn.freed_coalesced h.ready h.coalesced hrun hreleases.ready⟩
  · obtain ⟨hq, hne⟩ := mem_live_filter.mp hq
    obtain ⟨m, hm⟩ := h.inUse q hq
    have hheader := hm.header
    have hheader' := hn.header
    exact ⟨m, hreleases.inUse _ hm (by simp only; omega)⟩
  · obtain ⟨hx, hne, hres⟩ := hreleases.noNew x hx hres
    exact mem_live_filter.mpr ⟨h.reserved x hx hres, by omega⟩

lemma step_free_of_not_mem {ptr : ℕ} (hnot : ptr ∉ s.live.map Prod.fst)
    (hrun : buddyFree s.context s.context.ownerThread ptr = some s.context) :
    step s (.free ptr) = some s := by
  have hlive : s.live.filter (·.1 ≠ ptr) = s.live := by
    refine List.filter_eq_self.mpr fun x hx => decide_eq_true fun heq => ?_
    exact hnot (List.mem_map.mpr ⟨x, hx, heq⟩)
  rw [step, hrun, Option.map_some, hlive]

lemma Sole.free {ptr : ℕ} (h : Sole s B) (hallowed : Possible s (.free ptr)) :
    ∃ s' B', step s (.free ptr) = some s' ∧ Sole s' B' := by
  rcases h.free_cases hallowed with ⟨hnot, hrun⟩ | ⟨n, hn, hrun⟩
  · exact ⟨s, B, step_free_of_not_mem hnot hrun, h⟩
  · obtain ⟨c', B', hfree, hreleases⟩ := buddyFreeBlock_spec h.ready hn
    rw [hfree] at hrun
    exact ⟨_, B', by rw [step, hrun]; rfl, h.freed hn hfree hreleases⟩

/-! ## BuddyMalloc -/

/-- After a request the new pointer is among those that are out. -/
lemma Sole.served {size n : ℕ} {answer p : Option ℕ} (h : Sole s B) 
    (hserved : Served s.context B size answer p c' B')
    (hserves : ServesOnly s.context c' B B' p n) :
    Sole ⟨c', (p.map (·, size)).toList ++ s.live⟩ B' := by
  have hfst : ((p.map (·, size)).toList ++ s.live).map Prod.fst =
      p.toList ++ s.live.map Prod.fst := by
    cases p with
    | none => rfl
    | some ptr => rfl
  refine ⟨hserves.ready, fun q hq => ?_, fun x hx hres => ?_, hserved.coalesced h.coalesced⟩
  · simp only [hfst] at hq
    rcases List.mem_append.mp hq with hq | hq
    · exact ⟨n, (hserves.given q (Option.mem_toList.mp hq)).1⟩
    · obtain ⟨m, hm⟩ := h.inUse q hq
      exact ⟨m, hserves.inUse _ hm⟩
  · simp only [hfst]
    rcases hserves.noNew x hx hres with hp | ⟨hx, hres⟩
    · exact List.mem_append_left _ (Option.mem_toList.mpr hp)
    · exact List.mem_append_right _ (h.reserved x hx hres)

/-- A call has an effect and keeps the invariant. -/
theorem Sole.step (h : Sole s B) (hallowed : Allowed s e) (hsound : EventSound s e) :
    ∃ s' B', BuddyMalloc.step s e = some s' ∧ Sole s' B' := by
  cases e with
  | free ptr => exact h.free hallowed
  | malloc size answer =>
    obtain ⟨p, c', B', hrun, hserved, n, hserves⟩ :=
      h.ready.request hallowed.1 hallowed.2 hsound
    exact ⟨_, B', by rw [BuddyMalloc.step, hrun]; rfl, h.served hserved hserves⟩

lemma Sole.init {config : Config} {self : ℕ} {mem : ℕ → BuddyBlock} {answer : Option ℕ}
    (harea : config.memoryAreaSize ≤ 2 ^ 30) (hpos : ∀ a ∈ answer, 0 < a)
    (hinit : (buddyInit config self mem answer).1 = .success) :
    ∃ B, Sole ⟨(buddyInit config self mem answer).2, []⟩ B := by
  obtain ⟨a, hpage, hlarge, -⟩ := buddyInit_added harea hpos hinit
  have hkept := hpage.tracked
  refine ⟨_, ⟨hpage.toRest, hkept.initialized, hkept.toBeFreedList, hkept.kSize ▸ hlarge⟩,
    fun q hq => absurd hq List.not_mem_nil, fun x hx hres => ?_, hpage.coalesced fun x hx => hx.elim⟩
  exact (hkept.noNew x hx hres).1.elim

/-- In every run whose requests are never cut below the size of a header the free blocks are fully
coalesced, and no such call is stuck. -/
theorem fullyCoalesced_of_sound {config : Config} {self : ℕ} {mem : ℕ → BuddyBlock}
    {answer : Option ℕ} (harea : config.memoryAreaSize ≤ 2 ^ 30) (hpos : ∀ a ∈ answer, 0 < a)
    (hinit : (buddyInit config self mem answer).1 = .success)
    (h : ReachableBy BuddyMalloc.step (fun s e => Allowed s e ∧ EventSound s e)
      ⟨(buddyInit config self mem answer).2, []⟩ s) :
    (∃ B, FullyCoalesced s B) ∧ ∀ e, Allowed s e → EventSound s e →
      (BuddyMalloc.step s e).isSome := by
  have hinv : ∃ B, Sole s B := by
    refine h.invariant (I := fun s => ∃ B, Sole s B) (Sole.init harea hpos hinit) ?_
    intro s e s' ⟨B, hs⟩ hC hstep
    obtain ⟨s'', B', hstep'', hsole⟩ := hs.step hC.1 hC.2
    rw [hstep] at hstep''
    exact ⟨B', Option.some.inj hstep'' ▸ hsole⟩
  obtain ⟨B, hsole⟩ := hinv
  refine ⟨⟨B, hsole.fullyCoalesced⟩, fun e hallowed hsound => ?_⟩
  obtain ⟨s', -, hstep, -⟩ := hsole.step hallowed hsound
  rw [hstep]
  rfl

/-- Three blocks of one page are given out and given back: the page is one block again. -/
theorem fullyCoalesced_after_three_blocks :
    ∃ s, execute BuddyMalloc.step (start { defaultBuddyParameter with memoryAreaSize := 1024 })
        [.malloc 100 none, .malloc 200 none, .malloc 16 none, .free (2 ^ 20 + 48),
          .free (2 ^ 20 + 560), .free (2 ^ 20 + 304)] = some s ∧
      s.live = [] ∧ s.context.memDesc 10 = some (2 ^ 20) ∧ ∃ B, FullyCoalesced s B := by
  have hrun : (execute BuddyMalloc.step (start { defaultBuddyParameter with memoryAreaSize := 1024 })
      [.malloc 100 none, .malloc 200 none, .malloc 16 none, .free (2 ^ 20 + 48),
        .free (2 ^ 20 + 560), .free (2 ^ 20 + 304)]).map
        (fun s => (s.live, s.context.memDesc 10)) = some ([], some (2 ^ 20)) := by decide +kernel
  obtain ⟨s, hs, hfinal⟩ := Option.map_eq_some_iff.mp hrun
  obtain ⟨hlive, hdesc⟩ := Prod.mk.inj hfinal
  have hmeets : Meets BuddyMalloc.step (fun s e => Allowed s e ∧ EventSound s e)
      (start { defaultBuddyParameter with memoryAreaSize := 1024 })
      [.malloc 100 none, .malloc 200 none, .malloc 16 none, .free (2 ^ 20 + 48),
        .free (2 ^ 20 + 560), .free (2 ^ 20 + 304)] := by decide +kernel
  exact ⟨s, hs, hlive, hdesc, (fullyCoalesced_of_sound (by decide) (by decide) (by decide)
    (reachableBy_of_execute hs hmeets)).1⟩

/-- A request of 2^63 bytes cuts the page until its descriptor is written over. -/
theorem not_fullyCoalesced_of_unsound :
    ¬ ∀ es, Meets BuddyMalloc.step Allowed (start defaultBuddyParameter) es →
      ∃ s, execute BuddyMalloc.step (start defaultBuddyParameter) es = some s ∧
        ∃ B, FullyCoalesced s B := by
  intro hall
  have hmeets : Meets BuddyMalloc.step Allowed (start defaultBuddyParameter)
      [.malloc (2 ^ 63) none] := by decide +kernel
  have hrun : (execute BuddyMalloc.step (start defaultBuddyParameter)
      [.malloc (2 ^ 63) none]).isNone = true := by decide +kernel
  obtain ⟨s, hs, -⟩ := hall _ hmeets
  rw [hs] at hrun
  cases hrun

end Ganesha.BuddyMalloc
