import Ganesha.Nlm.Requests

/-!
# What one request does to the locks of its owner
-/

namespace Ganesha.Nlm
open Library.Transition

variable {s s' : Server} {lock : Lock} {e f : Entry} {p q : ℕ}

/-- The entries of the list are allocated, and their ranges end at an offset of a file. -/
structure Ranged (s : Server) : Prop where
  listed : Listed s s.lockList
  proper : ∀ p ∈ s.lockList, (s.entry p).Proper

lemma Orderly.ranged (h : Orderly s s.lockList) : Ranged s :=
  ⟨⟨h.nodup, h.lt_next⟩, h.proper⟩

/-! ## The remainders of one entry -/

/-- Bytes are left before the range that is unlocked, of an entry that the range reaches. -/
def Entry.leftRemains (lock : Lock) (e : Entry) : Bool :=
  e.sameOwner lock && e.start < lock.offset && lock.offset ≤ rangeEnd e.start e.len

/-- Bytes are left behind the range that is unlocked, of an entry that the range reaches. -/
def Entry.rightRemains (lock : Lock) (e : Entry) : Bool :=
  e.sameOwner lock && e.start ≤ rangeEnd lock.offset lock.len &&
    rangeEnd lock.offset lock.len < rangeEnd e.start e.len

lemma lt_toNat {a b : UInt64} : a < b ↔ a.toNat < b.toNat := UInt64.lt_iff_toNat_lt

lemma le_toNat {a b : UInt64} : a ≤ b ↔ a.toNat ≤ b.toNat := UInt64.le_iff_toNat_le

/-- The pieces of an entry on both sides of a range. -/
lemma pieces_some {es : List Entry} (h : pieces e lock = some es) :
    e.start ≤ rangeEnd lock.offset lock.len ∧ lock.offset ≤ rangeEnd e.start e.len ∧
      es = (if e.start < lock.offset then [{ e with len := lock.offset - e.start }] else []) ++
        if rangeEnd lock.offset lock.len < rangeEnd e.start e.len then
          [{ e with start := rangeEnd lock.offset lock.len,
                    len := rangeEnd e.start e.len - rangeEnd lock.offset lock.len }]
        else [] := by
  simp only [pieces] at h
  by_cases hbefore : rangeEnd lock.offset lock.len < e.start
  · rw [if_pos hbefore] at h
    cases h
  by_cases hbehind : rangeEnd e.start e.len < lock.offset
  · rw [if_neg hbefore, if_pos hbehind] at h
    cases h
  rw [if_neg hbefore, if_neg hbehind] at h
  refine ⟨UInt64.not_lt.mp hbefore, UInt64.not_lt.mp hbehind, ?_⟩
  by_cases hall : lock.offset ≤ e.start ∧ rangeEnd e.start e.len ≤ rangeEnd lock.offset lock.len
  · rw [if_pos hall] at h
    rw [if_neg (UInt64.not_lt.mpr hall.1), if_neg (UInt64.not_lt.mpr hall.2), List.append_nil]
    exact (Option.some.inj h).symm
  · rw [if_neg hall] at h
    exact (Option.some.inj h).symm

lemma far_of_pieces (h : pieces e lock = none) :
    (rangeEnd lock.offset lock.len).toNat < e.start.toNat ∨
      (rangeEnd e.start e.len).toNat < lock.offset.toNat := by
  simp only [pieces] at h
  split_ifs at h with hbefore hbehind
  · exact Or.inl (lt_toNat.mp hbefore)
  · exact Or.inr (lt_toNat.mp hbehind)

/-- What is left of an entry on both sides of the unlocked range. -/
lemma pieces_cases {es : List Entry} (h : pieces e lock = some es) :
    f ∈ es ↔ (e.start < lock.offset ∧ f = { e with len := lock.offset - e.start }) ∨
      (rangeEnd lock.offset lock.len < rangeEnd e.start e.len ∧
        f = { e with start := rangeEnd lock.offset lock.len,
                     len := rangeEnd e.start e.len - rangeEnd lock.offset lock.len }) := by
  obtain ⟨-, -, rfl⟩ := pieces_some h
  rw [List.mem_append]
  apply or_congr
  · split_ifs with hlt
    · simp [hlt]
    · simp [hlt]
  · split_ifs with hlt
    · simp [hlt]
    · simp [hlt]

/-- The pieces have the bytes of the entry outside of the range. -/
lemma pieces_bytes {es : List Entry} (he : e.Proper) (hlock : lock.Sized)
    (h : pieces e lock = some es) (x : ℕ) :
    (∃ f ∈ es, x ∈ f.bytes) ↔ x ∈ e.bytes ∧ x ∉ lock.bytes := by
  have hle := he.le
  have hle' := hlock.proper.le
  obtain ⟨hbefore, hbehind, -⟩ := pieces_some h
  rw [le_toNat] at hbefore hbehind
  have hin : x ∈ lock.bytes ↔
      lock.offset.toNat ≤ x ∧ x < (rangeEnd lock.offset lock.len).toNat := Iff.rfl
  rw [hin, mem_bytes]
  constructor
  · rintro ⟨f, hf, hx⟩
    rcases (pieces_cases h).mp hf with ⟨hlt, rfl⟩ | ⟨hlt, rfl⟩
    · rw [mem_bytes, rangeEnd_sub hlt] at hx
      dsimp only at hx
      omega
    · rw [mem_bytes, rangeEnd_sub hlt] at hx
      dsimp only at hx
      omega
  · intro hx
    by_cases hleft : x < lock.offset.toNat
    · have hlt : e.start < lock.offset := lt_toNat.mpr (by omega)
      refine ⟨_, (pieces_cases h).mpr (.inl ⟨hlt, rfl⟩), ?_⟩
      rw [mem_bytes, rangeEnd_sub hlt]
      exact ⟨hx.1.1, hleft⟩
    · have hlt : rangeEnd lock.offset lock.len < rangeEnd e.start e.len := lt_toNat.mpr (by omega)
      refine ⟨_, (pieces_cases h).mpr (.inr ⟨hlt, rfl⟩), ?_⟩
      rw [mem_bytes, rangeEnd_sub hlt]
      have hstart : (rangeEnd lock.offset lock.len).toNat ≤ x := by omega
      exact ⟨hstart, hx.1.2⟩

/-- There is a piece for each side that remains. -/
lemma remains_length (hp : (s.entry p).Proper) (hlock : lock.Sized) :
    (remains s lock p).length = (if (s.entry p).leftRemains lock then 1 else 0) +
      if (s.entry p).rightRemains lock then 1 else 0 := by
  have hle := hp.le
  have hle' := hlock.proper.le
  unfold remains Entry.leftRemains Entry.rightRemains
  generalize s.entry p = e at *
  by_cases howner : e.sameOwner lock
  swap
  · simp [howner]
  simp only [howner, if_true, decide_true, Bool.true_and, Bool.and_eq_true, decide_eq_true_eq,
    lt_toNat, le_toNat]
  cases hpieces : pieces e lock with
  | none =>
    have hfar := far_of_pieces hpieces
    rw [if_neg (by omega), if_neg (by omega)]
    rfl
  | some es =>
    obtain ⟨hbefore, hbehind, rfl⟩ := pieces_some hpieces
    rw [le_toNat] at hbefore hbehind
    rw [Option.getD_some, List.length_append]
    simp only [hbefore, hbehind, and_true, true_and, lt_toNat]
    congr 1
    · split_ifs
      · rfl
      · rfl
    · split_ifs
      · rfl
      · rfl

/-! ## The list after an unlock -/

/-- The entries of the list. -/
def entriesOf (s : Server) : List Entry := s.lockList.map s.entry

/-- A sublist is determined by its members. -/
lemma eq_filter_of_mem_iff {l l' : List ℕ} {P : ℕ → Bool} (hnodup : l.Nodup) (hsub : l'.Sublist l)
    (hmem : ∀ q, q ∈ l' ↔ q ∈ l ∧ P q = true) : l' = l.filter P := by
  have hperm : l'.Perm (l.filter P) := by
    rw [List.perm_ext_iff_of_nodup (hnodup.sublist hsub) (hnodup.filter P)]
    intro q
    rw [hmem, List.mem_filter]
  have hfilter : l'.filter P = l' :=
    List.filter_eq_self.mpr fun q hq => ((hmem q).mp hq).2
  have hsub' : l'.Sublist (l.filter P) := hfilter ▸ hsub.filter P
  exact hsub'.eq_of_length hperm.length_eq

instance (p : ℕ) : Decidable (Reached s lock p) := inferInstanceAs (Decidable (_ ∧ _))

/-- The entries that the range does not reach stay, and the pieces come behind them, unless there is
one piece. -/
lemma entriesOf_deleteLockEntry (lock : Lock) (h : Listed s s.lockList) :
    entriesOf (deleteLockEntry s lock) =
      (s.lockList.filter fun p => ¬ Reached s lock p).map s.entry ++
        if (s.lockList.flatMap (remains s lock)).length ≤ 1 then []
        else s.lockList.flatMap (remains s lock) := by
  have hstart : Listed s (s.lockList ++ []) := by simpa using h
  have hloop : Deletes lock s.lockList s _ [] _ :=
    deletes_deleteLoop hstart (fun _ hp => hp) h.nodup
  obtain ⟨new, hsplit, -, hmap⟩ := hloop.new
  rw [List.nil_append] at hsplit
  have hlength : (s.lockList.flatMap (remains s lock)).length = new.length := by
    rw [← hmap, List.length_map]
  have hold : (deleteLoop lock s.lockList s []).1.lockList =
      s.lockList.filter fun p => ¬ Reached s lock p := by
    refine eq_filter_of_mem_iff h.nodup hloop.sublist fun q => ?_
    rw [hloop.mem_iff, decide_eq_true_eq]
    constructor
    · intro hq
      exact ⟨hq.1, fun hr => hq.2 ⟨hq.1, hr⟩⟩
    · intro hq
      exact ⟨hq.1, fun hr => hq.2 hr.2⟩
  have hkept : (s.lockList.filter fun p => ¬ Reached s lock p).map
      (deleteLoop lock s.lockList s []).1.entry =
      (s.lockList.filter fun p => ¬ Reached s lock p).map s.entry := by
    refine List.map_congr_left fun q hq => hloop.entry q (h.lt_next q ?_)
    exact (List.mem_filter.mp hq).1
  unfold entriesOf
  show (glistAddListTail _ (deleteLoop lock s.lockList s []).2).map
    (deleteLoop lock s.lockList s []).1.entry = _
  rw [hsplit, hold, hlength, glistAddListTail]
  split_ifs
  · rw [hkept, List.append_nil]
  · rw [List.map_append, hkept, hmap]

/-! ## The bytes of an owner -/

/-- The bytes of the entries of an owner on a file, of one mode. -/
def covered (s : Server) (lock : Lock) (exclusive : Bool) : Set ℕ :=
  {x | ∃ e ∈ entriesOf s, e.sameOwner lock ∧ e.exclusive = exclusive ∧ x ∈ e.bytes}

/-- The entries of other owners and of other files. -/
def others (s : Server) (lock : Lock) : List Entry :=
  (entriesOf s).filter fun e => ¬ e.sameOwner lock

/-- An unlock takes the bytes of the range from the owner, and leaves the rest. -/
def UnlockLaw (s : Server) (lock : Lock) : Prop :=
  (∀ exclusive, covered (deleteLockEntry s lock) lock exclusive =
      covered s lock exclusive \ lock.bytes) ∧
    others (deleteLockEntry s lock) lock = others s lock

lemma same_of_mem_remains (hf : f ∈ remains s lock p) :
    f.sameOwner lock ∧ f.exclusive = (s.entry p).exclusive ∧ Reached s lock p := by
  obtain ⟨hr, start, len, rfl⟩ := mem_remains hf
  exact ⟨hr.1, rfl, hr⟩

lemma remains_bytes (hp : (s.entry p).Proper) (hlock : lock.Sized) (hr : Reached s lock p) (x : ℕ) :
    (∃ f ∈ remains s lock p, x ∈ f.bytes) ↔ x ∈ (s.entry p).bytes ∧ x ∉ lock.bytes := by
  obtain ⟨howner, hpieces⟩ := hr
  obtain ⟨es, hes⟩ := Option.ne_none_iff_exists'.mp hpieces
  unfold remains
  rw [if_pos howner, hes, Option.getD_some]
  exact pieces_bytes hp hlock hes x

/-- The bytes that should be left are those of the entries that the range does not reach, and those of
the pieces. -/
lemma mem_covered_diff (h : Ranged s) (hlock : lock.Sized) (exclusive : Bool) (x : ℕ) :
    x ∈ covered s lock exclusive \ lock.bytes ↔
      (∃ e ∈ (s.lockList.filter fun p => ¬ Reached s lock p).map s.entry,
        e.sameOwner lock ∧ e.exclusive = exclusive ∧ x ∈ e.bytes) ∨
      ∃ e ∈ s.lockList.flatMap (remains s lock),
        e.sameOwner lock ∧ e.exclusive = exclusive ∧ x ∈ e.bytes := by
  constructor
  · rintro ⟨⟨e, he, howner, hmode, hx⟩, hlockx⟩
    obtain ⟨p, hp, rfl⟩ := List.mem_map.mp he
    by_cases hr : Reached s lock p
    · right
      obtain ⟨f, hf, hfx⟩ := (remains_bytes (h.proper p hp) hlock hr x).mpr ⟨hx, hlockx⟩
      have hsame := same_of_mem_remains hf
      exact ⟨f, List.mem_flatMap.mpr ⟨p, hp, hf⟩, hsame.1, hsame.2.1.trans hmode, hfx⟩
    · left
      refine ⟨s.entry p, List.mem_map_of_mem (List.mem_filter.mpr ⟨hp, ?_⟩), howner, hmode, hx⟩
      exact decide_eq_true hr
  · rintro (⟨e, he, howner, hmode, hx⟩ | ⟨f, hf, howner, hmode, hx⟩)
    · obtain ⟨p, hp, rfl⟩ := List.mem_map.mp he
      obtain ⟨hp, hr⟩ := List.mem_filter.mp hp
      refine ⟨⟨s.entry p, List.mem_map_of_mem hp, howner, hmode, hx⟩, ?_⟩
      have hpieces : pieces (s.entry p) lock = none := by
        by_contra hsome
        exact of_decide_eq_true hr ⟨howner, hsome⟩
      intro hlockx
      obtain ⟨hstart, hstop⟩ := hx
      obtain ⟨hoffset, hstop'⟩ := hlockx
      have hfar := far_of_pieces hpieces
      omega
    · obtain ⟨p, hp, hf⟩ := List.mem_flatMap.mp hf
      have hsame := same_of_mem_remains hf
      obtain ⟨hbytes, hlockx⟩ :=
        (remains_bytes (h.proper p hp) hlock hsame.2.2 x).mp ⟨f, hf, hx⟩
      exact ⟨⟨s.entry p, List.mem_map_of_mem hp, hsame.2.2.1, hsame.2.1.symm.trans hmode, hbytes⟩,
        hlockx⟩

/-- The entries of other owners stay. -/
lemma others_deleteLockEntry (h : Ranged s) :
    others (deleteLockEntry s lock) lock = others s lock := by
  unfold others
  rw [entriesOf_deleteLockEntry lock h.listed, List.filter_append]
  have hpieces : (s.lockList.flatMap (remains s lock)).filter
      (fun e => decide (¬ e.sameOwner lock)) = [] := by
    rw [List.filter_eq_nil_iff]
    intro f hf
    obtain ⟨p, -, hf⟩ := List.mem_flatMap.mp hf
    simpa using (same_of_mem_remains hf).1
  have hnone : (if (s.lockList.flatMap (remains s lock)).length ≤ 1 then []
      else s.lockList.flatMap (remains s lock)).filter (fun e => decide (¬ e.sameOwner lock)) = [] := by
    split_ifs
    · rfl
    · exact hpieces
  rw [hnone, List.append_nil, entriesOf, List.filter_map, List.filter_map, List.filter_filter]
  congr 1
  refine List.filter_congr fun p _ => ?_
  by_cases howner : (s.entry p).sameOwner lock
  · simp [howner]
  · have hr : ¬ Reached s lock p := fun hr => howner hr.1
    simp [howner, hr]

/-- How many pieces are left. -/
lemma flatMap_remains_length {l : List ℕ} (hl : ∀ p ∈ l, (s.entry p).Proper) (hlock : lock.Sized) :
    (l.flatMap (remains s lock)).length =
      (l.map s.entry).countP (Entry.leftRemains lock) +
        (l.map s.entry).countP (Entry.rightRemains lock) := by
  induction l with
  | nil => rfl
  | cons p ps ih =>
    have hps := ih fun q hq => hl q (List.mem_cons_of_mem _ hq)
    rw [List.flatMap_cons, List.length_append, hps, remains_length (hl p List.mem_cons_self) hlock,
      List.map_cons, List.countP_cons, List.countP_cons]
    omega

/-- A piece that is not put back has a byte that is in no entry of its owner. -/
lemma exists_lost_byte (hlock : lock.Sized)
    (hf : f ∈ s.lockList.flatMap (remains s lock)) :
    ∃ x ∈ f.bytes, ∀ p ∈ s.lockList, ¬ Reached s lock p → (s.entry p).sameOwner lock →
      x ∉ (s.entry p).bytes := by
  have hle := hlock.proper.le
  have hfar : ∀ p, ¬ Reached s lock p → (s.entry p).sameOwner lock →
      (rangeEnd lock.offset lock.len).toNat < (s.entry p).start.toNat ∨
        (rangeEnd (s.entry p).start (s.entry p).len).toNat < lock.offset.toNat := by
    intro p hr howner
    apply far_of_pieces
    by_contra hsome
    exact hr ⟨howner, hsome⟩
  obtain ⟨p, hp, hf⟩ := List.mem_flatMap.mp hf
  obtain ⟨howner, hpieces⟩ := (same_of_mem_remains hf).2.2
  obtain ⟨es, hes⟩ := Option.ne_none_iff_exists'.mp hpieces
  rw [remains, if_pos howner, hes, Option.getD_some] at hf
  rcases (pieces_cases hes).mp hf with ⟨hlt, rfl⟩ | ⟨hlt, rfl⟩
  · have hlt' := lt_toNat.mp hlt
    refine ⟨lock.offset.toNat - 1, ?_, fun q _ hr howner hx => ?_⟩
    · rw [mem_bytes, rangeEnd_sub hlt]
      dsimp only
      omega
    · have hfar := hfar q hr howner
      rw [mem_bytes] at hx
      omega
  · have hlt' := lt_toNat.mp hlt
    refine ⟨(rangeEnd lock.offset lock.len).toNat, ?_, fun q _ hr howner hx => ?_⟩
    · rw [mem_bytes, rangeEnd_sub hlt]
      dsimp only
      omega
    · have hfar := hfar q hr howner
      rw [mem_bytes] at hx
      omega

/-- After an unlock the owner has exactly the bytes that are not in the range, and others have what
they had, if and only if there is not one remainder in all the entries that are cut: one alone is
lost. -/
theorem unlockLaw_iff {s : Server} {lock : Lock} (h : Ranged s) (hlock : lock.Sized) :
    UnlockLaw s lock ↔
      (entriesOf s).countP (Entry.leftRemains lock) +
        (entriesOf s).countP (Entry.rightRemains lock) ≠ 1 := by
  have hcount : (s.lockList.flatMap (remains s lock)).length =
      (entriesOf s).countP (Entry.leftRemains lock) +
        (entriesOf s).countP (Entry.rightRemains lock) := flatMap_remains_length h.proper hlock
  have hentries := entriesOf_deleteLockEntry lock h.listed
  rw [← hcount]
  constructor
  · rintro ⟨hcovered, -⟩ hone
    obtain ⟨f, hpieces⟩ := List.length_eq_one_iff.mp hone
    have hf : f ∈ s.lockList.flatMap (remains s lock) := by
      rw [hpieces]
      exact List.mem_singleton_self f
    obtain ⟨x, hx, hlost⟩ := exists_lost_byte hlock hf
    obtain ⟨p, -, hfp⟩ := List.mem_flatMap.mp hf
    have hsame := same_of_mem_remains hfp
    -- the byte should be left, and no entry of the new list has it
    have hleft : x ∈ covered (deleteLockEntry s lock) lock f.exclusive := by
      rw [hcovered]
      exact (mem_covered_diff h hlock _ x).mpr (.inr ⟨f, hf, hsame.1, rfl, hx⟩)
    obtain ⟨e, he, howner, -, hxe⟩ := hleft
    rw [hentries, if_pos hone.le, List.append_nil] at he
    obtain ⟨q, hq, rfl⟩ := List.mem_map.mp he
    obtain ⟨hq, hr⟩ := List.mem_filter.mp hq
    exact hlost q hq (of_decide_eq_true hr) howner hxe
  · intro hne
    refine ⟨fun exclusive => ?_, others_deleteLockEntry h⟩
    ext x
    rw [mem_covered_diff h hlock]
    unfold covered
    rw [hentries]
    have hall : (if (s.lockList.flatMap (remains s lock)).length ≤ 1 then []
        else s.lockList.flatMap (remains s lock)) = s.lockList.flatMap (remains s lock) := by
      split_ifs with hle
      · have hzero : (s.lockList.flatMap (remains s lock)).length = 0 := by omega
        exact (List.length_eq_zero_iff.mp hzero).symm
      · rfl
    rw [hall]
    simp only [Set.mem_ofPred_eq, List.mem_append, or_and_right, exists_or]

/-- The bytes 0 to 99 of a file, and the bytes 10 to 19 are unlocked: both remainders stay. -/
theorem unlockLaw_of_middle :
    ∃ s, execute step initial [.addToLocklist (sampleArgs 1 0 100 true) true] = some s ∧
      UnlockLaw s (sampleArgs 1 10 10 true).alock := by
  have hstep : step initial (.addToLocklist (sampleArgs 1 0 100 true) true) = some _ := rfl
  have hranged := (orderly_initial.step (by decide) hstep).ranged
  exact ⟨_, rfl, (unlockLaw_iff hranged (by decide)).mpr (by decide +kernel)⟩

/-- The bytes 0 to 9 are unlocked, and the owner has lost the other 90 as well. -/
theorem not_unlockLaw_of_head :
    ∃ s, execute step initial [.addToLocklist (sampleArgs 1 0 100 true) true] = some s ∧
      ¬ UnlockLaw s (sampleArgs 1 0 10 true).alock := by
  refine ⟨_, rfl, fun h => ?_⟩
  have hkeeps : (50 : ℕ) ∈ covered (addToLocklist initial (sampleArgs 1 0 100 true) true).1
      (sampleArgs 1 0 10 true).alock true \ (sampleArgs 1 0 10 true).alock.bytes := by
    refine ⟨⟨_, List.mem_cons_self, by decide, rfl, by decide, by decide⟩, ?_⟩
    rintro ⟨-, hstop⟩
    exact absurd hstop (by decide)
  rw [← h.1 true] at hkeeps
  obtain ⟨e, he, -⟩ := hkeeps
  cases he

/-! ## The entry that a request is given -/

/-- The entry is a blocked request for this range and mode, of whatever owner. -/
def Entry.sameRequest (e : Entry) (arg : LockArgs) : Prop :=
  e.fh = arg.alock.fh ∧ e.state = .blocked ∧ e.start = arg.alock.offset ∧ e.len = arg.alock.len ∧
    e.exclusive = arg.exclusive

instance (e : Entry) (arg : LockArgs) : Decidable (e.sameRequest arg) :=
  inferInstanceAs (Decidable (_ ∧ _))

/-- The entries of an owner on a file. -/
def owned (s : Server) (lock : Lock) : List Entry := (entriesOf s).filter fun e => e.sameOwner lock

/-- A request of the owner that is the same is recorded as blocked. -/
def AlreadyBlocked (s : Server) (arg : LockArgs) : Prop :=
  ∃ e ∈ owned s arg.alock, e.sameRequest arg

instance (arg : LockArgs) : Decidable (AlreadyBlocked s arg) :=
  inferInstanceAs (Decidable (∃ e ∈ owned s arg.alock, e.sameRequest arg))

/-- A request is given an entry of its owner with its range and mode, which is a new one unless the
request is recorded already; the entries of others stay. Without memory there is no entry. -/
structure RequestLaw (s : Server) (arg : LockArgs) (allocOk : Bool) : Prop where
  entry : ∀ p, (addToLocklist s arg allocOk).2 = some p →
    p ∈ (addToLocklist s arg allocOk).1.lockList ∧
      ((addToLocklist s arg allocOk).1.entry p).sameOwner arg.alock ∧
      ((addToLocklist s arg allocOk).1.entry p).start = arg.alock.offset ∧
      ((addToLocklist s arg allocOk).1.entry p).len = arg.alock.len ∧
      ((addToLocklist s arg allocOk).1.entry p).exclusive = arg.exclusive
  refused : (addToLocklist s arg allocOk).2 = none → allocOk = false
  count : (owned (addToLocklist s arg allocOk).1 arg.alock).length =
    (owned s arg.alock).length +
      if (addToLocklist s arg allocOk).2 = none ∨ AlreadyBlocked s arg then 0 else 1
  others : others (addToLocklist s arg allocOk).1 arg.alock = others s arg.alock

lemma toEntry_sameOwner (arg : LockArgs) (state : LockState) :
    (arg.toEntry state).sameOwner arg.alock := ⟨rfl, rfl, rfl, rfl⟩

lemma entriesOf_create (e : Entry) (refs : ℤ) (h : Listed s s.lockList) :
    entriesOf { create s e refs with lockList := s.lockList ++ [s.next] } = entriesOf s ++ [e] := by
  unfold entriesOf
  rw [List.map_append, List.map_singleton]
  congr 1
  · exact List.map_congr_left fun p hp => Function.update_of_ne (h.lt_next p hp).ne ..
  · rw [create_entry_next]

/-- The blocked request that is found is the first one in the list. -/
lemma blockedRequest_eq_some {arg : LockArgs} :
    blockedRequest s arg = some p ↔ (s.entry p).sameRequest arg ∧
      ∃ pre post, s.lockList = pre ++ p :: post ∧ ∀ q ∈ pre, ¬ (s.entry q).sameRequest arg := by
  unfold blockedRequest
  rw [List.find?_eq_some_iff_append, decide_eq_true_eq]
  apply and_congr Iff.rfl
  constructor
  · rintro ⟨pre, post, hlist, hpre⟩
    refine ⟨pre, post, hlist, fun q hq hreq => ?_⟩
    have hno := hpre q hq
    rw [Bool.not_eq_true', decide_eq_false_iff_not] at hno
    exact hno hreq
  · rintro ⟨pre, post, hlist, hpre⟩
    refine ⟨pre, post, hlist, fun q hq => ?_⟩
    rw [Bool.not_eq_true', decide_eq_false_iff_not]
    exact hpre q hq

/-- The entry that `nlm_add_to_locklist` returns is one of the owner that asks, with the range that
it asks for, if and only if the first blocked request on the list for this range and mode, if there
is one, is of this owner. -/
theorem requestLaw_iff {s : Server} {arg : LockArgs} {allocOk : Bool} (h : Listed s s.lockList) :
    RequestLaw s arg allocOk ↔
      ∀ pre p post, s.lockList = pre ++ p :: post → (s.entry p).sameRequest arg →
        (∀ q ∈ pre, ¬ (s.entry q).sameRequest arg) → (s.entry p).sameOwner arg.alock := by
  constructor
  · intro hlaw pre p post hlist hreq hpre
    -- the request that is blocked and equal is found first
    have hfound : blockedRequest s arg = some p :=
      blockedRequest_eq_some.mpr ⟨hreq, pre, post, hlist, hpre⟩
    have hadd : addToLocklist s arg allocOk = (incRef s p, some p) := by
      unfold addToLocklist
      rw [hfound]
    have hentry := hlaw.entry p
    rw [hadd] at hentry
    exact (hentry rfl).2.1
  · intro hfirst
    cases hfound : blockedRequest s arg with
    | some p =>
      have hadd : addToLocklist s arg allocOk = (incRef s p, some p) := by
        unfold addToLocklist
        rw [hfound]
      obtain ⟨hreq, pre, post, hlist, hpre⟩ := blockedRequest_eq_some.mp hfound
      have howner := hfirst pre p post hlist hreq hpre
      have hp : p ∈ s.lockList := by
        rw [hlist]
        exact List.mem_append_right _ List.mem_cons_self
      have hblocked : AlreadyBlocked s arg := by
        refine ⟨s.entry p, List.mem_filter.mpr ⟨List.mem_map_of_mem hp, ?_⟩, hreq⟩
        exact decide_eq_true howner
      constructor
      all_goals rw [hadd]
      · intro q hq
        rw [← Option.some.inj hq]
        exact ⟨hp, howner, hreq.2.2.1, hreq.2.2.2.1, hreq.2.2.2.2⟩
      · intro hnone
        cases hnone
      · rw [if_pos (Or.inr hblocked)]
        rfl
      · rfl
    | none =>
      have hnew : ¬ AlreadyBlocked s arg := by
        rintro ⟨e, he, hreq⟩
        obtain ⟨p, hp, rfl⟩ := List.mem_map.mp (List.mem_filter.mp he).1
        have hno := List.find?_eq_none.mp hfound p hp
        exact hno (decide_eq_true hreq)
      cases allocOk with
      | false =>
        have hadd : addToLocklist s arg false = (s, none) := by
          unfold addToLocklist
          rw [hfound]
          rfl
        constructor
        all_goals rw [hadd]
        · intro q hq
          cases hq
        · intro _
          rfl
        · rw [if_pos (Or.inl rfl)]
          rfl
      | true =>
        obtain ⟨state, hadd⟩ : ∃ state, addToLocklist s arg true =
            ({ create s (arg.toEntry state) 2 with lockList := s.lockList ++ [s.next] },
              some s.next) := by
          unfold addToLocklist
          rw [hfound]
          exact ⟨_, rfl⟩
        have howner := toEntry_sameOwner arg state
        have hentries := entriesOf_create (arg.toEntry state) 2 h
        constructor
        all_goals rw [hadd]
        · intro q hq
          rw [← Option.some.inj hq]
          refine ⟨List.mem_append_right _ (List.mem_singleton_self _), ?_⟩
          show ((create s (arg.toEntry state) 2).entry s.next).sameOwner arg.alock ∧
            ((create s (arg.toEntry state) 2).entry s.next).start = arg.alock.offset ∧
            ((create s (arg.toEntry state) 2).entry s.next).len = arg.alock.len ∧
            ((create s (arg.toEntry state) 2).entry s.next).exclusive = arg.exclusive
          rw [create_entry_next]
          exact ⟨howner, rfl, rfl, rfl⟩
        · intro hnone
          cases hnone
        · rw [if_neg (by simpa using hnew), owned, hentries, List.filter_append, List.length_append]
          simp [owned, howner]
        · rw [others, hentries, List.filter_append]
          simp [others, howner]

/-- Two requests of one client for the same range, the second one the same as the first. -/
theorem requestLaw_of_retransmission :
    ∃ s, execute step initial [.addToLocklist (sampleArgs 1 0 10 true) true,
        .addToLocklist (sampleArgs 2 0 10 true) true] = some s ∧
      RequestLaw s (sampleArgs 2 0 10 true) true := by
  have hown : ∀ s, execute step initial [.addToLocklist (sampleArgs 1 0 10 true) true,
      .addToLocklist (sampleArgs 2 0 10 true) true] = some s →
      ∀ p ∈ s.lockList, (s.entry p).sameRequest (sampleArgs 2 0 10 true) →
        (s.entry p).sameOwner (sampleArgs 2 0 10 true).alock := by
    intro s hs
    rw [← Option.some.inj hs]
    decide +kernel
  refine ⟨_, rfl, (requestLaw_iff ⟨by decide +kernel, by decide +kernel⟩).mpr ?_⟩
  intro pre p post hlist hreq _
  refine hown _ rfl p ?_ hreq
  rw [hlist]
  exact List.mem_append_right _ List.mem_cons_self

/-- Three clients ask for the same range, and the third is given the entry of the second. -/
theorem not_requestLaw_of_contention :
    ∃ s, execute step initial [.addToLocklist (sampleArgs 1 0 10 true) true,
        .addToLocklist (sampleArgs 2 0 10 true) true] = some s ∧
      ¬ RequestLaw s (sampleArgs 3 0 10 true) true := by
  refine ⟨_, rfl, fun h => ?_⟩
  have howner := (h.entry 1 (by decide +kernel)).2.1
  exact absurd howner (by decide +kernel)

end Ganesha.Nlm
