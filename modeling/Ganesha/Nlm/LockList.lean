import Mathlib
import Ganesha.Nlm.Common
import Ganesha.Library.Transition

/-!
# Granted locks do not conflict
-/

namespace Ganesha.Nlm
open Library.Transition

/-! ## Ranges -/

/-- The bytes of the file that an entry is about. -/
def Entry.bytes (e : Entry) : Set ℕ := {b | e.start.toNat ≤ b ∧ b < (rangeEnd e.start e.len).toNat}

variable {e : Entry}

lemma mem_bytes {x : ℕ} :
    x ∈ e.bytes ↔ e.start.toNat ≤ x ∧ x < (rangeEnd e.start e.len).toNat := Iff.rfl

/-- The bytes of the file that a request is about. -/
def Lock.bytes (lock : Lock) : Set ℕ :=
  {b | lock.offset.toNat ≤ b ∧ b < (rangeEnd lock.offset lock.len).toNat}

/-- The end of the range is an offset of a file. -/
def Lock.Sized (lock : Lock) : Prop := lock.offset.toNat + lock.len.toNat ≤ 2 ^ 64 - 1

instance (lock : Lock) : Decidable lock.Sized := inferInstanceAs (Decidable (_ ≤ _))

/-- A range that begins before the largest offset. -/
def Lock.Fits (lock : Lock) : Prop := lock.offset.toNat < 2 ^ 64 - 1 ∧ lock.Sized

instance (lock : Lock) : Decidable lock.Fits := inferInstanceAs (Decidable (_ ∧ _))

/-- Two locks that can be granted together. -/
def Compatible (e f : Entry) : Prop := Disjoint e.bytes f.bytes ∨ ¬ e.exclusive ∧ ¬ f.exclusive

variable {f : Entry}

lemma Compatible.symm (h : Compatible e f) : Compatible f e :=
  h.imp (fun hd => hd.symm) And.symm

/-- A range is not empty, or it is at the largest offset. -/
def Proper (start stop : UInt64) : Prop := start < stop ∨ start = 0xFFFFFFFFFFFFFFFF ∧ stop = start

lemma Proper.le {start stop : UInt64} (h : Proper start stop) : start.toNat ≤ stop.toNat := by
  rcases h with h | ⟨-, h⟩
  · rw [UInt64.lt_iff_toNat_lt] at h
    omega
  · rw [h]

/-- A lock with a length has a byte. -/
lemma Lock.Sized.proper {lock : Lock} (h : lock.Sized) :
    Proper lock.offset (rangeEnd lock.offset lock.len) := by
  unfold Lock.Sized at h
  unfold Proper rangeEnd
  split_ifs with hlen
  · left
    have hpos : lock.len.toNat ≠ 0 := fun h0 => hlen (UInt64.toNat_inj.mp h0)
    rw [UInt64.lt_iff_toNat_lt, UInt64.toNat_add, Nat.mod_eq_of_lt (by omega)]
    omega
  · have hmax : (0xFFFFFFFFFFFFFFFF : UInt64).toNat = 2 ^ 64 - 1 := by decide
    by_cases hlast : lock.offset = 0xFFFFFFFFFFFFFFFF
    · exact Or.inr ⟨hlast, hlast.symm⟩
    · left
      have hne : lock.offset.toNat ≠ 2 ^ 64 - 1 := fun h0 => hlast (UInt64.toNat_inj.mp (h0.trans hmax.symm))
      rw [UInt64.lt_iff_toNat_lt, hmax]
      omega

/-- Two ranges meet if each begins before the end of the other. -/
lemma exists_byte_iff {a b c d : UInt64} (hab : Proper a b) (hcd : Proper c d) :
    (∃ x, (a.toNat ≤ x ∧ x < b.toNat) ∧ c.toNat ≤ x ∧ x < d.toNat) ↔ c < b ∧ a < d := by
  have hmax : (0xFFFFFFFFFFFFFFFF : UInt64).toNat = 2 ^ 64 - 1 := by decide
  have hb := b.toNat_lt
  have hd := d.toNat_lt
  rw [UInt64.lt_iff_toNat_lt, UInt64.lt_iff_toNat_lt]
  constructor
  · rintro ⟨x, hx, hx'⟩
    omega
  · intro h
    have hab' : a.toNat < b.toNat := by
      rcases hab with hab | ⟨ha, -⟩
      · exact UInt64.lt_iff_toNat_lt.mp hab
      · rw [ha, hmax] at h
        omega
    have hcd' : c.toNat < d.toNat := by
      rcases hcd with hcd | ⟨hc, -⟩
      · exact UInt64.lt_iff_toNat_lt.mp hcd
      · rw [hc, hmax] at h
        omega
    refine ⟨max a.toNat c.toNat, ?_⟩
    omega

/-- The range of the entry is one that can be asked for. -/
def Entry.Proper (e : Entry) : Prop := Nlm.Proper e.start (rangeEnd e.start e.len)

/-- The test of the source. -/
lemma conflicts_iff (he : e.Proper) (hf : f.Proper) :
    conflicts e f.lock f.exclusive = true ↔ ¬ Compatible e f := by
  have hbytes : ¬ Disjoint e.bytes f.bytes ↔
      f.start < rangeEnd e.start e.len ∧ e.start < rangeEnd f.start f.len := by
    rw [Set.not_disjoint_iff, ← exists_byte_iff he hf]
    rfl
  unfold conflicts Compatible Entry.lock
  rw [not_or, hbytes]
  simp only [Bool.and_eq_true, Bool.or_eq_true, decide_eq_true_eq]
  tauto

/-! ## Pieces of a range -/

/-- What is left of an entry: a part of its range, and all else as it was. -/
structure PartOf (f e : Entry) : Prop where
  fh : f.fh = e.fh
  callerName : f.callerName = e.callerName
  oh : f.oh = e.oh
  svid : f.svid = e.svid
  state : f.state = e.state
  exclusive : f.exclusive = e.exclusive
  proper : f.Proper
  bytes : f.bytes ⊆ e.bytes

/-- The end of a range between two offsets. -/
lemma rangeEnd_sub {a b : UInt64} (h : a < b) : rangeEnd a (b - a) = b := by
  have hne : b - a ≠ 0 := by
    intro h0
    have hcancel := UInt64.sub_add_cancel b a
    rw [h0, UInt64.zero_add] at hcancel
    exact absurd (hcancel ▸ h) (by simp)
  unfold rangeEnd
  rw [if_pos hne, UInt64.add_comm, UInt64.sub_add_cancel]

/-- What is before the range is a part of the entry. -/
lemma partOf_left {offset : UInt64} (hstart : e.start < offset) (hend : offset ≤ rangeEnd e.start e.len) :
    PartOf { e with len := offset - e.start } e where
  fh := rfl
  callerName := rfl
  oh := rfl
  svid := rfl
  state := rfl
  exclusive := rfl
  proper := by
    unfold Entry.Proper
    rw [rangeEnd_sub hstart]
    exact Or.inl hstart
  bytes := by
    intro x hx
    rw [mem_bytes, rangeEnd_sub hstart] at hx
    rw [UInt64.le_iff_toNat_le] at hend
    exact ⟨hx.1, by omega⟩

/-- So is what is behind it. -/
lemma partOf_right {lockEnd : UInt64} (hstart : e.start ≤ lockEnd) (hend : lockEnd < rangeEnd e.start e.len) :
    PartOf { e with start := lockEnd, len := rangeEnd e.start e.len - lockEnd } e where
  fh := rfl
  callerName := rfl
  oh := rfl
  svid := rfl
  state := rfl
  exclusive := rfl
  proper := by
    unfold Entry.Proper
    rw [rangeEnd_sub hend]
    exact Or.inl hend
  bytes := by
    intro x hx
    rw [mem_bytes, rangeEnd_sub hend] at hx
    rw [UInt64.le_iff_toNat_le] at hstart
    exact ⟨hstart.trans hx.1, hx.2⟩

variable {es : List Entry}

/-- The pieces of an entry are parts of it without the range that is unlocked, and have no byte in
common. -/
lemma pieces_spec {lock : Lock} (hlock : Proper lock.offset (rangeEnd lock.offset lock.len))
    (h : pieces e lock = some es) :
    (∀ f ∈ es, PartOf f e) ∧ es.Pairwise fun f g => Disjoint f.bytes g.bytes := by
  simp only [pieces] at h
  -- the ranges meet, as the entry is taken apart
  by_cases hbefore : rangeEnd lock.offset lock.len < e.start
  · rw [if_pos hbefore] at h
    exact absurd h (by simp)
  by_cases hbehind : rangeEnd e.start e.len < lock.offset
  · rw [if_neg hbefore, if_pos hbehind] at h
    exact absurd h (by simp)
  rw [if_neg hbefore, if_neg hbehind] at h
  by_cases hall : lock.offset ≤ e.start ∧ rangeEnd e.start e.len ≤ rangeEnd lock.offset lock.len
  · rw [if_pos hall] at h
    rw [← Option.some.inj h]
    exact ⟨by simp, List.Pairwise.nil⟩
  rw [if_neg hall] at h
  rw [← Option.some.inj h]
  rw [UInt64.not_lt] at hbefore hbehind
  -- the pieces in front of the range and behind it
  have hleft : ∀ f ∈ (if e.start < lock.offset then [{ e with len := lock.offset - e.start }] else []),
      PartOf f e ∧ ∀ x ∈ f.bytes, x < lock.offset.toNat := by
    intro f hf
    split_ifs at hf with hlt
    · rw [List.mem_singleton.mp hf]
      refine ⟨partOf_left hlt hbehind, fun x hx => ?_⟩
      rw [mem_bytes, rangeEnd_sub hlt] at hx
      exact hx.2
    · exact absurd hf (by simp)
  have hright : ∀ f ∈ (if rangeEnd lock.offset lock.len < rangeEnd e.start e.len then
      [{ e with start := rangeEnd lock.offset lock.len,
                len := rangeEnd e.start e.len - rangeEnd lock.offset lock.len }] else []),
      PartOf f e ∧ ∀ x ∈ f.bytes, (rangeEnd lock.offset lock.len).toNat ≤ x := by
    intro f hf
    split_ifs at hf with hlt
    · rw [List.mem_singleton.mp hf]
      exact ⟨partOf_right hbefore hlt, fun x hx => hx.1⟩
    · exact absurd hf (by simp)
  have hle := hlock.le
  constructor
  · intro f hf
    rcases List.mem_append.mp hf with hf | hf
    · exact (hleft f hf).1
    · exact (hright f hf).1
  · refine List.pairwise_append.mpr ⟨?_, ?_, fun f hf g hg => ?_⟩
    · split_ifs
      · exact List.pairwise_singleton _ _
      · exact List.Pairwise.nil
    · split_ifs
      · exact List.pairwise_singleton _ _
      · exact List.Pairwise.nil
    · rw [Set.disjoint_left]
      intro x hx hx'
      have hx := (hleft f hf).2 x hx
      have hx' := (hright g hg).2 x hx'
      omega

/-! ## The list -/

/-- The entries of a list: they are allocated, their ranges are not empty, and those granted for one
file are compatible. -/
structure Orderly (s : Server) (l : List ℕ) : Prop where
  nodup : l.Nodup
  lt_next : ∀ p ∈ l, p < s.next
  proper : ∀ p ∈ l, (s.entry p).Proper
  compatible : ∀ p ∈ l, ∀ q ∈ l, p ≠ q → (s.entry p).fh = (s.entry q).fh →
    (s.entry p).state = .granted → (s.entry q).state = .granted →
    Compatible (s.entry p) (s.entry q)

variable {s s' : Server} {l l' : List ℕ} {p q : ℕ} {lock : Lock}

lemma Orderly.of_subset (h : Orderly s l) (hnodup : l'.Nodup) (hsub : l' ⊆ l) : Orderly s l' where
  nodup := hnodup
  lt_next p hp := h.lt_next p (hsub hp)
  proper p hp := h.proper p (hsub hp)
  compatible p hp q hq := h.compatible p (hsub hp) q (hsub hq)

lemma Orderly.erase (h : Orderly s l) : Orderly s (l.erase p) :=
  h.of_subset (h.nodup.erase p) List.erase_subset

/-- Entries of the list stay. -/
lemma Orderly.congr (h : Orderly s l) (hentry : ∀ p ∈ l, s'.entry p = s.entry p)
    (hnext : s.next ≤ s'.next) : Orderly s' l where
  nodup := h.nodup
  lt_next p hp := (h.lt_next p hp).trans_le hnext
  proper p hp := by
    rw [hentry p hp]
    exact h.proper p hp
  compatible p hp q hq := by
    rw [hentry p hp, hentry q hq]
    exact h.compatible p hp q hq

@[simp] lemma incRef_entry : (incRef s p).entry = s.entry := rfl
@[simp] lemma incRef_next : (incRef s p).next = s.next := rfl
@[simp] lemma incRef_lockList : (incRef s p).lockList = s.lockList := rfl
@[simp] lemma incRef_queue : (incRef s p).queue = s.queue := rfl
@[simp] lemma decRef_entry : (decRef s p).entry = s.entry := rfl
@[simp] lemma decRef_next : (decRef s p).next = s.next := rfl
@[simp] lemma decRef_lockList : (decRef s p).lockList = s.lockList := rfl
@[simp] lemma decRef_queue : (decRef s p).queue = s.queue := rfl
@[simp] lemma unlink_entry : (unlink s p).entry = s.entry := rfl
@[simp] lemma unlink_next : (unlink s p).next = s.next := rfl
@[simp] lemma unlink_lockList : (unlink s p).lockList = s.lockList.erase p := rfl
@[simp] lemma unlink_queue : (unlink s p).queue = s.queue := rfl
@[simp] lemma create_next {e : Entry} {refs : ℤ} : (create s e refs).next = s.next + 1 := rfl
@[simp] lemma create_lockList {e : Entry} {refs : ℤ} : (create s e refs).lockList = s.lockList := rfl
@[simp] lemma create_queue {e : Entry} {refs : ℤ} : (create s e refs).queue = s.queue := rfl

@[simp]
lemma create_entry_next {refs : ℤ} : (create s e refs).entry s.next = e :=
  Function.update_self ..

lemma create_entry_of_lt {refs : ℤ} (h : p < s.next) : (create s e refs).entry p = s.entry p :=
  Function.update_of_ne h.ne ..

/-- An entry that conflicts with no granted one is appended. -/
lemma Orderly.create_append (refs : ℤ) (h : Orderly s l) (hproper : e.Proper)
    (hcompat : e.state = .granted → ∀ p ∈ l, (s.entry p).fh = e.fh → (s.entry p).state = .granted →
      Compatible (s.entry p) e) :
    Orderly (create s e refs) (l ++ [s.next]) := by
  have hold : ∀ p ∈ l, (create s e refs).entry p = s.entry p := fun p hp =>
    create_entry_of_lt (h.lt_next p hp)
  constructor
  · refine h.nodup.append (List.nodup_singleton _) ?_
    intro p hp hp'
    rw [List.mem_singleton.mp hp'] at hp
    exact absurd (h.lt_next _ hp) (Nat.lt_irrefl _)
  · intro p hp
    rcases List.mem_append.mp hp with hp | hp
    · exact Nat.lt_succ_of_lt (h.lt_next p hp)
    · rw [List.mem_singleton.mp hp]
      exact Nat.lt_succ_self _
  · intro p hp
    rcases List.mem_append.mp hp with hp | hp
    · rw [hold p hp]
      exact h.proper p hp
    · rw [List.mem_singleton.mp hp, create_entry_next]
      exact hproper
  · intro p hp q hq hne
    rcases List.mem_append.mp hp with hp | hp
    · rcases List.mem_append.mp hq with hq | hq
      · rw [hold p hp, hold q hq]
        exact h.compatible p hp q hq hne
      · rw [hold p hp, List.mem_singleton.mp hq, create_entry_next]
        exact fun hfh hgp hge => hcompat hge p hp hfh hgp
    · rcases List.mem_append.mp hq with hq | hq
      · rw [hold q hq, List.mem_singleton.mp hp, create_entry_next]
        exact fun hfh hge hgq => (hcompat hge q hq hfh.symm hgq).symm
      · rw [List.mem_singleton.mp hp, List.mem_singleton.mp hq] at hne
        exact absurd rfl hne

/-- A request is added in an orderly way. -/
lemma Orderly.addToLocklist {arg : LockArgs} {allocOk : Bool} (h : Orderly s s.lockList)
    (hsized : arg.alock.Sized) :
    Orderly (addToLocklist s arg allocOk).1 (addToLocklist s arg allocOk).1.lockList := by
  unfold Nlm.addToLocklist
  cases blockedRequest s arg with
  | some p => exact h.congr (fun _ _ => rfl) le_rfl
  | none =>
    by_cases hok : allocOk
    swap
    · simpa [hok] using h
    simp only [hok, not_true_eq_false, if_false]
    have hproper : ∀ state, (arg.toEntry state).Proper := fun state => hsized.proper
    refine (h.create_append 2 (hproper _) fun hstate p hp hfh _ => ?_).congr (fun _ _ => rfl) le_rfl
    by_cases hallowed : allowed s arg
    · have hno := hallowed p hp hfh
      by_contra hcompat
      exact hno ((conflicts_iff (h.proper p hp) (hproper _)).mpr hcompat)
    · rw [if_neg hallowed] at hstate
      exact absurd hstate (by simp [LockArgs.toEntry])

lemma Compatible.partOf {g : Entry} (h : Compatible g e) (hpart : PartOf f e) : Compatible g f := by
  rcases h with h | h
  · exact Or.inl (Disjoint.mono_right hpart.bytes h)
  · refine Or.inr ⟨h.1, ?_⟩
    rw [hpart.exclusive]
    exact h.2

/-- So are the pieces of an entry. -/
lemma Orderly.createAll {ids : List ℕ} (h : Orderly s (l ++ ids)) (hparts : ∀ f ∈ es, PartOf f e)
    (hpairs : es.Pairwise fun f g => Disjoint f.bytes g.bytes)
    (he : ∀ q ∈ l, (s.entry q).fh = e.fh → (s.entry q).state = .granted → e.state = .granted →
      Compatible (s.entry q) e)
    (hids : ∀ q ∈ ids, ∀ f ∈ es, Disjoint (s.entry q).bytes f.bytes) :
    Orderly (createAll s es).1 (l ++ (ids ++ (createAll s es).2)) := by
  induction es generalizing s ids with
  | nil => simpa [Nlm.createAll] using h
  | cons f es ih =>
    have hf : PartOf f e := hparts f List.mem_cons_self
    obtain ⟨hfirst, hpairs⟩ := List.pairwise_cons.mp hpairs
    have hold : ∀ q ∈ l ++ ids, (create s f 1).entry q = s.entry q := fun q hq =>
      create_entry_of_lt (h.lt_next q hq)
    have hnew : Orderly (create s f 1) (l ++ (ids ++ [s.next])) := by
      rw [← List.append_assoc]
      refine h.create_append 1 hf.proper fun hstate q hq hfh hgranted => ?_
      rcases List.mem_append.mp hq with hq | hq
      · rw [hf.fh] at hfh
        rw [hf.state] at hstate
        exact (he q hq hfh hgranted hstate).partOf hf
      · exact Or.inl (hids q hq f List.mem_cons_self)
    have hrest := ih hnew (fun g hg => hparts g (List.mem_cons_of_mem _ hg)) hpairs
      (fun q hq => by
        rw [hold q (List.mem_append_left _ hq)]
        exact he q hq)
      (fun q hq g hg => by
        rcases List.mem_append.mp hq with hq | hq
        · rw [hold q (List.mem_append_right _ hq)]
          exact hids q hq g (List.mem_cons_of_mem _ hg)
        · rw [List.mem_singleton.mp hq, create_entry_next]
          exact hfirst g hg)
    simpa [Nlm.createAll] using hrest

lemma createAll_entry_of_lt (h : p < s.next) : (createAll s es).1.entry p = s.entry p := by
  induction es generalizing s with
  | nil => rfl
  | cons e es ih =>
    have hlt : p < (create s e 1).next := Nat.lt_succ_of_lt h
    exact (ih hlt).trans (create_entry_of_lt h)

@[simp]
lemma createAll_lockList : (createAll s es).1.lockList = s.lockList := by
  induction es generalizing s with
  | nil => rfl
  | cons e es ih => exact ih

@[simp]
lemma createAll_queue : (createAll s es).1.queue = s.queue := by
  induction es generalizing s with
  | nil => rfl
  | cons e es ih => exact ih

lemma next_le_createAll : s.next ≤ (createAll s es).1.next := by
  induction es generalizing s with
  | nil => exact le_rfl
  | cons e es ih =>
    have hnext : (create s e 1).next ≤ (createAll (create s e 1) es).1.next := ih
    exact (Nat.le_succ _).trans hnext

variable {split : List ℕ}

/-- An entry is replaced by its pieces. -/
lemma Orderly.doDelete (h : Orderly s (s.lockList ++ split)) (hp : p ∈ s.lockList)
    (hlock : Proper lock.offset (rangeEnd lock.offset lock.len)) :
    Orderly (doDeleteLockEntry lock s split p).1
      ((doDeleteLockEntry lock s split p).1.lockList ++ (doDeleteLockEntry lock s split p).2) := by
  unfold doDeleteLockEntry
  cases hpieces : pieces (s.entry p) lock with
  | none => exact h
  | some es =>
    obtain ⟨hparts, hpairs⟩ := pieces_spec hlock hpieces
    have hsplit : Orderly s (s.lockList.erase p ++ split) := by
      refine h.of_subset ?_ ?_
      · exact h.nodup.sublist ((List.erase_sublist).append (List.Sublist.refl _))
      · exact (List.erase_sublist.append (List.Sublist.refl _)).subset
    have hmem : ∀ q ∈ s.lockList.erase p ++ split, q ∈ s.lockList ++ split ∧ q ≠ p := by
      intro q hq
      have hdisjoint := List.nodup_append.mp h.nodup
      rcases List.mem_append.mp hq with hq | hq
      · exact ⟨List.mem_append_left _ (List.mem_of_mem_erase hq),
          fun heq => hdisjoint.1.not_mem_erase (heq ▸ hq)⟩
      · exact ⟨List.mem_append_right _ hq, fun heq => hdisjoint.2.2 p hp q hq heq.symm⟩
    have hsplit' : Orderly s ((s.lockList.erase p ++ split) ++ []) := by simpa using hsplit
    have hall := hsplit'.createAll hparts hpairs
      (fun q hq hfh hgq hgp => h.compatible q (hmem q hq).1 p (List.mem_append_left _ hp) (hmem q hq).2
        hfh hgq hgp) (by simp)
    have hall' : Orderly (Nlm.createAll s es).1
        (s.lockList.erase p ++ (split ++ (Nlm.createAll s es).2)) := by simpa using hall
    simp only [unlink_lockList, createAll_lockList]
    exact hall'.congr (fun _ _ => rfl) le_rfl

/-- The other entries stay. -/
lemma mem_doDelete (hq : q ∈ s.lockList) (hne : q ≠ p) : q ∈ (doDeleteLockEntry lock s split p).1.lockList := by
  unfold doDeleteLockEntry
  cases pieces (s.entry p) lock with
  | none => exact hq
  | some es =>
    simp only [unlink_lockList, createAll_lockList]
    exact (List.mem_erase_of_ne hne).mpr hq

variable {ps : List ℕ}

/-- The entries taken out leave pieces. -/
lemma Orderly.deleteLoop (h : Orderly s (s.lockList ++ split)) (hps : ∀ p ∈ ps, p ∈ s.lockList)
    (hnodup : ps.Nodup) (hlock : Proper lock.offset (rangeEnd lock.offset lock.len)) :
    Orderly (deleteLoop lock ps s split).1
      ((deleteLoop lock ps s split).1.lockList ++ (deleteLoop lock ps s split).2) := by
  induction ps generalizing s split with
  | nil => exact h
  | cons p ps ih =>
    obtain ⟨hp, hnodup⟩ := List.nodup_cons.mp hnodup
    unfold Nlm.deleteLoop
    split_ifs
    · refine ih (h.doDelete (hps p List.mem_cons_self) hlock) (fun q hq => ?_) hnodup
      exact mem_doDelete (hps q (List.mem_cons_of_mem _ hq)) fun heq => hp (heq ▸ hq)
    · exact ih h (fun q hq => hps q (List.mem_cons_of_mem _ hq)) hnodup

lemma glistAddListTail_sublist : (glistAddListTail l l').Sublist (l ++ l') := by
  unfold glistAddListTail
  split_ifs
  · exact List.sublist_append_left _ _
  · exact List.Sublist.refl _

/-- A range is unlocked. -/
lemma Orderly.deleteLockEntry (h : Orderly s s.lockList) (hsized : lock.Sized) :
    Orderly (deleteLockEntry s lock) (deleteLockEntry s lock).lockList := by
  have hstart : Orderly s (s.lockList ++ []) := by simpa using h
  have hloop := hstart.deleteLoop (fun _ hp => hp) h.nodup hsized.proper
  have hsub : (Nlm.deleteLockEntry s lock).lockList.Sublist
      ((Nlm.deleteLoop lock s.lockList s []).1.lockList ++
        (Nlm.deleteLoop lock s.lockList s []).2) := glistAddListTail_sublist
  exact (hloop.of_subset (hloop.nodup.sublist hsub) hsub.subset).congr (fun _ _ => rfl) le_rfl

/-- Entries leave the list, some blocked ones are granted, and nothing else changes. -/
structure Grants (s s' : Server) : Prop where
  sublist : s'.lockList.Sublist s.lockList
  next : s'.next = s.next
  entry : ∀ p, s'.entry p = s.entry p ∨ s'.entry p = { s.entry p with state := .granted }
  granted : ∀ q ∈ s.lockList, (s.entry q).state = .granted → q ∈ s'.lockList ∧ s'.entry q = s.entry q

lemma Grants.refl : Grants s s where
  sublist := List.Sublist.refl _
  next := rfl
  entry _ := Or.inl rfl
  granted _ hq _ := ⟨hq, rfl⟩

/-- Two rounds of grants. -/
lemma Grants.trans {s'' : Server} (h : Grants s s') (h' : Grants s' s'') : Grants s s'' where
  sublist := h'.sublist.trans h.sublist
  next := h'.next.trans h.next
  entry p := by
    rcases h.entry p with hp | hp
    · rw [← hp]
      exact h'.entry p
    · rcases h'.entry p with hp' | hp'
      · exact Or.inr (hp'.trans hp)
      · rw [hp] at hp'
        exact Or.inr hp'
  granted q hq hg := by
    obtain ⟨hq', heq⟩ := h.granted q hq hg
    obtain ⟨hq'', heq'⟩ := h'.granted q hq' (heq ▸ hg)
    exact ⟨hq'', heq'.trans heq⟩

lemma Grants.eq_of_blocked (h : Grants s s') (hp : (s'.entry p).state = .blocked) :
    s'.entry p = s.entry p := by
  rcases h.entry p with heq | heq
  · exact heq
  · rw [heq] at hp
    exact absurd hp (by simp)

/-- A granted entry of the file conflicts with this one. -/
def Waiting (s : Server) (e : Entry) : Prop :=
  ∃ q ∈ s.lockList, (s.entry q).fh = e.fh ∧ (s.entry q).state = .granted ∧
    conflicts (s.entry q) e.lock e.exclusive

/-- The entry with this number waits. -/
def Waits (s : Server) (p : ℕ) : Prop := Waiting s (s.entry p)

/-- A waiting entry waits or was granted. -/
lemma Waits.grants (hw : Waits s p) (h : Grants s s') : Waits s' p := by
  obtain ⟨q, hq, hfh, hg, hconf⟩ := hw
  obtain ⟨hq', heq⟩ := h.granted q hq hg
  refine ⟨q, hq', ?_, ?_, ?_⟩
  · rw [heq]
    rcases h.entry p with hp | hp <;> rw [hp] <;> exact hfh
  · rw [heq]
    exact hg
  · rw [heq]
    rcases h.entry p with hp | hp <;> rw [hp] <;> exact hconf

variable {exclusive : Bool}

lemma overlappingEntry_none (h : overlappingEntry s lock exclusive = none) (hq : q ∈ s.lockList)
    (hfh : (s.entry q).fh = lock.fh) (hg : (s.entry q).state = .granted) :
    ¬ conflicts (s.entry q) lock exclusive := by
  intro hconf
  have hnone := List.find?_eq_none.mp h q hq
  exact hnone (by simp [hfh, hg, hconf])

lemma overlappingEntry_some (h : overlappingEntry s lock exclusive = some q) :
    q ∈ s.lockList ∧ (s.entry q).fh = lock.fh ∧ (s.entry q).state = .granted ∧
      conflicts (s.entry q) lock exclusive := by
  refine ⟨List.mem_of_find?_eq_some h, ?_⟩
  simpa using List.find?_some h

lemma markGranted_entry_self : (markGranted s p).entry p = { s.entry p with state := .granted } :=
  Function.update_self ..

lemma markGranted_entry_of_ne (h : q ≠ p) : (markGranted s p).entry q = s.entry q :=
  Function.update_of_ne h ..

variable {copyOk : Bool}

/-- A blocked entry is granted, or taken off. -/
lemma grants_grantEntry (hp : (s.entry p).state = .blocked) : Grants s (grantEntry s copyOk p) := by
  have hne : ∀ q, (s.entry q).state = .granted → q ≠ p := by
    rintro q hq rfl
    rw [hp] at hq
    exact absurd hq (by decide)
  unfold grantEntry
  split_ifs
  · exact Grants.refl
  · refine ⟨List.Sublist.refl _, rfl, fun q => ?_, fun q hq hg => ⟨hq, ?_⟩⟩
    · by_cases heq : q = p
      · rw [heq]
        exact Or.inr markGranted_entry_self
      · exact Or.inl (markGranted_entry_of_ne heq)
    · exact markGranted_entry_of_ne (hne q hg)
  · refine ⟨List.erase_sublist, rfl, fun _ => Or.inl rfl, fun q hq hg => ⟨?_, rfl⟩⟩
    exact (List.mem_erase_of_ne (hne q hg)).mpr hq

lemma mem_grantEntry (hq : q ∈ s.lockList) (hne : q ≠ p) : q ∈ (grantEntry s copyOk p).lockList := by
  unfold grantEntry
  split_ifs
  · exact hq
  · exact hq
  · exact (List.mem_erase_of_ne hne).mpr hq

/-- An entry is granted only if nothing is in its way. -/
lemma Orderly.grantEntry (h : Orderly s s.lockList) (hp : p ∈ s.lockList) :
    Orderly (grantEntry s copyOk p) (grantEntry s copyOk p).lockList := by
  unfold Nlm.grantEntry
  split_ifs with hcopy hover
  · exact h
  swap
  · exact h.erase.congr (fun _ _ => rfl) le_rfl
  rw [Bool.not_eq_true, Option.isSome_eq_false_iff, Option.isNone_iff_eq_none] at hover
  have hcompat : ∀ q ∈ s.lockList, (s.entry q).fh = (s.entry p).fh →
      (s.entry q).state = .granted → Compatible (s.entry q) (s.entry p) := by
    intro q hq hfh hg
    by_contra hnot
    exact overlappingEntry_none hover hq hfh hg
      ((conflicts_iff (h.proper q hq) (h.proper p hp)).mpr hnot)
  constructor
  · exact h.nodup
  · exact h.lt_next
  · intro q hq
    by_cases heq : q = p
    · rw [heq, markGranted_entry_self]
      exact h.proper p hp
    · rw [markGranted_entry_of_ne heq]
      exact h.proper q hq
  · intro q hq r hr hne
    by_cases hqp : q = p
    · rw [hqp, markGranted_entry_self, markGranted_entry_of_ne (hqp ▸ Ne.symm hne)]
      exact fun hfh _ hg => (hcompat r hr hfh.symm hg).symm
    · by_cases hrp : r = p
      · rw [hrp, markGranted_entry_self, markGranted_entry_of_ne hqp]
        exact fun hfh hg _ => hcompat q hq hfh hg
      · rw [markGranted_entry_of_ne hqp, markGranted_entry_of_ne hrp]
        exact h.compatible q hq r hr hne

/-- An entry that is still blocked waits. -/
lemma waits_grantEntry (hnodup : s.lockList.Nodup) (hp : p ∈ (grantEntry s copyOk p).lockList)
    (hblocked : ((grantEntry s copyOk p).entry p).state = .blocked) : Waits (grantEntry s copyOk p) p := by
  unfold grantEntry at hp hblocked ⊢
  split_ifs at hp hblocked ⊢ with hcopy hover
  · obtain ⟨q, hq⟩ := Option.isSome_iff_exists.mp hover
    exact ⟨q, overlappingEntry_some hq⟩
  · rw [markGranted_entry_self] at hblocked
    exact absurd hblocked (by simp)
  · exact absurd hp hnodup.not_mem_erase

/-- The loop grants what it can. -/
lemma grants_grantLoop (fh : Netobj) (copyOk : ℕ → Bool) (hlist : s.lockList.Nodup)
    (hps : ∀ p ∈ ps, p ∈ s.lockList) (hnodup : ps.Nodup) :
    Grants s (grantLoop fh copyOk ps s) ∧
      ∀ p ∈ ps, p ∈ (grantLoop fh copyOk ps s).lockList →
        ((grantLoop fh copyOk ps s).entry p).fh = fh →
        ((grantLoop fh copyOk ps s).entry p).state = .blocked → Waits (grantLoop fh copyOk ps s) p := by
  induction ps generalizing s with
  | nil => exact ⟨Grants.refl, by simp⟩
  | cons p ps ih =>
    obtain ⟨hp, hnodup⟩ := List.nodup_cons.mp hnodup
    unfold grantLoop
    by_cases hturn : (s.entry p).fh = fh ∧ (s.entry p).state = .blocked
    · rw [if_pos hturn]
      have hentry : Grants s (grantEntry s (copyOk p) p) := grants_grantEntry hturn.2
      have hmem : ∀ q ∈ ps, q ∈ (grantEntry s (copyOk p) p).lockList := by
        intro q hq
        exact mem_grantEntry (hps q (List.mem_cons_of_mem _ hq)) fun heq => hp (heq ▸ hq)
      obtain ⟨hgrants, hwaits⟩ := ih (hlist.sublist hentry.sublist) hmem hnodup
      refine ⟨hentry.trans hgrants, fun q hq hq' hfh hblocked => ?_⟩
      rcases List.mem_cons.mp hq with rfl | hq
      · have hblocked' := hgrants.eq_of_blocked hblocked ▸ hblocked
        exact (waits_grantEntry hlist (hgrants.sublist.subset hq') hblocked').grants hgrants
      · exact hwaits q hq hq' hfh hblocked
    · rw [if_neg hturn]
      obtain ⟨hgrants, hwaits⟩ := ih hlist (fun q hq => hps q (List.mem_cons_of_mem _ hq)) hnodup
      refine ⟨hgrants, fun q hq hq' hfh hblocked => ?_⟩
      rcases List.mem_cons.mp hq with rfl | hq
      · have heq := hgrants.eq_of_blocked hblocked
        rw [heq] at hfh hblocked
        exact absurd ⟨hfh, hblocked⟩ hturn
      · exact hwaits q hq hq' hfh hblocked

/-- After `do_nlm_grant_blocked_locks` every entry of the file that is still blocked waits for a
granted one. -/
lemma grants_doGrantBlockedLocks (fh : Netobj) (copyOk : ℕ → Bool) (hlist : s.lockList.Nodup) :
    Grants s (doGrantBlockedLocks s fh copyOk) ∧
      ∀ p ∈ (doGrantBlockedLocks s fh copyOk).lockList,
        ((doGrantBlockedLocks s fh copyOk).entry p).fh = fh →
        ((doGrantBlockedLocks s fh copyOk).entry p).state = .blocked →
        Waits (doGrantBlockedLocks s fh copyOk) p := by
  obtain ⟨hgrants, hwaits⟩ := grants_grantLoop fh copyOk hlist (fun _ hp => hp) hlist
  exact ⟨hgrants, fun p hp => hwaits p (hgrants.sublist.subset hp) hp⟩

/-- Grants put whole entries in. -/
lemma Orderly.grantLoop {fh : Netobj} {copyOk : ℕ → Bool} (h : Orderly s s.lockList)
    (hps : ∀ p ∈ ps, p ∈ s.lockList) (hnodup : ps.Nodup) :
    Orderly (grantLoop fh copyOk ps s) (grantLoop fh copyOk ps s).lockList := by
  induction ps generalizing s with
  | nil => exact h
  | cons p ps ih =>
    obtain ⟨hp, hnodup⟩ := List.nodup_cons.mp hnodup
    unfold Nlm.grantLoop
    split_ifs
    · refine ih (h.grantEntry (hps p List.mem_cons_self)) (fun q hq => ?_) hnodup
      exact mem_grantEntry (hps q (List.mem_cons_of_mem _ hq)) fun heq => hp (heq ▸ hq)
    · exact ih h (fun q hq => hps q (List.mem_cons_of_mem _ hq)) hnodup

lemma Orderly.doGrantBlockedLocks {fh : Netobj} {copyOk : ℕ → Bool} (h : Orderly s s.lockList) :
    Orderly (doGrantBlockedLocks s fh copyOk) (doGrantBlockedLocks s fh copyOk).lockList :=
  h.grantLoop (fun _ hp => hp) h.nodup

@[simp]
lemma recoverEntry_entry : (recoverEntry s copyOk p).entry = s.entry := by
  unfold recoverEntry
  split_ifs <;> rfl

@[simp]
lemma recoverEntry_next : (recoverEntry s copyOk p).next = s.next := by
  unfold recoverEntry
  split_ifs <;> rfl

@[simp]
lemma recoverEntry_lockList : (recoverEntry s copyOk p).lockList = s.lockList.erase p := by
  unfold recoverEntry
  split_ifs <;> rfl

/-- The recovery takes the entries of the host off. -/
lemma recoveryLoop_spec (s : Server) (name : List UInt8) (copyOk : ℕ → Bool) (ps : List ℕ) :
    (recoveryLoop name copyOk ps s).entry = s.entry ∧ (recoveryLoop name copyOk ps s).next = s.next ∧
      (recoveryLoop name copyOk ps s).lockList.Sublist s.lockList ∧
      ∀ q ∈ s.lockList, (s.entry q).callerName ≠ name →
        q ∈ (recoveryLoop name copyOk ps s).lockList := by
  induction ps generalizing s with
  | nil => exact ⟨rfl, rfl, List.Sublist.refl _, fun q hq _ => hq⟩
  | cons p ps ih =>
    unfold recoveryLoop
    split_ifs with hname
    · obtain ⟨hentry, hnext, hsub, hmem⟩ := ih (recoverEntry s (copyOk p) p)
      rw [recoverEntry_lockList] at hsub hmem
      refine ⟨hentry.trans recoverEntry_entry, hnext.trans recoverEntry_next,
        hsub.trans List.erase_sublist, fun q hq hother => ?_⟩
      refine hmem q ((List.mem_erase_of_ne ?_).mpr hq) (by simpa using hother)
      rintro rfl
      exact hother hname
    · exact ih s

lemma Orderly.nodeRecovery {name : List UInt8} {copyOk : ℕ → Bool} (h : Orderly s s.lockList) :
    Orderly (nodeRecovery s name copyOk) (nodeRecovery s name copyOk).lockList := by
  obtain ⟨hentry, hnext, hsub, -⟩ := recoveryLoop_spec s name copyOk s.lockList
  refine (h.of_subset (h.nodup.sublist hsub) hsub.subset).congr (fun p _ => ?_) hnext.ge
  exact congrFun hentry p

/-! ## Runs -/

/-- The functions that change the list, with their arguments; `remove` is `nlm_remove_from_locklist`
of an entry. -/
inductive Call
  | addToLocklist (arg : LockArgs) (allocOk : Bool)
  | deleteLockEntry (lock : Lock)
  | doGrantBlockedLocks (fh : Netobj) (copyOk : ℕ → Bool)
  | remove (p : ℕ)
  | nodeRecovery (name : List UInt8) (copyOk : ℕ → Bool)

/-- One call. -/
def step (s : Server) : Call → Option Server
  | .addToLocklist arg allocOk => some (Nlm.addToLocklist s arg allocOk).1
  | .deleteLockEntry lock => some (Nlm.deleteLockEntry s lock)
  | .doGrantBlockedLocks fh copyOk => some (Nlm.doGrantBlockedLocks s fh copyOk)
  | .remove p => removeFromLocklist s p
  | .nodeRecovery name copyOk => some (Nlm.nodeRecovery s name copyOk)

/-- The ranges that are asked for fit. -/
def Call.Fits : Call → Prop
  | .addToLocklist arg _ => arg.alock.Fits
  | .deleteLockEntry lock => lock.Fits
  | .doGrantBlockedLocks _ _ | .remove _ | .nodeRecovery _ _ => True

instance : DecidablePred Call.Fits
  | .addToLocklist arg _ => inferInstanceAs (Decidable arg.alock.Fits)
  | .deleteLockEntry lock => inferInstanceAs (Decidable lock.Fits)
  | .doGrantBlockedLocks _ _ | .remove _ | .nodeRecovery _ _ => isTrue trivial

/-- The server after `nlm_init`. -/
def initial : Server where
  entry _ :=
    { callerName := [], fh := [], oh := [], cookie := [], svid := 0, start := 0, len := 0,
      state := .blocked, exclusive := false }
  refCount _ := 0
  next := 0
  lockList := []
  freed := []
  queue := []

lemma orderly_initial : Orderly initial initial.lockList :=
  ⟨List.nodup_nil, by simp [initial], by simp [initial], by simp [initial]⟩

/-- Every call keeps the list orderly. -/
lemma Orderly.step {call : Call} (h : Orderly s s.lockList) (hfits : call.Fits)
    (hs : step s call = some s') : Orderly s' s'.lockList := by
  cases call with
  | addToLocklist arg allocOk =>
    rw [← Option.some.inj hs]
    exact h.addToLocklist hfits.2
  | deleteLockEntry lock =>
    rw [← Option.some.inj hs]
    exact h.deleteLockEntry hfits.2
  | doGrantBlockedLocks fh copyOk =>
    rw [← Option.some.inj hs]
    exact h.doGrantBlockedLocks
  | remove p =>
    simp only [Nlm.step, removeFromLocklist] at hs
    split_ifs at hs
    rw [← Option.some.inj hs]
    exact h.erase.congr (fun _ _ => rfl) le_rfl
  | nodeRecovery name copyOk =>
    rw [← Option.some.inj hs]
    exact h.nodeRecovery

/-- The granted locks of a file are compatible. -/
def GrantedCompatible (s : Server) : Prop :=
  ∀ p ∈ s.lockList, ∀ q ∈ s.lockList, p ≠ q → (s.entry p).fh = (s.entry q).fh →
    (s.entry p).state = .granted → (s.entry q).state = .granted →
    Disjoint (s.entry p).bytes (s.entry q).bytes ∨ ¬ (s.entry p).exclusive ∧ ¬ (s.entry q).exclusive

/-- No blocked lock of a file could be granted. -/
def NoneGrantable (s : Server) (fh : Netobj) : Prop :=
  ∀ p ∈ s.lockList, (s.entry p).fh = fh → (s.entry p).state = .blocked →
    ∃ q ∈ s.lockList, (s.entry q).fh = fh ∧ (s.entry q).state = .granted ∧
      ¬ Compatible (s.entry q) (s.entry p)

/-- Whether a granted lock of the file is in the way of a request. -/
def Refused (s : Server) (lock : Lock) (exclusive : Bool) : Prop :=
  ∃ q ∈ s.lockList, (s.entry q).fh = lock.fh ∧ (s.entry q).state = .granted ∧
    (∃ x ∈ (s.entry q).bytes, x ∈ lock.bytes) ∧ ((s.entry q).exclusive ∨ exclusive)

/-- The test of LOCK finds a conflict exactly if there is one. -/
lemma Orderly.overlappingEntry_iff (h : Orderly s s.lockList) (hfits : lock.Fits) :
    (overlappingEntry s lock exclusive).isSome ↔ Refused s lock exclusive := by
  have hconf : ∀ q ∈ s.lockList, conflicts (s.entry q) lock exclusive = true ↔
      (∃ x ∈ (s.entry q).bytes, x ∈ lock.bytes) ∧ ((s.entry q).exclusive ∨ exclusive) := by
    intro q hq
    have hbytes : (∃ x ∈ (s.entry q).bytes, x ∈ lock.bytes) ↔ _ :=
      exists_byte_iff (h.proper q hq) hfits.2.proper
    rw [hbytes]
    simp [conflicts]
  constructor
  · intro hsome
    obtain ⟨q, hfound⟩ := Option.isSome_iff_exists.mp hsome
    obtain ⟨hq, hfh, hgranted, hc⟩ := overlappingEntry_some hfound
    exact ⟨q, hq, hfh, hgranted, (hconf q hq).mp hc⟩
  · rintro ⟨q, hq, hfh, hgranted, hc⟩
    by_contra hnone
    rw [Bool.not_eq_true, Option.isSome_eq_false_iff, Option.isNone_iff_eq_none] at hnone
    exact overlappingEntry_none hnone hq hfh hgranted ((hconf q hq).mpr hc)

/-- For every sequence of calls with ranges that fit: the granted locks of a file are compatible,
`do_nlm_grant_blocked_locks` leaves no lock blocked that could be granted, and
`nlm_overlapping_entry` finds a granted lock exactly if one is in the way. -/
theorem grantedCompatible_of_reachable {s : Server}
    (h : ReachableBy step (fun _ call => call.Fits) initial s) :
    GrantedCompatible s ∧
      (∀ fh copyOk, NoneGrantable (doGrantBlockedLocks s fh copyOk) fh) ∧
      ∀ lock : Lock, lock.Fits → ∀ exclusive,
        ((overlappingEntry s lock exclusive).isSome ↔ Refused s lock exclusive) := by
  have horderly : Orderly s s.lockList :=
    h.invariant (I := fun s => Orderly s s.lockList) orderly_initial
      fun _ _ _ h hfits hs => h.step hfits hs
  refine ⟨horderly.compatible, fun fh copyOk p hp hfh hblocked => ?_,
    fun lock hfits exclusive => horderly.overlappingEntry_iff hfits⟩
  have hafter : Orderly (doGrantBlockedLocks s fh copyOk) _ := horderly.doGrantBlockedLocks
  obtain ⟨-, hwaits⟩ := grants_doGrantBlockedLocks fh copyOk horderly.nodup
  obtain ⟨q, hq, hfhq, hgranted, hconf⟩ := hwaits p hp hfh hblocked
  refine ⟨q, hq, hfhq.trans hfh, hgranted, ?_⟩
  exact (conflicts_iff (hafter.proper q hq) (hafter.proper p hp)).mp hconf

/-- A lock on a file, by the client that the byte names. -/
def sampleArgs (client : UInt8) (offset len : UInt64) (exclusive : Bool) : LockArgs where
  cookie := [client]
  exclusive := exclusive
  alock := { callerName := [client], fh := [7], oh := [client], svid := 1, offset, len }

/-- A lock to the end of the file is split, and a lock that waited for it is granted. -/
theorem grantedCompatible_after_split :
    (execute step initial [.addToLocklist (sampleArgs 1 0 0 true) true,
      .addToLocklist (sampleArgs 2 10 10 true) true,
      .deleteLockEntry (sampleArgs 1 10 10 true).alock,
      .doGrantBlockedLocks [7] fun _ => true]).any (fun s => s.lockList = [1, 2, 3]) = true ∧
    ∀ s, execute step initial [.addToLocklist (sampleArgs 1 0 0 true) true,
      .addToLocklist (sampleArgs 2 10 10 true) true,
      .deleteLockEntry (sampleArgs 1 10 10 true).alock,
      .doGrantBlockedLocks [7] fun _ => true] = some s → GrantedCompatible s := by
  refine ⟨by decide +kernel, fun s hs => ?_⟩
  exact (grantedCompatible_of_reachable (reachableBy_of_execute hs (by decide +kernel))).1

end Ganesha.Nlm
