import Ganesha.Fattr.Decode
import Mathlib.Data.List.Perm.Subperm

/-!
# Comparing the values of attributes

`NFS_Protocols/nfs_proto_tools.c`: `nfs4_Fattr_cmp`, for VERIFY and NVERIFY. Memory that is read outside
of its bounds is the result `none`.
-/

namespace Ganesha.Fattr

/-- `memcmp`; the first argument is the number of the call. -/
abbrev Memcmp := ℕ → List UInt8 → List UInt8 → ℤ

/-- The difference of the first bytes that differ. -/
def firstDifference : List UInt8 → List UInt8 → ℤ
  | x :: xs, y :: ys => if x = y then firstDifference xs ys else (x.toNat : ℤ) - y.toNat
  | _, _ => 0

/-- What is known of `memcmp`: each result has the sign of the difference of the first bytes that
differ, and is not beyond `bound`. -/
structure Memcmp.Sound (bound : ℕ) (memcmp : Memcmp) : Prop where
  sign : ∀ call, ∀ x y : List UInt8, x.length = y.length →
    (memcmp call x y).sign = (firstDifference x y).sign
  bounded : ∀ call, ∀ x y : List UInt8, x.length = y.length → (memcmp call x y).natAbs ≤ bound

/-- The attributes that are compared as a length and a string. -/
def isName (a : ℕ) : Prop := a = fattr4Filehandle ∨ a = fattr4Owner ∨ a = fattr4OwnerGroup

instance (a : ℕ) : Decidable (isName a) := inferInstanceAs (Decidable (_ ∨ _))

variable (memcmp : Memcmp) (build : Build) (b₁ b₂ : List UInt8)

/-- The variables of the loop in `nfs4_Fattr_cmp`: how often `memcmp` has been called, `LastOffset` and
`cmp`, which is a number of 32 bits. -/
structure Walk where
  calls : ℕ
  offset : ℕ
  cmp : ℤ

/-- The result of `memcmp` at the offset is added to `cmp`. -/
def compareAt (s : Walk) (count : ℕ) : Option Walk := do
  let x ← readAt b₁ s.offset count
  let y ← readAt b₂ s.offset count
  some { s with calls := s.calls + 1, cmp := s.cmp + memcmp s.calls x y }

/-- The loop over the words of `FATTR4_SUPPORTED_ATTRS`. -/
def compareWords : ℕ → Walk → Option Walk
  | 0, s => some s
  | k + 1, s => do
    let s ← compareAt memcmp b₁ b₂ s 4
    compareWords k { s with offset := advance s.offset 4 }

/-- One attribute in the loop of `nfs4_Fattr_cmp`. -/
def cmpAttr (s : Walk) (a : ℕ) : Option Walk :=
  if a = fattr4SupportedAttrs then do
    let len := be (← readAt b₁ s.offset 4)
    let s ← compareAt memcmp b₁ b₂ s 4
    compareWords memcmp b₁ b₂ len { s with offset := advance s.offset 4 }
  else if isName a then do
    let len := be (← readAt b₁ s.offset 4)
    let s ← compareAt memcmp b₁ b₂ s 4
    -- the string is not passed over
    compareAt memcmp b₁ b₂ { s with offset := advance s.offset 4 } len
  else
    -- the offset does not go on
    compareAt memcmp b₁ b₂ s (build.sizeOf a)

/-- The loop of `nfs4_Fattr_cmp`. -/
def cmpLoop : List ℕ → Walk → Option ℤ
  | [], s => some (if s.cmp % 2 ^ 32 = 0 then 1 else 0)
  | a :: as, s =>
    if a ≤ fattr4MountedOnFileid then do
      let s ← cmpAttr memcmp build b₁ b₂ s a
      cmpLoop as s
    else some 0

/-- The loop that compares the two lists of attributes: what is returned there. -/
def checkLists : List ℕ → List ℕ → Option ℤ
  | a₁ :: l₁, a₂ :: l₂ =>
    if a₁ ≠ a₂ then some 0
    else if a₁ = fattr4RdattrError then some (-1)
    else if a₂ = fattr4RdattrError then some (-1)
    else checkLists l₁ l₂
  | _, _ => none

/-- `nfs4_Fattr_cmp`, of two values that are there: 1 for TRUE, 0 for FALSE, and -1. -/
def nfs4FattrCmp (f₁ f₂ : Fattr4) : Option ℤ :=
  if f₁.attrmask.len ≠ f₂.attrmask.len then some 0
  else if attrmasklistSize < f₁.attrs.length ∨ attrmasklistSize < f₂.attrs.length then none
  else if f₁.attrs.length ≠ f₂.attrs.length then some 0
  else
    match checkLists f₁.attrs f₂.attrs with
    | some r => some r
    | none => cmpLoop memcmp build f₁.bytes f₂.bytes f₁.attrs ⟨0, 0, 0⟩

/-! ## Values that are well formed -/

/-- The value of an attribute as `nfs4_FSALattr_To_Fattr` writes it. -/
def WireValue (a : ℕ) (v : List UInt8) : Prop :=
  if a = fattr4SupportedAttrs then 4 ≤ v.length ∧ v.length = 4 + 4 * be (v.take 4)
  else if isName a then 4 ≤ v.length ∧ v.length = 4 + padded (be (v.take 4))
  else if a = fattr4FsLocations then v.length % 4 = 0
  else if a = fattr4TimeAccessSet ∨ a = fattr4TimeModifySet then v.length = 16
  else if a = fattr4FsLayoutTypes then v.length = 8
  else v.length = build.sizeOf a

instance (a : ℕ) (v : List UInt8) : Decidable (WireValue build a v) := by
  unfold WireValue
  infer_instance

/-- The bytes are the values of the attributes of the bitmap, one after the other. -/
structure Encodes (f : Fattr4) (value : ℕ → List UInt8) : Prop where
  supported : ∀ a ∈ f.attrs, build.supports a = true
  wire : ∀ a ∈ f.attrs, WireValue build a (value a)
  bytes : f.bytes = f.attrs.flatMap value

/-- The same attributes with the same values. -/
structure Same (f₁ f₂ : Fattr4) (value₁ value₂ : ℕ → List UInt8) : Prop where
  bit : ∀ a, f₁.attrmask.bit a = f₂.attrmask.bit a
  value : ∀ a ∈ f₁.attrs, value₁ a = value₂ a

/-! ## The places that are compared -/

/-- The places of words that follow each other. -/
def wordsAt (offset k : ℕ) : List (ℕ × ℕ) := (List.range k).map fun i => (offset + 4 * i, 4)

/-- The places of one attribute: an offset, and how many bytes. -/
def placesOf (offset a : ℕ) : List (ℕ × ℕ) :=
  if a = fattr4SupportedAttrs then
    wordsAt offset (be ((b₁.drop offset).take 4) + 1)
  else if isName a then [(offset, 4), (offset + 4, be ((b₁.drop offset).take 4))]
  else [(offset, build.sizeOf a)]

/-- How far the offset goes on at an attribute. -/
def passed (offset a : ℕ) : ℕ :=
  if a = fattr4SupportedAttrs then 4 + 4 * be ((b₁.drop offset).take 4)
  else if isName a then 4
  else 0

/-- The places that are compared for a list of attributes. -/
def lookedAt : List ℕ → ℕ → List (ℕ × ℕ)
  | [], _ => []
  | a :: as, offset =>
    placesOf build b₁ offset a ++ lookedAt as (offset + passed b₁ offset a)

/-- The places are inside of both buffers. -/
def Inside (ws : List (ℕ × ℕ)) : Prop :=
  ∀ w ∈ ws, w.1 + w.2 ≤ b₁.length ∧ w.1 + w.2 ≤ b₂.length

instance (ws : List (ℕ × ℕ)) : Decidable (Inside b₁ b₂ ws) :=
  inferInstanceAs (Decidable (∀ w ∈ ws, _))

/-- The first bytes that differ at a place, as a difference. -/
def differenceAt (w : ℕ × ℕ) : ℤ :=
  firstDifference ((b₁.drop w.1).take w.2) ((b₂.drop w.1).take w.2)

/-- At how many places the first buffer has the greater bytes. -/
def above (ws : List (ℕ × ℕ)) : ℕ := ws.countP fun w => 0 < differenceAt b₁ b₂ w

/-- At how many places the second buffer has the greater bytes. -/
def below (ws : List (ℕ × ℕ)) : ℕ := ws.countP fun w => differenceAt b₁ b₂ w < 0

/-- The least that the results of `memcmp` at the places can add up to. -/
def least (bound : ℕ) (ws : List (ℕ × ℕ)) : ℤ := above b₁ b₂ ws - bound * below b₁ b₂ ws

/-- The most that the results of `memcmp` at the places can add up to. -/
def most (bound : ℕ) (ws : List (ℕ × ℕ)) : ℤ := bound * above b₁ b₂ ws - below b₁ b₂ ws

/-- The results of `memcmp` at the places can add up to a multiple of 2^32. -/
def Cancels (bound : ℕ) (ws : List (ℕ × ℕ)) : Prop :=
  ∃ m : ℤ, least b₁ b₂ bound ws ≤ m * 2 ^ 32 ∧ m * 2 ^ 32 ≤ most b₁ b₂ bound ws

/-- The sum of what `memcmp` says of the places, from a call on. -/
def differences : ℕ → List (ℕ × ℕ) → ℤ
  | _, [] => 0
  | call, w :: ws => memcmp call ((b₁.drop w.1).take w.2) ((b₂.drop w.1).take w.2) +
      differences (call + 1) ws

/-! ## The loop -/

variable {memcmp build b₁ b₂} {f₁ f₂ : Fattr4} {value₁ value₂ : ℕ → List UInt8} {s : Walk}
  {offset a k bound : ℕ} {ws ws' : List (ℕ × ℕ)}

/-- One word more in front. -/
lemma wordsAt_succ (offset k : ℕ) :
    wordsAt offset (k + 1) = (offset, 4) :: wordsAt (offset + 4) k := by
  unfold wordsAt
  rw [List.range_succ_eq_map, List.map_cons, List.map_map]
  congr 1
  refine List.map_congr_left fun i _ => ?_
  dsimp only [Function.comp]
  congr 1
  omega

lemma inside_nil : Inside b₁ b₂ [] := fun _ hw => absurd hw List.not_mem_nil

lemma inside_cons {w : ℕ × ℕ} : Inside b₁ b₂ (w :: ws) ↔
    (w.1 + w.2 ≤ b₁.length ∧ w.1 + w.2 ≤ b₂.length) ∧ Inside b₁ b₂ ws := List.forall_mem_cons

lemma inside_append : Inside b₁ b₂ (ws ++ ws') ↔ Inside b₁ b₂ ws ∧ Inside b₁ b₂ ws' :=
  List.forall_mem_append

/-- The places of two parts. -/
lemma differences_append (call : ℕ) : differences memcmp b₁ b₂ call (ws ++ ws') =
    differences memcmp b₁ b₂ call ws + differences memcmp b₁ b₂ (call + ws.length) ws' := by
  induction ws generalizing call with
  | nil => rw [List.nil_append, differences, Int.zero_add, List.length_nil, Nat.add_zero]
  | cons w ws ih =>
    have hcalls : call + (w :: ws).length = call + 1 + ws.length := by
      rw [List.length_cons]
      omega
    rw [List.cons_append, differences, differences, ih, Int.add_assoc, hcalls]

/-- The state when the places have been compared, and the offset is at `next`. -/
def Walk.after (s : Walk) (memcmp : Memcmp) (b₁ b₂ : List UInt8) (ws : List (ℕ × ℕ)) (next : ℕ) : Walk :=
  ⟨s.calls + ws.length, next, s.cmp + differences memcmp b₁ b₂ s.calls ws⟩

/-- The places are compared, or one of them is outside. -/
structure Compares (memcmp : Memcmp) (b₁ b₂ : List UInt8) (s : Walk) (ws : List (ℕ × ℕ)) (next : ℕ)
    (r : Option Walk) : Prop where
  inside : Inside b₁ b₂ ws → r = some (s.after memcmp b₁ b₂ ws next)
  fault : ¬ Inside b₁ b₂ ws → r = none

/-- One memcmp. -/
lemma compares_compareAt (memcmp : Memcmp) (b₁ b₂ : List UInt8) (s : Walk) (count : ℕ) :
    Compares memcmp b₁ b₂ s [(s.offset, count)] s.offset (compareAt memcmp b₁ b₂ s count) := by
  unfold compareAt
  constructor
  · intro hin
    obtain ⟨h₁, h₂⟩ := (inside_cons.mp hin).1
    rw [readAt_of_le h₁, readAt_of_le h₂]
    simp [Walk.after, differences]
  · intro hno
    by_cases h₁ : s.offset + count ≤ b₁.length
    · have h₂ : b₂.length < s.offset + count := by
        by_contra hle
        exact hno (inside_cons.mpr ⟨⟨h₁, by omega⟩, inside_nil⟩)
      rw [readAt_of_le h₁, readAt_of_lt h₂]
      rfl
    · rw [readAt_of_lt (by omega)]
      rfl

/-- One place is compared, the offset goes on to `next`, and the other places are compared from there. -/
lemma Compares.bind {r : Option Walk} {f : Walk → Option Walk} {w : ℕ × ℕ} {last : ℕ}
    (h : Compares memcmp b₁ b₂ s [w] s.offset r) (next : ℕ)
    (hf : Compares memcmp b₁ b₂ (s.after memcmp b₁ b₂ [w] next) ws last
      (f (s.after memcmp b₁ b₂ [w] s.offset))) :
    Compares memcmp b₁ b₂ s (w :: ws) last (r.bind f) := by
  by_cases hfirst : Inside b₁ b₂ [w]
  swap
  · refine ⟨fun hin => absurd (inside_cons.mpr ⟨(inside_cons.mp hin).1, inside_nil⟩) hfirst, fun _ => ?_⟩
    rw [h.fault hfirst]
    rfl
  rw [h.inside hfirst, Option.bind_some]
  constructor
  · intro hin
    rw [hf.inside (inside_cons.mp hin).2]
    simp only [Walk.after, differences, List.length_cons, List.length_nil, Nat.zero_add,
      Option.some.injEq, Walk.mk.injEq, true_and]
    exact ⟨by omega, by omega⟩
  · intro hno
    exact hf.fault fun hin => hno (inside_cons.mpr ⟨(inside_cons.mp hfirst).1, hin⟩)

lemma after_advance (hlen : b₁.length < 2 ^ 32) {n : ℕ} (hle : s.offset + n ≤ b₁.length) :
    { s.after memcmp b₁ b₂ ws s.offset with
      offset := advance (s.after memcmp b₁ b₂ ws s.offset).offset n } =
        s.after memcmp b₁ b₂ ws (s.offset + n) := by
  have hadvance : advance (s.after memcmp b₁ b₂ ws s.offset).offset n = s.offset + n :=
    advance_of_le hlen hle
  rw [hadvance]
  rfl

/-- A counted list of words, four bytes each. -/
lemma compares_compareWords (memcmp : Memcmp) (b₂ : List UInt8) (hlen : b₁.length < 2 ^ 32)
    (k : ℕ) (s : Walk) :
    Compares memcmp b₁ b₂ s (wordsAt s.offset k) (s.offset + 4 * k)
      (compareWords memcmp b₁ b₂ k s) := by
  induction k generalizing s with
  | zero =>
    refine ⟨fun _ => ?_, fun hno => absurd inside_nil hno⟩
    rw [compareWords, Walk.after, differences.eq_def]
    simp [wordsAt]
  | succ k ih =>
    rw [compareWords, wordsAt_succ]
    by_cases hfirst : s.offset + 4 ≤ b₁.length
    swap
    · have hfault : ¬ Inside b₁ b₂ [(s.offset, 4)] := fun hin => hfirst (inside_cons.mp hin).1.1
      rw [(compares_compareAt memcmp b₁ b₂ s 4).fault hfault]
      exact ⟨fun hin => absurd (inside_cons.mp hin).1.1 hfirst, fun _ => rfl⟩
    have hlast : s.offset + 4 * (k + 1) = s.offset + 4 + 4 * k := by omega
    rw [hlast]
    refine (compares_compareAt memcmp b₁ b₂ s 4).bind (s.offset + 4) ?_
    rw [after_advance hlen hfirst]
    exact ih (s.after memcmp b₁ b₂ [(s.offset, 4)] (s.offset + 4))

/-- One attribute, by the kind of its value. -/
lemma compares_cmpAttr (memcmp : Memcmp) (build : Build) (b₂ : List UInt8)
    (hlen : b₁.length < 2 ^ 32) (s : Walk) (a : ℕ) :
    Compares memcmp b₁ b₂ s (placesOf build b₁ s.offset a) (s.offset + passed b₁ s.offset a)
      (cmpAttr memcmp build b₁ b₂ s a) := by
  have hfirst := compares_compareAt memcmp b₁ b₂ s
  unfold placesOf passed cmpAttr
  by_cases hattrs : a = fattr4SupportedAttrs
  · rw [if_pos hattrs, if_pos hattrs, if_pos hattrs, wordsAt_succ]
    by_cases hin : s.offset + 4 ≤ b₁.length
    swap
    · rw [readAt_of_lt (by omega)]
      exact ⟨fun hall => absurd (inside_cons.mp hall).1.1 hin, fun _ => rfl⟩
    rw [readAt_of_le hin, ← Nat.add_assoc]
    refine (hfirst 4).bind (s.offset + 4) ?_
    rw [after_advance hlen hin]
    exact compares_compareWords memcmp b₂ hlen _ (s.after memcmp b₁ b₂ [(s.offset, 4)] (s.offset + 4))
  rw [if_neg hattrs, if_neg hattrs, if_neg hattrs]
  by_cases hname : isName a
  · rw [if_pos hname, if_pos hname, if_pos hname]
    by_cases hin : s.offset + 4 ≤ b₁.length
    swap
    · rw [readAt_of_lt (by omega)]
      exact ⟨fun hall => absurd (inside_cons.mp hall).1.1 hin, fun _ => rfl⟩
    rw [readAt_of_le hin]
    refine (hfirst 4).bind (s.offset + 4) ?_
    rw [after_advance hlen hin]
    exact compares_compareAt memcmp b₁ b₂ (s.after memcmp b₁ b₂ [(s.offset, 4)] (s.offset + 4)) _
  · rw [if_neg hname, if_neg hname, if_neg hname]
    exact hfirst _

/-- The loop adds up the differences at the places of the attributes before the first that the switch
does not know. -/
lemma cmpLoop_eq (hlen : b₁.length < 2 ^ 32) (l : List ℕ) (s : Walk) :
    cmpLoop memcmp build b₁ b₂ l s =
      if Inside b₁ b₂ (lookedAt build b₁ (l.takeWhile (· ≤ fattr4MountedOnFileid)) s.offset) then
        some (if (∃ a ∈ l, fattr4MountedOnFileid < a) ∨
          (s.cmp + differences memcmp b₁ b₂ s.calls
            (lookedAt build b₁ (l.takeWhile (· ≤ fattr4MountedOnFileid)) s.offset)) % 2 ^ 32 ≠ 0
          then 0 else 1)
      else none := by
  induction l generalizing s with
  | nil =>
    rw [List.takeWhile_nil, cmpLoop, lookedAt, if_pos inside_nil, differences, Int.add_zero]
    simp
  | cons a l ih =>
    rw [cmpLoop]
    by_cases ha : a ≤ fattr4MountedOnFileid
    swap
    · rw [if_neg ha, List.takeWhile_cons_of_neg (by simpa using ha), lookedAt, if_pos inside_nil, if_pos]
      exact Or.inl ⟨a, List.mem_cons_self, by omega⟩
    rw [if_pos ha, List.takeWhile_cons_of_pos (by simpa using ha), lookedAt]
    have hattr := compares_cmpAttr memcmp build b₂ hlen s a
    by_cases hin : Inside b₁ b₂ (placesOf build b₁ s.offset a)
    swap
    · rw [hattr.fault hin, if_neg fun h => hin (inside_append.mp h).1]
      rfl
    rw [hattr.inside hin, Option.bind_eq_bind, Option.bind_some, ih]
    have hexists : (∃ a' ∈ a :: l, fattr4MountedOnFileid < a') ↔
        ∃ a' ∈ l, fattr4MountedOnFileid < a' := by
      constructor
      · rintro ⟨a', ha', hlt⟩
        rcases List.mem_cons.mp ha' with rfl | ha'
        · exact absurd hlt (by omega)
        · exact ⟨a', ha', hlt⟩
      · rintro ⟨a', ha', hlt⟩
        exact ⟨a', List.mem_cons_of_mem _ ha', hlt⟩
    simp only [inside_append, hin, true_and, hexists, differences_append, Int.add_assoc, Walk.after]

/-! ## What the differences can add up to -/

/-- One place more in the lower bound. -/
lemma least_cons (w : ℕ × ℕ) : least b₁ b₂ bound (w :: ws) = least b₁ b₂ bound ws +
    if 0 < differenceAt b₁ b₂ w then 1 else if differenceAt b₁ b₂ w < 0 then -(bound : ℤ) else 0 := by
  unfold least above below
  rw [List.countP_cons, List.countP_cons]
  rcases lt_trichotomy (differenceAt b₁ b₂ w) 0 with hneg | hzero | hpos
  · simp only [hneg, not_lt_of_gt hneg, decide_true, decide_false, if_true, Bool.false_eq_true, if_false]
    push_cast
    ring
  · simp [hzero]
  · simp only [hpos, not_lt_of_gt hpos, decide_true, decide_false, if_true, Bool.false_eq_true, if_false]
    push_cast
    ring

/-- One place more in the upper bound. -/
lemma most_cons (w : ℕ × ℕ) : most b₁ b₂ bound (w :: ws) = most b₁ b₂ bound ws +
    if 0 < differenceAt b₁ b₂ w then (bound : ℤ) else if differenceAt b₁ b₂ w < 0 then -1 else 0 := by
  unfold most above below
  rw [List.countP_cons, List.countP_cons]
  rcases lt_trichotomy (differenceAt b₁ b₂ w) 0 with hneg | hzero | hpos
  · simp only [hneg, not_lt_of_gt hneg, decide_true, decide_false, if_true, Bool.false_eq_true, if_false]
    push_cast
    ring
  · simp [hzero]
  · simp only [hpos, not_lt_of_gt hpos, decide_true, decide_false, if_true, Bool.false_eq_true, if_false]
    push_cast
    ring

lemma length_slice {w : ℕ × ℕ} (h : w.1 + w.2 ≤ b₁.length ∧ w.1 + w.2 ≤ b₂.length) :
    ((b₁.drop w.1).take w.2).length = ((b₂.drop w.1).take w.2).length := by
  rw [List.length_take, List.length_take, List.length_drop, List.length_drop]
  omega

/-- Between which sums a memcmp of such sizes can end. -/
lemma Memcmp.Sound.differences_bounds (h : Memcmp.Sound bound memcmp) (hin : Inside b₁ b₂ ws) (call : ℕ) :
    least b₁ b₂ bound ws ≤ differences memcmp b₁ b₂ call ws ∧
      differences memcmp b₁ b₂ call ws ≤ most b₁ b₂ bound ws := by
  induction ws generalizing call with
  | nil => simp [least, most, above, below, differences]
  | cons w ws ih =>
    obtain ⟨hw, hin⟩ := inside_cons.mp hin
    obtain ⟨hlower, hupper⟩ := ih hin (call + 1)
    have hsign : _ = (differenceAt b₁ b₂ w).sign := h.sign call _ _ (length_slice hw)
    have hbounded := h.bounded call _ _ (length_slice hw)
    rw [least_cons, most_cons, differences]
    generalize memcmp call _ _ = r at hsign hbounded ⊢
    rcases lt_trichotomy (differenceAt b₁ b₂ w) 0 with hneg | hzero | hpos
    · rw [Int.sign_eq_neg_one_of_neg hneg, Int.sign_eq_neg_one_iff_neg] at hsign
      rw [if_neg (not_lt_of_gt hneg), if_pos hneg, if_neg (not_lt_of_gt hneg), if_pos hneg]
      omega
    · rw [hzero, Int.sign_zero, Int.sign_eq_zero_iff_zero] at hsign
      simp only [hzero, lt_irrefl, if_false, hsign]
      omega
    · rw [Int.sign_eq_one_of_pos hpos, Int.sign_eq_one_iff_pos] at hsign
      rw [if_pos hpos, if_pos hpos]
      omega

/-- The `memcmp` whose results have these sizes, call by call. -/
def signed (size : ℕ → ℕ) : Memcmp := fun call x y => (firstDifference x y).sign * size call

/-- A memcmp with the sizes and the sign of the bytes. -/
lemma sound_signed {size : ℕ → ℕ} (h : ∀ call, 0 < size call ∧ size call ≤ bound) :
    Memcmp.Sound bound (signed size) where
  sign call x y _ := by
    obtain ⟨hpos, -⟩ := h call
    have hsize : (size call : ℤ).sign = 1 := Int.sign_eq_one_of_pos (by omega)
    rw [signed, Int.sign_mul, hsize, Int.sign_sign, Int.mul_one]
  bounded call x y _ := by
    obtain ⟨-, hle⟩ := h call
    rw [signed, Int.natAbs_mul, Int.natAbs_natCast]
    have hsign : (firstDifference x y).sign.natAbs ≤ 1 := by
      rw [Int.natAbs_sign]
      split_ifs <;> decide
    calc (firstDifference x y).sign.natAbs * size call ≤ 1 * size call := Nat.mul_le_mul_right _ hsign
      _ ≤ bound := by omega

lemma differences_signed_congr {size size' : ℕ → ℕ} {call : ℕ}
    (h : ∀ c, call ≤ c → size c = size' c) :
    differences (signed size) b₁ b₂ call ws = differences (signed size') b₁ b₂ call ws := by
  induction ws generalizing call with
  | nil => rfl
  | cons w ws ih =>
    rw [differences, differences, ih fun c hc => h c (by omega), signed, signed, h call (Nat.le_refl _)]

lemma least_le_most (hbound : 0 < bound) : least b₁ b₂ bound ws ≤ most b₁ b₂ bound ws := by
  induction ws with
  | nil => simp [least, most, above, below]
  | cons w ws ih =>
    rw [least_cons, most_cons]
    split_ifs <;> omega

/-- Every sum from the least to the most is one of the results of a `memcmp`. -/
lemma exists_signed (hbound : 0 < bound) (call : ℕ) {t : ℤ} (hlower : least b₁ b₂ bound ws ≤ t)
    (hupper : t ≤ most b₁ b₂ bound ws) :
    ∃ size : ℕ → ℕ, (∀ c, 0 < size c ∧ size c ≤ bound) ∧
      differences (signed size) b₁ b₂ call ws = t := by
  induction ws generalizing call t with
  | nil =>
    have hzero : least b₁ b₂ bound [] = 0 ∧ most b₁ b₂ bound [] = 0 := by
      simp [least, most, above, below]
    refine ⟨fun _ => 1, fun _ => ⟨Nat.one_pos, hbound⟩, ?_⟩
    rw [differences]
    omega
  | cons w ws ih =>
    rw [least_cons] at hlower
    rw [most_cons] at hupper
    -- the size of the first result, so that the others can add up to what is left
    obtain ⟨n, hpos, hle, hleast, hmost⟩ : ∃ n : ℕ, 0 < n ∧ n ≤ bound ∧
        least b₁ b₂ bound ws ≤ t - (differenceAt b₁ b₂ w).sign * n ∧
        t - (differenceAt b₁ b₂ w).sign * n ≤ most b₁ b₂ bound ws := by
      have hnonempty : least b₁ b₂ bound ws ≤ most b₁ b₂ bound ws := least_le_most hbound
      rcases lt_trichotomy (differenceAt b₁ b₂ w) 0 with hneg | hzero | hpos
      · rw [if_neg (not_lt_of_gt hneg), if_pos hneg] at hlower hupper
        rw [Int.sign_eq_neg_one_of_neg hneg]
        refine ⟨(max 1 (least b₁ b₂ bound ws - t)).toNat, ?_, ?_, ?_, ?_⟩ <;> omega
      · rw [hzero, if_neg (lt_irrefl _), if_neg (lt_irrefl _)] at hlower hupper
        rw [hzero, Int.sign_zero]
        exact ⟨1, Nat.one_pos, hbound, by omega, by omega⟩
      · rw [if_pos hpos] at hlower hupper
        rw [Int.sign_eq_one_of_pos hpos]
        refine ⟨(max 1 (t - most b₁ b₂ bound ws)).toNat, ?_, ?_, ?_, ?_⟩ <;> omega
    obtain ⟨size, hsize, hsum⟩ := ih (call + 1) hleast hmost
    refine ⟨fun c => if c = call then n else size c, fun c => ?_, ?_⟩
    · dsimp only
      split_ifs
      · exact ⟨hpos, hle⟩
      · exact hsize c
    · have hrest : differences (signed fun c => if c = call then n else size c) b₁ b₂ (call + 1) ws =
          differences (signed size) b₁ b₂ (call + 1) ws :=
        differences_signed_congr fun c hc => if_neg (by omega)
      have hfirst : signed (fun c => if c = call then n else size c) call
          ((b₁.drop w.1).take w.2) ((b₂.drop w.1).take w.2) = (differenceAt b₁ b₂ w).sign * n := by
        rw [signed, if_pos rfl]
        rfl
      rw [differences, hrest, hsum, hfirst]
      omega

/-! ## The answer -/

lemma mem_attrs : a ∈ f₁.attrs ↔ f₁.attrmask.bit a = true := mem_bitmap4ToList

/-- An encoded value has no more attributes than the mask. -/
lemma Encodes.length_le (h : Encodes build f₁ value₁) : f₁.attrs.length ≤ attrmasklistSize := by
  have hsub : f₁.attrs ⊆ (List.range (build.last + 1)).filter build.supports := by
    intro a ha
    have hsupported := h.supported a ha
    rw [List.mem_filter, List.mem_range]
    refine ⟨?_, hsupported⟩
    by_contra hlarge
    unfold Build.supports at hsupported
    rw [List.getElem?_eq_none (by rw [fattr4tab_length]; omega)] at hsupported
    cases hsupported
  have hnodup : f₁.attrs.Nodup := (bitmap4ToList_sorted f₁.attrmask).imp Nat.ne_of_lt
  have hle := (List.subperm_of_subset hnodup hsub).length_le
  have hcount : ((List.range (build.last + 1)).filter build.supports).length ≤ attrmasklistSize := by
    cases build <;> decide +kernel
  exact hle.trans hcount

/-- A refusal is never the answer for equal values. -/
lemma checkLists_some {l₁ l₂ : List ℕ} {r : ℤ} (h : checkLists l₁ l₂ = some r) : r ≠ 1 := by
  induction l₁ generalizing l₂ with
  | nil => cases h
  | cons a l₁ ih =>
    cases l₂ with
    | nil => cases h
    | cons a' l₂ =>
      rw [checkLists] at h
      split_ifs at h
      · rw [← Option.some.inj h]
        decide
      · rw [← Option.some.inj h]
        decide
      · rw [← Option.some.inj h]
        decide
      · exact ih h

/-- When the comparison goes on to the values. -/
lemma checkLists_none {l₁ l₂ : List ℕ} (hlength : l₁.length = l₂.length) :
    checkLists l₁ l₂ = none ↔ l₁ = l₂ ∧ fattr4RdattrError ∉ l₁ := by
  induction l₁ generalizing l₂ with
  | nil =>
    rw [List.length_nil, eq_comm, List.length_eq_zero_iff] at hlength
    rw [hlength]
    simp [checkLists]
  | cons a l₁ ih =>
    cases l₂ with
    | nil => cases hlength
    | cons a' l₂ =>
      rw [checkLists, List.cons.injEq, List.mem_cons, not_or]
      by_cases ha : a ≠ a'
      · rw [if_pos ha]
        simp [ha]
      rw [if_neg ha]
      rw [not_not] at ha
      rw [← ha]
      by_cases herror : a = fattr4RdattrError
      · rw [if_pos herror]
        simp [herror]
      · rw [if_neg herror, if_neg herror, ih (by simpa using hlength)]
        simp [Ne.symm herror]

/-- The lists are walked through together: the bitmaps have the same number of words and the same
attributes, without `FATTR4_RDATTR_ERROR`. -/
def Comparable (f₁ f₂ : Fattr4) : Prop :=
  f₁.attrmask.len = f₂.attrmask.len ∧ f₁.attrs = f₂.attrs ∧ fattr4RdattrError ∉ f₁.attrs

/-- The places that are compared. -/
def seen (build : Build) (f₁ : Fattr4) : List (ℕ × ℕ) :=
  lookedAt build f₁.bytes (f₁.attrs.takeWhile (· ≤ fattr4MountedOnFileid)) 0

/-- Whatever `memcmp` is, there is an answer, which is TRUE exactly for the same attributes with the same
values. -/
def CmpLaw (bound : ℕ) (build : Build) (f₁ f₂ : Fattr4) (value₁ value₂ : ℕ → List UInt8) : Prop :=
  ∀ memcmp : Memcmp, memcmp.Sound bound →
    ∃ r, nfs4FattrCmp memcmp build f₁ f₂ = some r ∧ (r = 1 ↔ Same f₁ f₂ value₁ value₂)

/-- Lists that cannot be compared are not equal. -/
lemma nfs4FattrCmp_of_not_comparable (memcmp : Memcmp) (h₁ : Encodes build f₁ value₁) (h₂ : Encodes build f₂ value₂)
    (hno : ¬ Comparable f₁ f₂) : ∃ r, nfs4FattrCmp memcmp build f₁ f₂ = some r ∧ r ≠ 1 := by
  have hroom : ¬ (attrmasklistSize < f₁.attrs.length ∨ attrmasklistSize < f₂.attrs.length) := by
    have hle₁ := h₁.length_le
    have hle₂ := h₂.length_le
    omega
  unfold nfs4FattrCmp
  by_cases hlen : f₁.attrmask.len = f₂.attrmask.len
  swap
  · rw [if_pos hlen]
    exact ⟨0, rfl, by decide⟩
  rw [if_neg (not_not.mpr hlen), if_neg hroom]
  by_cases hlength : f₁.attrs.length = f₂.attrs.length
  swap
  · rw [if_pos hlength]
    exact ⟨0, rfl, by decide⟩
  rw [if_neg (not_not.mpr hlength)]
  cases hcheck : checkLists f₁.attrs f₂.attrs with
  | none => exact absurd ⟨hlen, (checkLists_none hlength).mp hcheck⟩ hno
  | some r => exact ⟨r, rfl, checkLists_some hcheck⟩

/-- Lists that can be compared: the sum over the places seen. -/
lemma nfs4FattrCmp_of_comparable (h₁ : Encodes build f₁ value₁) (h₂ : Encodes build f₂ value₂)
    (h : Comparable f₁ f₂) : nfs4FattrCmp memcmp build f₁ f₂ =
      if Inside f₁.bytes f₂.bytes (seen build f₁) then
        some (if (∃ a ∈ f₁.attrs, fattr4MountedOnFileid < a) ∨
          differences memcmp f₁.bytes f₂.bytes 0 (seen build f₁) % 2 ^ 32 ≠ 0 then 0 else 1)
      else none := by
  obtain ⟨hlen, hattrs, herror⟩ := h
  have hroom : ¬ (attrmasklistSize < f₁.attrs.length ∨ attrmasklistSize < f₂.attrs.length) := by
    have hle₁ := h₁.length_le
    have hle₂ := h₂.length_le
    omega
  have hlength : f₁.attrs.length = f₂.attrs.length := by rw [hattrs]
  unfold nfs4FattrCmp seen
  rw [if_neg (not_not.mpr hlen), if_neg hroom, if_neg (not_not.mpr hlength),
    (checkLists_none hlength).mpr ⟨hattrs, herror⟩]
  dsimp only
  have hlt : f₁.bytes.length < 2 ^ 32 := f₁.length_lt
  rw [cmpLoop_eq hlt, Int.zero_add]

/-- Equal values have equal bytes. -/
lemma Same.bytes (h : Same f₁ f₂ value₁ value₂) (h₁ : Encodes build f₁ value₁)
    (h₂ : Encodes build f₂ value₂) : f₁.attrs = f₂.attrs ∧ f₁.bytes = f₂.bytes := by
  have hattrs : f₁.attrs = f₂.attrs := by
    refine (bitmap4ToList_sorted _).eq_of_mem_iff (bitmap4ToList_sorted _) fun a => ?_
    show a ∈ f₁.attrs ↔ a ∈ f₂.attrs
    rw [mem_attrs, mem_attrs, h.bit]
  refine ⟨hattrs, ?_⟩
  rw [h₁.bytes, h₂.bytes, ← hattrs]
  exact List.flatMap_congr h.value

lemma same_iff (hattrs : f₁.attrs = f₂.attrs) :
    Same f₁ f₂ value₁ value₂ ↔ ∀ a ∈ f₁.attrs, value₁ a = value₂ a := by
  refine ⟨Same.value, fun h => ⟨fun a => ?_, h⟩⟩
  rw [Bool.eq_iff_iff, ← mem_attrs, ← mem_attrs, hattrs]

lemma firstDifference_self (x : List UInt8) : firstDifference x x = 0 := by
  induction x with
  | nil => rfl
  | cons b x ih => rw [firstDifference, if_pos rfl, ih]

/-- A buffer does not differ from itself. -/
lemma differences_self (hmemcmp : Memcmp.Sound bound memcmp) (b : List UInt8) (call : ℕ)
    (ws : List (ℕ × ℕ)) : differences memcmp b b call ws = 0 := by
  induction ws generalizing call with
  | nil => rfl
  | cons w ws ih =>
    have hsign := hmemcmp.sign call ((b.drop w.1).take w.2) _ rfl
    rw [firstDifference_self, Int.sign_zero, Int.sign_eq_zero_iff_zero] at hsign
    rw [differences, ih, hsign, Int.add_zero]

lemma exists_sound (hbound : 0 < bound) : ∃ memcmp, Memcmp.Sound bound memcmp :=
  ⟨signed fun _ => 1, sound_signed fun _ => ⟨Nat.one_pos, hbound⟩⟩

/-- The bitmaps or the sizes of the lists tell that the values are not the same, or the answer is not
TRUE. -/
lemma cmpLaw_of_not_comparable (hbound : 0 < bound) (h₁ : Encodes build f₁ value₁)
    (h₂ : Encodes build f₂ value₂) (hno : ¬ Comparable f₁ f₂) :
    CmpLaw bound build f₁ f₂ value₁ value₂ ↔ ¬ Same f₁ f₂ value₁ value₂ := by
  constructor
  · intro h hsame
    obtain ⟨memcmp, hmemcmp⟩ := exists_sound hbound
    obtain ⟨r, hr, hiff⟩ := h memcmp hmemcmp
    obtain ⟨r', hr', hne⟩ := nfs4FattrCmp_of_not_comparable memcmp h₁ h₂ hno
    obtain rfl : r = r' := Option.some.inj (hr.symm.trans hr')
    exact hne (hiff.mpr hsame)
  · intro hsame memcmp _
    obtain ⟨r, hr, hne⟩ := nfs4FattrCmp_of_not_comparable memcmp h₁ h₂ hno
    exact ⟨r, hr, fun hone => absurd hone hne, fun h => absurd h hsame⟩

/-- The lists are walked through: the answer is right if the places are inside of the buffers, and exactly
equal values have no attribute above 55 and differences that add up to a multiple of 2^32. -/
lemma cmpLaw_iff_differences (hbound : 0 < bound) (h₁ : Encodes build f₁ value₁)
    (h₂ : Encodes build f₂ value₂) (h : Comparable f₁ f₂) :
    CmpLaw bound build f₁ f₂ value₁ value₂ ↔ Inside f₁.bytes f₂.bytes (seen build f₁) ∧
      ∀ memcmp, Memcmp.Sound bound memcmp →
        ((∃ a ∈ f₁.attrs, fattr4MountedOnFileid < a) ∨
          differences memcmp f₁.bytes f₂.bytes 0 (seen build f₁) % 2 ^ 32 ≠ 0 ↔
            ∃ a ∈ f₁.attrs, value₁ a ≠ value₂ a) := by
  have hsame : Same f₁ f₂ value₁ value₂ ↔ ¬ ∃ a ∈ f₁.attrs, value₁ a ≠ value₂ a := by
    rw [same_iff h.2.1]
    simp
  have hanswer := fun memcmp => @nfs4FattrCmp_of_comparable memcmp _ _ _ _ _ h₁ h₂ h
  constructor
  · intro hlaw
    obtain ⟨sound, hsound⟩ := exists_sound hbound
    have hin : Inside f₁.bytes f₂.bytes (seen build f₁) := by
      by_contra hno
      obtain ⟨r, hr, -⟩ := hlaw sound hsound
      rw [hanswer, if_neg hno] at hr
      cases hr
    refine ⟨hin, fun memcmp hmemcmp => ?_⟩
    obtain ⟨r, hr, hiff⟩ := hlaw memcmp hmemcmp
    rw [hanswer, if_pos hin] at hr
    rw [← Option.some.inj hr, hsame] at hiff
    split_ifs at hiff with hlarge
    · exact iff_of_true hlarge (not_not.mp fun hno => absurd (hiff.mpr hno) (by decide))
    · exact iff_of_false hlarge (hiff.mp rfl)
  · rintro ⟨hin, hall⟩ memcmp hmemcmp
    have hiff := hall memcmp hmemcmp
    rw [hanswer, if_pos hin, hsame]
    split_ifs with hlarge
    · exact ⟨0, rfl, iff_of_false (by decide) (not_not.mpr (hiff.mp hlarge))⟩
    · exact ⟨1, rfl, iff_of_true rfl fun hdiffers => hlarge (hiff.mpr hdiffers)⟩

/-- The places have to be inside of the buffers, and differences must not be passed by, nor cancel. -/
lemma cmpLaw_of_comparable (hbound : 0 < bound) (h₁ : Encodes build f₁ value₁)
    (h₂ : Encodes build f₂ value₂) (h : Comparable f₁ f₂) :
    CmpLaw bound build f₁ f₂ value₁ value₂ ↔ Inside f₁.bytes f₂.bytes (seen build f₁) ∧
      if ∃ a ∈ f₁.attrs, value₁ a ≠ value₂ a then
        (∃ a ∈ f₁.attrs, fattr4MountedOnFileid < a) ∨ ¬ Cancels f₁.bytes f₂.bytes bound (seen build f₁)
      else ¬ ∃ a ∈ f₁.attrs, fattr4MountedOnFileid < a := by
  rw [cmpLaw_iff_differences hbound h₁ h₂ h]
  refine and_congr_right fun hin => ?_
  by_cases hdiffers : ∃ a ∈ f₁.attrs, value₁ a ≠ value₂ a
  · rw [if_pos hdiffers]
    simp only [hdiffers, iff_true]
    constructor
    · intro hall
      by_contra hno
      obtain ⟨hlarge, hcancels⟩ := not_or.mp hno
      obtain ⟨m, hleast, hmost⟩ := not_not.mp hcancels
      obtain ⟨size, hsize, hsum⟩ := exists_signed hbound 0 hleast hmost
      refine (hall (signed size) (sound_signed hsize)).elim hlarge fun hmod => hmod ?_
      rw [hsum]
      exact Int.mul_emod_left m (2 ^ 32)
    · intro hor memcmp hmemcmp
      refine hor.imp_right fun hno hmod => hno ?_
      obtain ⟨hleast, hmost⟩ := hmemcmp.differences_bounds hin 0
      obtain ⟨m, hm⟩ := Int.dvd_of_emod_eq_zero hmod
      exact ⟨m, by omega, by omega⟩
  · obtain ⟨sound, hsound⟩ := exists_sound hbound
    have hsame : Same f₁ f₂ value₁ value₂ := (same_iff h.2.1).mpr (by simpa using hdiffers)
    have hzero : ∀ memcmp, Memcmp.Sound bound memcmp →
        ¬ differences memcmp f₁.bytes f₂.bytes 0 (seen build f₁) % 2 ^ 32 ≠ 0 := by
      intro memcmp hmemcmp hmod
      rw [(hsame.bytes h₁ h₂).2, differences_self hmemcmp] at hmod
      exact hmod (by decide)
    rw [if_neg hdiffers]
    simp only [hdiffers, iff_false, not_or]
    exact ⟨fun hall => (hall sound hsound).1, fun hno memcmp hmemcmp => ⟨hno, hzero memcmp hmemcmp⟩⟩

/-- The answer is right if and only if two things hold. Values that are the same have bitmaps of the
same length, in which there are neither `FATTR4_RDATTR_ERROR` nor attributes above 55. And when the
lists are walked through, the places that are compared are inside of the buffers, and if a value
differs there is an attribute above 55, or the numbers of places at which the one and the other value is
greater are such that what `memcmp` says cannot add up to a multiple of 2^32. -/
theorem cmpLaw_iff {bound : ℕ} {build : Build} {f₁ f₂ : Fattr4} {value₁ value₂ : ℕ → List UInt8}
    (hbound : 0 < bound) (h₁ : Encodes build f₁ value₁) (h₂ : Encodes build f₂ value₂) :
    CmpLaw bound build f₁ f₂ value₁ value₂ ↔
      (Same f₁ f₂ value₁ value₂ →
        Comparable f₁ f₂ ∧ ∀ a ∈ f₁.attrs, a ≤ fattr4MountedOnFileid) ∧
      (Comparable f₁ f₂ → Inside f₁.bytes f₂.bytes (seen build f₁) ∧
        ((∃ a ∈ f₁.attrs, value₁ a ≠ value₂ a) → (∃ a ∈ f₁.attrs, fattr4MountedOnFileid < a) ∨
          ¬ Cancels f₁.bytes f₂.bytes bound (seen build f₁))) := by
  by_cases hcomparable : Comparable f₁ f₂
  swap
  · rw [cmpLaw_of_not_comparable hbound h₁ h₂ hcomparable]
    exact ⟨fun hno => ⟨fun hsame => absurd hsame hno, fun h => absurd h hcomparable⟩,
      fun h hsame => hcomparable (h.1 hsame).1⟩
  rw [cmpLaw_of_comparable hbound h₁ h₂ hcomparable, same_iff hcomparable.2.1]
  by_cases hdiffers : ∃ a ∈ f₁.attrs, value₁ a ≠ value₂ a
  · have hnot : ¬ ∀ a ∈ f₁.attrs, value₁ a = value₂ a := by simpa using hdiffers
    rw [if_pos hdiffers]
    exact ⟨fun h => ⟨fun hall => absurd hall hnot, fun _ => ⟨h.1, fun _ => h.2⟩⟩,
      fun h => ⟨(h.2 hcomparable).1, (h.2 hcomparable).2 hdiffers⟩⟩
  · have hall : ∀ a ∈ f₁.attrs, value₁ a = value₂ a := by simpa using hdiffers
    rw [if_neg hdiffers]
    constructor
    · rintro ⟨hin, hsmall⟩
      exact ⟨fun _ => ⟨hcomparable, by simpa using hsmall⟩, fun _ => ⟨hin, fun h => absurd h hdiffers⟩⟩
    · rintro ⟨hsmall, hin⟩
      exact ⟨(hin hcomparable).1, by simpa using (hsmall hall).2⟩

/-- A size. -/
def sizeValue (size : UInt8) : Fattr4 where
  attrmask := { len := 1, val := [0x10] }
  attrVals := some [0, 0, 0, 0, 0, 0, 0, size]
  length_lt := by
    show 8 < 2 ^ 32
    decide

/-- A type and a change number. -/
def typeAndChange (change : UInt8) : Fattr4 where
  attrmask := { len := 1, val := [0xa] }
  attrVals := some [0, 0, 0, 1, 0, 0, 0, 0, 0, 0, 0, change]
  length_lt := by
    show 12 < 2 ^ 32
    decide

/-- The values of both. -/
def sampleValue (n : UInt8) (a : ℕ) : List UInt8 :=
  if a = fattr4Type then [0, 0, 0, 1] else [0, 0, 0, 0, 0, 0, 0, n]

/-- Two sizes are not the same, and the answer says so. -/
theorem cmpLaw_of_sizes :
    CmpLaw 255 .nfs40 (sizeValue 5) (sizeValue 6) (sampleValue 5) (sampleValue 6) := by
  have h₁ : Encodes .nfs40 (sizeValue 5) (sampleValue 5) :=
    ⟨by decide +kernel, by decide +kernel, by decide +kernel⟩
  have h₂ : Encodes .nfs40 (sizeValue 6) (sampleValue 6) :=
    ⟨by decide +kernel, by decide +kernel, by decide +kernel⟩
  refine (cmpLaw_iff (by decide) h₁ h₂).mpr ⟨fun hsame => ?_, fun _ => ⟨by decide +kernel,
    fun _ => Or.inr ?_⟩⟩
  · exact absurd (hsame.value fattr4Size (by decide +kernel)) (by decide)
  · have hmost : most (sizeValue 5).bytes (sizeValue 6).bytes 255 (seen .nfs40 (sizeValue 5)) = -1 := by
      decide +kernel
    have hleast : least (sizeValue 5).bytes (sizeValue 6).bytes 255 (seen .nfs40 (sizeValue 5)) =
        -255 := by
      decide +kernel
    rintro ⟨m, hm⟩
    rw [hmost, hleast] at hm
    omega

/-- Two change numbers differ in their last byte, behind the places that are compared: the answer is
TRUE. -/
theorem not_cmpLaw_of_changes :
    Encodes .nfs40 (typeAndChange 5) (sampleValue 5) ∧
      Encodes .nfs40 (typeAndChange 6) (sampleValue 6) ∧
      ¬ CmpLaw 255 .nfs40 (typeAndChange 5) (typeAndChange 6) (sampleValue 5) (sampleValue 6) := by
  refine ⟨⟨by decide +kernel, by decide +kernel, by decide +kernel⟩,
    ⟨by decide +kernel, by decide +kernel, by decide +kernel⟩, fun hlaw => ?_⟩
  obtain ⟨r, hr, hiff⟩ := hlaw (signed fun _ => 1) (sound_signed fun _ => ⟨Nat.one_pos, by decide⟩)
  have htrue : nfs4FattrCmp (signed fun _ => 1) .nfs40 (typeAndChange 5) (typeAndChange 6) = some 1 := by
    decide +kernel
  rw [htrue] at hr
  have hsame := hiff.mp (Option.some.inj hr).symm
  exact absurd (hsame.value fattr4Change (by decide +kernel)) (by decide)

end Ganesha.Fattr
