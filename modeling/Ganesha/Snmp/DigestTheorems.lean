import Ganesha.Snmp.Digest
import Mathlib.Tactic.IntervalCases

/-!
# Digests of SNMP handles, theorems

A digest that is made can be expanded to the same handle, and it is made if the sub-identifiers fit in
23 bytes with the indexes of those that take more than one (`expandHandle_digestHandle`).

`At bytes off bs` says that the bytes `bs` are at an offset; `Stores` that they have just been stored
there and nothing else.
-/

namespace Ganesha.Snmp

variable {bytes bytes' : ℕ → UInt8} {b b' b'' : Buffer} {off curr i x : ℕ} {bs cs : List ℕ}

/-! ## Bytes -/

/-- The numbers `bs` are stored as bytes from an offset on. -/
def At (bytes : ℕ → UInt8) : ℕ → List ℕ → Prop
  | _, [] => True
  | off, x :: xs => (bytes off).toNat = x ∧ At bytes (off + 1) xs

lemma At.append : At bytes off (bs ++ cs) ↔ At bytes off bs ∧ At bytes (off + bs.length) cs := by
  induction bs generalizing off with
  | nil => simp [At]
  | cons x xs ih =>
    rw [List.cons_append, At, At, ih, List.length_cons, Nat.add_right_comm, and_assoc,
      Nat.add_assoc]

/-- Bytes elsewhere may change. -/
lemma At.congr (h : At bytes off bs)
    (hsame : ∀ i, off ≤ i → i < off + bs.length → bytes' i = bytes i) : At bytes' off bs := by
  induction bs generalizing off with
  | nil => trivial
  | cons x xs ih =>
    rw [List.length_cons] at hsame
    refine ⟨?_, ih h.2 fun i hle hlt => hsame i (by omega) (by omega)⟩
    rw [hsame off le_rfl (by omega)]
    exact h.1

/-- The bytes `bs` have been stored at an offset. -/
structure Stores (b b' : Buffer) (off : ℕ) (bs : List ℕ) : Prop where
  inside : At b'.bytes off bs
  outside : ∀ i, i < off ∨ off + bs.length ≤ i → b'.bytes i = b.bytes i
  written : ∀ i ∈ b'.written, i ∈ b.written ∨ off ≤ i ∧ i < off + bs.length

lemma Stores.nil (b : Buffer) (off : ℕ) : Stores b b off [] :=
  ⟨trivial, fun _ _ => rfl, fun _ hi => .inl hi⟩

/-- Bytes stored one after the other. -/
lemma Stores.append (h : Stores b b' off bs) (h' : Stores b' b'' (off + bs.length) cs) :
    Stores b b'' off (bs ++ cs) := by
  refine ⟨At.append.mpr ⟨h.inside.congr fun i _ hlt => h'.outside i (.inl hlt), h'.inside⟩,
    fun i hi => ?_, fun i hi => ?_⟩
  · rw [List.length_append] at hi
    rw [h'.outside i (by omega), h.outside i (by omega)]
  · rw [List.length_append]
    rcases h'.written i hi with hi | hi
    · rcases h.written i hi with hi | hi
      · exact .inl hi
      · exact .inr (by omega)
    · exact .inr (by omega)

/-- One byte. -/
lemma Stores.store (b : Buffer) (off : ℕ) (hx : x < 256) : Stores b (b.store off x) off [x] := by
  refine ⟨⟨?_, trivial⟩, fun i hi => ?_, fun i hi => ?_⟩
  · have hself : (b.store off x).bytes off = UInt8.ofNat x := Function.update_self ..
    rw [hself, UInt8.toNat_ofNat', Nat.mod_eq_of_lt hx]
  · rw [List.length_singleton] at hi
    have hne : i ≠ off := by
      rcases hi with hi | hi
      · exact hi.ne
      · omega
    exact Function.update_of_ne hne ..
  · rcases List.mem_cons.mp hi with rfl | hi
    · exact .inr ⟨le_rfl, Nat.lt_succ_self _⟩
    · exact .inl hi

/-- One byte in front. -/
lemma Stores.before (h : Stores b b' (off + 1) bs) (hx : x < 256) :
    Stores b (b'.store off x) off (x :: bs) := by
  have hstore := Stores.store b' off hx
  refine ⟨⟨hstore.inside.1, h.inside.congr fun i hle _ => hstore.outside i (.inr ?_)⟩,
    fun i hi => ?_, fun i hi => ?_⟩
  · rw [List.length_singleton]
    exact hle
  · rw [List.length_cons] at hi
    rw [hstore.outside i (by rw [List.length_singleton]; omega), h.outside i (by omega)]
  · rw [List.length_cons]
    rcases hstore.written i hi with hi | hi
    · rcases h.written i hi with hi | hi
      · exact .inl hi
      · exact .inr (by omega)
    · rw [List.length_singleton] at hi
      exact .inr (by omega)

/-- Zeros. -/
lemma Stores.clear (b : Buffer) (n : ℕ) : Stores b (b.clear n) 0 (List.replicate n 0) := by
  induction n with
  | zero => exact .nil b 0
  | succ n ih =>
    rw [List.replicate_succ', Buffer.clear]
    refine ih.append ?_
    rw [List.length_replicate, Nat.zero_add]
    exact Stores.store _ n (by decide)

/-- At most the first `n` bytes have been written. -/
structure Touches (b b' : Buffer) (n : ℕ) : Prop where
  outside : ∀ i, n ≤ i → b'.bytes i = b.bytes i
  written : ∀ i ∈ b'.written, i ∈ b.written ∨ i < n

lemma Stores.touches {n : ℕ} (h : Stores b b' off bs) (hn : off + bs.length ≤ n) : Touches b b' n where
  outside i hi := h.outside i (.inr (by omega))
  written i hi := (h.written i hi).imp id fun hi => by omega

lemma Touches.trans {n : ℕ} (h : Touches b b' n) (h' : Touches b' b'' n) : Touches b b'' n where
  outside i hi := (h'.outside i hi).trans (h.outside i hi)
  written i hi := by
    rcases h'.written i hi with hi | hi
    · exact h.written i hi
    · exact .inr hi

lemma Touches.mono {m n : ℕ} (h : Touches b b' m) (hmn : m ≤ n) : Touches b b' n where
  outside i hi := h.outside i (by omega)
  written i hi := (h.written i hi).imp id fun hi => by omega

/-! ## The header -/

lemma BitField.set_of_lt {f : BitField} {v : ℕ} (hv : v < 2 ^ f.pos) (hx : x < 2 ^ f.width) :
    f.set v x = v + x * 2 ^ f.pos := by
  rw [BitField.set, BitField.get, Nat.div_eq_of_lt hv, Nat.zero_mod, Nat.zero_mul, Nat.sub_zero,
    Nat.mod_eq_of_lt hx]

/-- A bit field that is still zero. -/
lemma setField_of_lt {f : BitField} (hv : header b.bytes < 2 ^ f.pos) (hx : x < 2 ^ f.width)
    (hfits : header b.bytes + x * 2 ^ f.pos < 2 ^ 16) :
    header (b.setField f x).bytes = header b.bytes + x * 2 ^ f.pos ∧ Touches b (b.setField f x) 2 := by
  have hset := BitField.set_of_lt hv hx
  have hstores : Stores b (b.setField f x) 0
      [f.set (header b.bytes) x % 256, f.set (header b.bytes) x / 256] :=
    (Stores.store b 0 (Nat.mod_lt _ (by decide))).append (Stores.store _ 1 (by omega))
  obtain ⟨h0, h1, -⟩ := hstores.inside
  refine ⟨?_, hstores.touches le_rfl⟩
  rw [header, h0, h1, ← hset]
  omega

/-! ## Indexes -/

/-- The number of bytes of a sub-identifier. -/
def valueBytes (x : ℕ) : List ℕ :=
  if x > maxShortVal then [x >>> 24 &&& 0xFF, x >>> 16 &&& 0xFF, x >>> 8 &&& 0xFF, x &&& 0xFF]
  else if x > maxCharVal then [x >>> 8 &&& 0xFF, x &&& 0xFF]
  else [x &&& 0xFF]

lemma and_255_lt (n : ℕ) : n &&& 0xFF < 256 := Nat.and_lt_two_pow n (by decide : 0xFF < 2 ^ 8)

/-- The indexes, one byte each. -/
lemma storeIndexes_spec {is : List ℕ} (h : ∀ j ∈ is, j < 256) :
    Stores b (storeIndexes b curr is).1 curr is ∧ (storeIndexes b curr is).2 = curr + is.length := by
  induction is generalizing b curr with
  | nil => exact ⟨.nil b curr, rfl⟩
  | cons j is ih =>
    obtain ⟨hstores, hcurr⟩ := @ih (b.store curr j) (curr + 1)
      fun k hk => h k (List.mem_cons_of_mem j hk)
    rw [storeIndexes]
    refine ⟨(Stores.store b curr (h j List.mem_cons_self)).append hstores, ?_⟩
    rw [hcurr, List.length_cons]
    omega

/-- The bytes of all sub-identifiers. -/
def oidBytes (oids : List ℕ) : List ℕ := oids.flatMap valueBytes

/-- The numbers, in one, two or four bytes. -/
lemma storeOids_spec {oids : List ℕ} (h : curr + (oidBytes oids).length ≤ digestSizeHdlv2) :
    (storeOids b curr oids).1 = .noError ∧ Stores b (storeOids b curr oids).2 curr (oidBytes oids) := by
  induction oids generalizing b curr with
  | nil => exact ⟨rfl, .nil b curr⟩
  | cons x xs ih =>
    rw [oidBytes, List.flatMap_cons, List.length_append] at h
    have hrest : curr + (valueBytes x).length + (oidBytes xs).length ≤ digestSizeHdlv2 := by
      rw [oidBytes]
      omega
    -- each kind of value is stored from its last byte to its first
    have hstep : ∃ b', storeOids b curr (x :: xs) = storeOids b' (curr + (valueBytes x).length) xs ∧
        Stores b b' curr (valueBytes x) := by
      rw [storeOids]
      by_cases hint : x > maxShortVal
      · have hlen : (valueBytes x).length = 4 := by rw [valueBytes, if_pos hint]; rfl
        rw [hlen] at hrest ⊢
        rw [valueBytes, if_pos hint, if_pos hint, if_neg (by omega)]
        refine ⟨_, rfl, ?_⟩
        exact (((Stores.store b (curr + 3) (and_255_lt _)).before (and_255_lt _)).before
          (and_255_lt _)).before (and_255_lt _)
      · by_cases hshort : x > maxCharVal
        · have hlen : (valueBytes x).length = 2 := by
            rw [valueBytes, if_neg hint, if_pos hshort]
            rfl
          rw [hlen] at hrest ⊢
          rw [valueBytes, if_neg hint, if_pos hshort, if_neg hint, if_pos hshort, if_neg (by omega)]
          exact ⟨_, rfl, (Stores.store b (curr + 1) (and_255_lt _)).before (and_255_lt _)⟩
        · have hlen : (valueBytes x).length = 1 := by
            rw [valueBytes, if_neg hint, if_neg hshort]
            rfl
          rw [hlen] at hrest ⊢
          rw [valueBytes, if_neg hint, if_neg hshort, if_neg hint, if_neg hshort, if_neg (by omega)]
          exact ⟨_, rfl, Stores.store b curr (and_255_lt _)⟩
    obtain ⟨b', hrun, hstores⟩ := hstep
    obtain ⟨hok, hstores'⟩ := ih (b := b') hrest
    rw [hrun]
    exact ⟨hok, hstores.append hstores'⟩

/-- Indexes lie in the table. -/
lemma tabIndexes_bounds (oids : List ℕ) (i : ℕ) :
    (∀ j ∈ (tabIndexes oids i).1, i ≤ j ∧ j < i + oids.length) ∧
      ∀ j ∈ (tabIndexes oids i).2, i ≤ j ∧ j < i + oids.length := by
  induction oids generalizing i with
  | nil => exact ⟨fun j hj => absurd hj List.not_mem_nil, fun j hj => absurd hj List.not_mem_nil⟩
  | cons x xs ih =>
    obtain ⟨hshorts, hints⟩ := ih (i + 1)
    rw [tabIndexes, List.length_cons]
    have hshorts' : ∀ j ∈ (tabIndexes xs (i + 1)).1, i ≤ j ∧ j < i + (xs.length + 1) := by
      intro j hj
      have := hshorts j hj
      omega
    have hints' : ∀ j ∈ (tabIndexes xs (i + 1)).2, i ≤ j ∧ j < i + (xs.length + 1) := by
      intro j hj
      have := hints j hj
      omega
    have hhead : ∀ {l : List ℕ}, (∀ j ∈ l, i ≤ j ∧ j < i + (xs.length + 1)) →
        ∀ j ∈ i :: l, i ≤ j ∧ j < i + (xs.length + 1) := by
      intro l hl j hj
      rcases List.mem_cons.mp hj with rfl | hj
      · omega
      · exact hl j hj
    simp only
    split_ifs
    · exact ⟨hshorts', hhead hints'⟩
    · exact ⟨hhead hshorts', hints'⟩
    · exact ⟨hshorts', hints'⟩

lemma head?_tabIndexes_ne {l : List ℕ} (h : ∀ j ∈ l, i + 1 ≤ j ∧ j < x) : l.head? ≠ some i := by
  intro hhead
  have hmem := List.mem_of_mem_head? hhead
  have hle := (h i hmem).1
  omega

lemma four_bytes (h : x < 2 ^ 32) :
    (x &&& 0xFF) + (x >>> 8 &&& 0xFF) <<< 8 + (x >>> 16 &&& 0xFF) <<< 16 +
      (x >>> 24 &&& 0xFF) <<< 24 = x := by
  have hand : ∀ n, n &&& 0xFF = n % 256 := fun n => Nat.and_two_pow_sub_one_eq_mod n 8
  rw [hand, hand, hand, hand, Nat.shiftLeft_eq, Nat.shiftLeft_eq, Nat.shiftLeft_eq,
    Nat.shiftRight_eq_div_pow, Nat.shiftRight_eq_div_pow, Nat.shiftRight_eq_div_pow]
  omega

lemma two_bytes (h : x < 2 ^ 16) : (x &&& 0xFF) + (x >>> 8 &&& 0xFF) <<< 8 = x := by
  have hand : ∀ n, n &&& 0xFF = n % 256 := fun n => Nat.and_two_pow_sub_one_eq_mod n 8
  rw [hand, hand, Nat.shiftLeft_eq, Nat.shiftRight_eq_div_pow]
  omega

/-- What was stored is read back. -/
lemma readOids_spec {oids : List ℕ} (hsmall : ∀ x ∈ oids, x < 2 ^ 32)
    (hat : At bytes curr (oidBytes oids)) :
    readOids bytes oids.length i curr (tabIndexes oids i).2 (tabIndexes oids i).1 = oids := by
  induction oids generalizing i curr with
  | nil => rfl
  | cons x xs ih =>
    rw [oidBytes, List.flatMap_cons, At.append] at hat
    obtain ⟨hx, hxs⟩ := hat
    -- the bytes of the first number are followed by those of the rest
    have hrest : ∀ curr', curr' = curr + (valueBytes x).length →
        readOids bytes xs.length (i + 1) curr' (tabIndexes xs (i + 1)).2
          (tabIndexes xs (i + 1)).1 = xs := by
      rintro curr' rfl
      exact ih (fun y hy => hsmall y (List.mem_cons_of_mem x hy)) hxs
    obtain ⟨hshorts, hints⟩ := tabIndexes_bounds xs (i + 1)
    have hnoInt := head?_tabIndexes_ne hints
    have hnoShort := head?_tabIndexes_ne hshorts
    rw [tabIndexes, List.length_cons, readOids]
    simp only
    by_cases hint : x > maxShortVal
    · rw [valueBytes, if_pos hint] at hx hrest
      obtain ⟨h0, h1, h2, h3, -⟩ := hx
      rw [if_pos hint]
      simp only [List.head?_cons, if_true, List.tail_cons]
      have h2 : (bytes (curr + 2)).toNat = x >>> 8 &&& 0xFF := h2
      have h3 : (bytes (curr + 3)).toNat = x &&& 0xFF := h3
      rw [hrest (curr + 4) rfl, h0, h1, h2, h3, four_bytes (hsmall x List.mem_cons_self)]
    · by_cases hshort : x > maxCharVal
      · rw [valueBytes, if_neg hint, if_pos hshort] at hx hrest
        obtain ⟨h0, h1, -⟩ := hx
        rw [if_neg hint, if_pos hshort]
        simp only [hnoInt, if_false, List.head?_cons, if_true, List.tail_cons]
        rw [maxShortVal] at hint
        rw [hrest (curr + 2) rfl, h0, h1, two_bytes (by omega)]
      · rw [valueBytes, if_neg hint, if_neg hshort] at hx hrest
        rw [if_neg hint, if_neg hshort]
        simp only [hnoInt, hnoShort, if_false]
        rw [maxCharVal] at hshort
        rw [hrest (curr + 1) rfl, hx.1]
        have hand : x &&& 0xFF = x % 256 := Nat.and_two_pow_sub_one_eq_mod x 8
        rw [hand, Nat.mod_eq_of_lt (by omega)]

lemma readIndexes_spec {is : List ℕ} (h : At bytes curr is) : readIndexes bytes curr is.length = is := by
  induction is generalizing curr with
  | nil => rfl
  | cons j is ih =>
    rw [List.length_cons, readIndexes, h.1, ih h.2]

/-! ## Counts -/

/-- The number of sub-identifiers of one byte. -/
def nbByte (oids : List ℕ) : ℕ := oids.countP (· ≤ maxCharVal)

/-- The number of sub-identifiers of two bytes. -/
def nbShort (oids : List ℕ) : ℕ := oids.countP fun x => maxCharVal < x ∧ x ≤ maxShortVal

/-- The number of sub-identifiers of more bytes. -/
def nbInt (oids : List ℕ) : ℕ := oids.countP (maxShortVal < ·)

/-- How many numbers of each width there are. -/
lemma tabIndexes_length (oids : List ℕ) (i : ℕ) :
    (tabIndexes oids i).1.length = nbShort oids ∧ (tabIndexes oids i).2.length = nbInt oids ∧
      nbByte oids + nbShort oids + nbInt oids = oids.length ∧
      (oidBytes oids).length = nbByte oids + 2 * nbShort oids + 4 * nbInt oids := by
  induction oids generalizing i with
  | nil => exact ⟨rfl, rfl, rfl, rfl⟩
  | cons x xs ih =>
    obtain ⟨hshorts, hints, htotal, hbytes⟩ := ih (i + 1)
    have hconst : maxCharVal < maxShortVal := by decide
    simp only [nbByte, nbShort, nbInt, oidBytes] at hshorts hints htotal hbytes ⊢
    rw [tabIndexes]
    simp only [List.countP_cons, List.flatMap_cons, List.length_append, List.length_cons,
      decide_eq_true_eq]
    by_cases hint : x > maxShortVal
    · have hb : ¬ x ≤ maxCharVal := by omega
      have hs : ¬ (maxCharVal < x ∧ x ≤ maxShortVal) := by omega
      have hlen : (valueBytes x).length = 4 := by rw [valueBytes, if_pos hint]; rfl
      rw [if_pos hint, if_neg hb, if_neg hs, if_pos hint, hlen]
      simp only [List.length_cons]
      omega
    · by_cases hshort : x > maxCharVal
      · have hb : ¬ x ≤ maxCharVal := by omega
        have hs : maxCharVal < x ∧ x ≤ maxShortVal := by omega
        have hlen : (valueBytes x).length = 2 := by
          rw [valueBytes, if_neg hint, if_pos hshort]
          rfl
        rw [if_neg hint, if_pos hshort, if_neg hb, if_pos hs, if_neg hint, hlen]
        simp only [List.length_cons]
        omega
      · have hb : x ≤ maxCharVal := by omega
        have hs : ¬ (maxCharVal < x ∧ x ≤ maxShortVal) := by omega
        have hlen : (valueBytes x).length = 1 := by
          rw [valueBytes, if_neg hint, if_neg hshort]
          rfl
        rw [if_neg hint, if_neg hshort, if_pos hb, if_neg hs, if_neg hint, hlen]
        simp only
        omega

/-! ## Digests -/

variable {expcontext : ExportContext} {h : Handle} {oids : List ℕ} {out : Buffer}

lemma flag_bounds (t : NodeType) : t.flag < 4 ∧ nodeTypeOfFlag t.flag = some t := by
  cases t with
  | root => exact ⟨by decide, rfl⟩
  | node => exact ⟨by decide, rfl⟩
  | leaf => exact ⟨by decide, rfl⟩

lemma header_clear (b : Buffer) : header (b.clear digestSizeHdlv2).bytes = 0 := by
  obtain ⟨h0, h1, -⟩ := (Stores.clear b digestSizeHdlv2).inside
  rw [header, h0, h1]

lemma nbOids_eq (hext : h.oidTab = expcontext.rootHandle.oidTab ++ oids) (hlt : oids.length < 2 ^ 32) :
    (h.oidTab.length + 2 ^ 32 - expcontext.rootHandle.oidTab.length) % 2 ^ 32 = oids.length := by
  rw [hext, List.length_append]
  omega

lemma Stores.header_eq (hs : Stores b b' off bs) (hoff : 2 ≤ off) :
    Snmp.header b'.bytes = Snmp.header b.bytes := by
  rw [Snmp.header, Snmp.header, hs.outside 0 (by omega), hs.outside 1 (by omega)]

/-- The number that the bit-fields of a digest are. -/
def fields (t : NodeType) (oids : List ℕ) : ℕ :=
  t.flag + oids.length * 2 ^ 2 + nbShort oids * 2 ^ 7 + nbInt oids * 2 ^ 12

/-- The bit fields of the header. -/
lemma setFields_spec {t : NodeType} (hhead : header b.bytes = 0) (hlen : oids.length ≤ 23)
    (hshort : nbShort oids ≤ 23) (hint : nbInt oids ≤ 4) :
    header ((((b.setField typeFlag t.flag).setField relativeOidLen oids.length).setField nbShortOids
        (nbShort oids)).setField nbIntOids (nbInt oids)).bytes = fields t oids ∧
      Touches b ((((b.setField typeFlag t.flag).setField relativeOidLen oids.length).setField
        nbShortOids (nbShort oids)).setField nbIntOids (nbInt oids)) 2 := by
  have hflag := (flag_bounds t).1
  simp only [fields]
  obtain ⟨h₁, ht₁⟩ := @setField_of_lt b t.flag typeFlag (by rw [hhead]; decide)
    (by simp only [typeFlag]; omega) (by simp only [typeFlag]; omega)
  rw [hhead] at h₁
  simp only [typeFlag] at h₁ ht₁
  obtain ⟨h₂, ht₂⟩ := @setField_of_lt (b.setField ⟨0, 2⟩ t.flag) oids.length relativeOidLen
    (by simp only [relativeOidLen]; omega) (by simp only [relativeOidLen]; omega)
    (by simp only [relativeOidLen]; omega)
  simp only [relativeOidLen] at h₂ ht₂
  obtain ⟨h₃, ht₃⟩ := @setField_of_lt ((b.setField ⟨0, 2⟩ t.flag).setField ⟨2, 5⟩ oids.length)
    (nbShort oids) nbShortOids (by simp only [nbShortOids]; omega) (by simp only [nbShortOids]; omega)
    (by simp only [nbShortOids]; omega)
  simp only [nbShortOids] at h₃ ht₃
  obtain ⟨h₄, ht₄⟩ := @setField_of_lt (((b.setField ⟨0, 2⟩ t.flag).setField ⟨2, 5⟩
    oids.length).setField ⟨7, 5⟩ (nbShort oids)) (nbInt oids) nbIntOids
    (by simp only [nbIntOids]; omega) (by simp only [nbIntOids]; omega)
    (by simp only [nbIntOids]; omega)
  simp only [nbIntOids] at h₄ ht₄
  refine ⟨?_, ((ht₁.trans ht₂).trans ht₃).trans ht₄⟩
  simp only [typeFlag, relativeOidLen, nbShortOids, nbIntOids]
  omega

/-- What is stored of a digest: the bit-fields in the first two bytes, then the indexes and the
values, up to the 25th byte. -/
structure Encoded (out b : Buffer) (t : NodeType) (oids : List ℕ) : Prop where
  header : header b.bytes = fields t oids
  body : At b.bytes charTab ((tabIndexes oids 0).1 ++ (tabIndexes oids 0).2 ++ oidBytes oids)
  touches : Touches (out.clear digestSizeHdlv2) b 25

/-- A handle that fits is encoded. -/
lemma digestNfsHandle_of_fits (hext : h.oidTab = expcontext.rootHandle.oidTab ++ oids)
    (hfits : 3 * nbShort oids + 5 * nbInt oids + nbByte oids ≤ 23) :
    (digestNfsHandle expcontext h out).1 = .noError ∧
      Encoded out (digestNfsHandle expcontext h out).2 h.objectTypeReminder oids := by
  obtain ⟨hshorts, hints, htotal, hbytes⟩ := tabIndexes_length oids 0
  obtain ⟨hboundS, hboundI⟩ := tabIndexes_bounds oids 0
  have hdrop : h.oidTab.drop expcontext.rootHandle.oidTab.length = oids := by
    rw [hext, List.drop_left]
  have hfits' : ¬ 3 * (tabIndexes oids 0).1.length + 5 * (tabIndexes oids 0).2.length +
      (oids.length - (tabIndexes oids 0).1.length - (tabIndexes oids 0).2.length) > 23 := by
    rw [hshorts, hints]
    omega
  obtain ⟨hhead, htouch⟩ := @setFields_spec (out.clear digestSizeHdlv2) oids h.objectTypeReminder
    (header_clear out) (by omega) (by omega) (by omega)
  rw [digestNfsHandle]
  simp only [nbOids_eq hext (by omega), hdrop]
  rw [if_neg (by omega), if_neg hfits', hshorts, hints]
  set b₀ := ((((out.clear digestSizeHdlv2).setField typeFlag h.objectTypeReminder.flag).setField
    relativeOidLen oids.length).setField nbShortOids (nbShort oids)).setField nbIntOids (nbInt oids)
  have hend : charTab + (tabIndexes oids 0).1.length + (tabIndexes oids 0).2.length +
      (oidBytes oids).length ≤ 25 := by
    rw [hshorts, hints, hbytes, charTab]
    omega
  -- the two lists of indexes, and the values behind them
  obtain ⟨hstores₁, hcurr₁⟩ := @storeIndexes_spec b₀ charTab (tabIndexes oids 0).1 fun j hj => by
    have := hboundS j hj
    omega
  generalize storeIndexes b₀ charTab (tabIndexes oids 0).1 = r₁ at hstores₁ hcurr₁ ⊢
  obtain ⟨b₁, curr₁⟩ := r₁
  simp only at hstores₁ hcurr₁ ⊢
  obtain ⟨hstores₂, hcurr₂⟩ := @storeIndexes_spec b₁ curr₁ (tabIndexes oids 0).2 fun j hj => by
    have := hboundI j hj
    omega
  generalize storeIndexes b₁ curr₁ (tabIndexes oids 0).2 = r₂ at hstores₂ hcurr₂ ⊢
  obtain ⟨b₂, curr₂⟩ := r₂
  simp only at hstores₂ hcurr₂ ⊢
  subst hcurr₁
  obtain ⟨hok, hstores₃⟩ := @storeOids_spec b₂ curr₂ oids (by
    rw [digestSizeHdlv2]
    omega)
  have hplace : curr₂ = charTab + ((tabIndexes oids 0).1 ++ (tabIndexes oids 0).2).length := by
    rw [hcurr₂, List.length_append]
    omega
  rw [hplace] at hstores₃ hok ⊢
  have hall := (hstores₁.append hstores₂).append hstores₃
  have htouch' := hall.touches (n := 25) (by
    rw [List.length_append, List.length_append]
    omega)
  refine ⟨hok, (hall.header_eq le_rfl).trans hhead, hall.inside, ?_⟩
  exact (htouch.mono (by decide)).trans htouch'

/-- A handle that does not fit is refused. -/
lemma digestNfsHandle_of_not_fits (hext : h.oidTab = expcontext.rootHandle.oidTab ++ oids)
    (hlen : oids.length < 2 ^ 32)
    (hfits : ¬ 3 * nbShort oids + 5 * nbInt oids + nbByte oids ≤ 23) :
    (digestNfsHandle expcontext h out).1 = .tooSmall ∧
      Touches (out.clear digestSizeHdlv2) (digestNfsHandle expcontext h out).2 25 := by
  obtain ⟨hshorts, hints, htotal, -⟩ := tabIndexes_length oids 0
  have hdrop : h.oidTab.drop expcontext.rootHandle.oidTab.length = oids := by
    rw [hext, List.drop_left]
  have hflag := (flag_bounds h.objectTypeReminder).1
  have hhead := header_clear out
  obtain ⟨h₁, ht₁⟩ := @setField_of_lt (out.clear digestSizeHdlv2) h.objectTypeReminder.flag typeFlag
    (by rw [hhead]; decide) (by simp only [typeFlag]; omega) (by simp only [typeFlag]; omega)
  rw [digestNfsHandle]
  simp only [nbOids_eq hext hlen, hdrop]
  by_cases hlong : oids.length > 23
  · rw [if_pos hlong]
    exact ⟨rfl, ht₁.mono (by decide)⟩
  · have hfits' : 3 * (tabIndexes oids 0).1.length + 5 * (tabIndexes oids 0).2.length +
        (oids.length - (tabIndexes oids 0).1.length - (tabIndexes oids 0).2.length) > 23 := by
      rw [hshorts, hints]
      omega
    rw [if_neg hlong, if_pos hfits']
    rw [hhead] at h₁
    simp only [typeFlag] at h₁
    obtain ⟨-, ht₂⟩ := @setField_of_lt ((out.clear digestSizeHdlv2).setField ⟨0, 2⟩
      h.objectTypeReminder.flag) oids.length relativeOidLen (by simp only [relativeOidLen]; omega)
      (by simp only [relativeOidLen]; omega) (by simp only [relativeOidLen]; omega)
    exact ⟨rfl, (ht₁.trans ht₂).mono (by decide)⟩

/-- An encoded handle is read back. -/
lemma Encoded.expand {b : Buffer} {t : NodeType} {inType : DigestType} (hin : inType.IsNfs)
    (he : Encoded out b t oids) (hfits : 3 * nbShort oids + 5 * nbInt oids + nbByte oids ≤ 23)
    (hsmall : ∀ x ∈ oids, x < 2 ^ 32) :
    expandHandle expcontext inType b.bytes =
      (.noError, some ⟨expcontext.rootHandle.oidTab ++ oids, t⟩) := by
  obtain ⟨hshorts, hints, htotal, -⟩ := tabIndexes_length oids 0
  obtain ⟨hflag, htype⟩ := flag_bounds t
  have hhead := he.header
  rw [fields] at hhead
  have hget₁ : typeFlag.get (Snmp.header b.bytes) = t.flag := by
    simp only [BitField.get, typeFlag]
    omega
  have hget₂ : relativeOidLen.get (Snmp.header b.bytes) = oids.length := by
    simp only [BitField.get, relativeOidLen]
    omega
  have hget₃ : nbShortOids.get (Snmp.header b.bytes) = (tabIndexes oids 0).1.length := by
    have hdiv : Snmp.header b.bytes / 2 ^ 7 = nbShort oids + 32 * nbInt oids := by omega
    rw [hshorts, BitField.get, nbShortOids, hdiv]
    simp only
    omega
  have hget₄ : nbIntOids.get (Snmp.header b.bytes) = (tabIndexes oids 0).2.length := by
    have hdiv : Snmp.header b.bytes / 2 ^ 12 = nbInt oids := by omega
    rw [hints, BitField.get, nbIntOids, hdiv]
    simp only
    omega
  obtain ⟨hindexes, hvalues⟩ := At.append.mp he.body
  obtain ⟨hatS, hatI⟩ := At.append.mp hindexes
  rw [List.length_append, ← Nat.add_assoc] at hvalues
  have hread : expandHandle expcontext .nfsv2 b.bytes =
      (.noError, some ⟨expcontext.rootHandle.oidTab ++ oids, t⟩) := by
    simp only [expandHandle, hget₁, htype, hget₂, hget₃, hget₄]
    rw [readIndexes_spec hatS, readIndexes_spec hatI, readOids_spec hsmall hvalues]
  rcases hin with rfl | rfl | rfl
  · exact hread
  · exact hread
  · exact hread

lemma digestHandle_of_isNfs {outputType : DigestType} (hout : outputType.IsNfs) :
    digestHandle expcontext outputType h out = digestNfsHandle expcontext h out := by
  rcases hout with rfl | rfl | rfl
  · rfl
  · rfl
  · rfl

/-- A cleared byte. -/
lemma bytes_clear {n : ℕ} (hi : i < n) : (out.clear n).bytes i = 0 := by
  induction n with
  | zero => omega
  | succ n ih =>
    rw [Buffer.clear]
    by_cases heq : i = n
    · subst heq
      exact Function.update_self ..
    · exact (Function.update_of_ne heq ..).trans (ih (by omega))

/-- The digest of a handle below the root of an export, and what it is expanded to. It is made if the
sub-identifiers fit, is expanded to the same handle, and lies in the first 25 of the 29 bytes that are
cleared. -/
theorem expandHandle_digestHandle (expcontext : ExportContext) (h : Handle) (oids : List ℕ)
    (hext : h.oidTab = expcontext.rootHandle.oidTab ++ oids) (hlen : oids.length < 2 ^ 32)
    (hsmall : ∀ x ∈ oids, x < 2 ^ 32) (outputType inType : DigestType) (hout : outputType.IsNfs)
    (hin : inType.IsNfs) (out : Buffer) :
    ((digestHandle expcontext outputType h out).1 = .noError →
        expandHandle expcontext inType (digestHandle expcontext outputType h out).2.bytes =
          (.noError, some h)) ∧
      (∀ i ∈ (digestHandle expcontext outputType h out).2.written,
        i ∈ out.written ∨ i < digestSizeHdlv2) ∧
      (∀ i, 25 ≤ i → i < digestSizeHdlv2 →
        (digestHandle expcontext outputType h out).2.bytes i = 0) ∧
      ((digestHandle expcontext outputType h out).1 = .noError ↔
        3 * nbShort oids + 5 * nbInt oids + nbByte oids ≤ 23) := by
  rw [digestHandle_of_isNfs hout]
  have hclear : Touches out (out.clear digestSizeHdlv2) digestSizeHdlv2 := by
    refine (Stores.clear out digestSizeHdlv2).touches ?_
    rw [List.length_replicate, Nat.zero_add]
  have hresult : ∀ {b : Buffer}, Touches (out.clear digestSizeHdlv2) b 25 →
      (∀ i ∈ b.written, i ∈ out.written ∨ i < digestSizeHdlv2) ∧
        ∀ i, 25 ≤ i → i < digestSizeHdlv2 → b.bytes i = 0 := by
    intro b hb
    refine ⟨(hclear.trans (hb.mono (by decide))).written, fun i hle hlt => ?_⟩
    rw [hb.outside i hle, bytes_clear hlt]
  by_cases hfits : 3 * nbShort oids + 5 * nbInt oids + nbByte oids ≤ 23
  · obtain ⟨hok, hencoded⟩ := @digestNfsHandle_of_fits expcontext h oids out hext hfits
    obtain ⟨hwritten, hzero⟩ := hresult hencoded.touches
    refine ⟨fun _ => ?_, hwritten, hzero, fun _ => hfits, fun _ => hok⟩
    rw [hencoded.expand hin hfits hsmall, ← hext]
  · obtain ⟨hfail, htouches⟩ := @digestNfsHandle_of_not_fits expcontext h oids out hext hlen hfits
    obtain ⟨hwritten, hzero⟩ := hresult htouches
    rw [hfail]
    refine ⟨fun hok => ?_, hwritten, hzero, fun hok => ?_, fun hok => absurd hok hfits⟩
    · cases hok
    · cases hok

/-- A leaf with sub-identifiers of one, two and four bytes at the boundaries. -/
theorem expandHandle_digestHandle_boundaries :
    let expcontext : ExportContext := ⟨⟨[1, 3, 6, 1], .root⟩⟩
    let h : Handle := ⟨[1, 3, 6, 1, 255, 256, 65535, 65536, 2 ^ 32 - 1], .leaf⟩
    expandHandle expcontext .nfsv3 (digestHandle expcontext .nfsv3 h ⟨fun _ => 0, []⟩).2.bytes =
      (.noError, some h) := by
  intro expcontext h
  obtain ⟨hround, -, -, hok⟩ := expandHandle_digestHandle expcontext h
    [255, 256, 65535, 65536, 2 ^ 32 - 1] rfl (by decide) (by decide) .nfsv3 .nfsv3 (.inr (.inl rfl))
    (.inr (.inl rfl)) ⟨fun _ => 0, []⟩
  exact hround (hok.mpr (by decide))

/-- Bytes behind the 25th are written: all 29 are cleared. -/
theorem digestHandle_writes_behind_25 :
    ¬ ∀ (expcontext : ExportContext) (h : Handle),
      ∀ i ∈ (digestHandle expcontext .nfsv2 h ⟨fun _ => 0, []⟩).2.written, i < 25 := by
  intro hall
  have hwritten : 28 ∈ (digestHandle ⟨⟨[], .root⟩⟩ .nfsv2 ⟨[], .root⟩ ⟨fun _ => 0, []⟩).2.written := by
    decide
  have hlt := hall _ _ 28 hwritten
  omega

end Ganesha.Snmp
