import Mathlib.Data.List.TakeWhile
import Mathlib.Tactic.Common
import Ganesha.Pseudo.Common

/-!
# The components of a path
-/

namespace Ganesha.Pseudo

variable {c : UInt8} {raw after rest path : Name} {n : ℕ} {toks : List Name}

/-- The parts of a line between the slashes. -/
def splitSlash : Name → List Name
  | [] => [[]]
  | c :: rest => if c = slash then [] :: splitSlash rest
    else match splitSlash rest with
      | [] => [[c]]
      | part :: parts => (c :: part) :: parts

/-- A byte inside of the first line. -/
def inLine (c : UInt8) : Bool := !findEndLine c

/-- The path up to the end of its first line. -/
def firstLine (path : Name) : Name := path.takeWhile inLine

/-- The string ends with its first line. -/
def endsHere (path : Name) : Bool := (path.dropWhile inLine).head?.all (· = 0)

/-- The parts of the first line without the blanks before them. Nothing follows the last slash of a
string that ends with it. -/
def tokensOf (path : Name) : List Name :=
  let parts := splitSlash (firstLine path)
  (if parts.getLast? = some [] ∧ endsHere path then parts.dropLast else parts).map
    (List.dropWhile isBlank)

/-- The names on the way along a path. -/
def components (path : Name) : List Name := (tokensOf path).tail

/-- A path that begins with a slash, and has no more parts than can be kept and no part that is too
long. -/
structure WellFormed (path : Name) : Prop where
  absolute : path.head? = some slash
  parts : (splitSlash (firstLine path)).length ≤ nbTokPath
  length_lt : ∀ t ∈ tokensOf path, t.length < maxnamlen

/-! ## One part -/

/-- A byte inside of a part. -/
def isInner (c : UInt8) : Bool := ¬ findSlash c ∧ ¬ findEndLine c

lemma not_endLine_of_inner (h : isInner c = true) : findEndLine c = false := by
  simp only [isInner, decide_eq_true_eq] at h
  simpa using h.2

lemma inLine_of_inner (h : isInner c = true) : inLine c = true := by
  rw [inLine, not_endLine_of_inner h]
  rfl

lemma ne_slash_of_inner (h : isInner c = true) : c ≠ slash := by
  simp only [isInner, decide_eq_true_eq, findSlash] at h
  exact h.1

/-- There is always a part. -/
lemma splitSlash_ne_nil (line : Name) : splitSlash line ≠ [] := by
  cases line with
  | nil => exact List.cons_ne_nil _ _
  | cons c rest =>
    rw [splitSlash]
    split_ifs
    · exact List.cons_ne_nil _ _
    · cases splitSlash rest <;> exact List.cons_ne_nil _ _

lemma splitSlash_inner (h : ∀ c ∈ raw, isInner c = true) : splitSlash raw = [raw] := by
  induction raw with
  | nil => rfl
  | cons c raw ih =>
    rw [splitSlash, if_neg (ne_slash_of_inner (h c List.mem_cons_self)),
      ih fun d hd => h d (List.mem_cons_of_mem c hd)]

lemma splitSlash_slash (h : ∀ c ∈ raw, isInner c = true) (rest : Name) :
    splitSlash (raw ++ slash :: rest) = raw :: splitSlash rest := by
  induction raw with
  | nil => rfl
  | cons c raw ih =>
    rw [List.cons_append, splitSlash, if_neg (ne_slash_of_inner (h c List.mem_cons_self)),
      ih fun d hd => h d (List.mem_cons_of_mem c hd)]

/-- What comes behind a part. -/
def Stops (after : Name) : Prop := ∀ c, after.head? = some c → isInner c = false

lemma takeWhile_inner (h : ∀ c ∈ raw, isInner c = true) (hstop : Stops after) :
    (raw ++ after).takeWhile isInner = raw := by
  rw [List.takeWhile_append_of_pos h]
  cases after with
  | nil => rw [List.takeWhile_nil, List.append_nil]
  | cons c after =>
    rw [List.takeWhile_cons_of_neg (by rw [hstop c rfl]; decide), List.append_nil]

lemma dropWhile_inner (h : ∀ c ∈ raw, isInner c = true) (hstop : Stops after) :
    (raw ++ after).dropWhile isInner = after := by
  rw [List.dropWhile_append_of_pos h]
  cases after with
  | nil => rfl
  | cons c after => rw [List.dropWhile_cons_of_neg (by rw [hstop c rfl]; decide)]

/-- Leading blanks are skipped up to the end of the part. -/
lemma dropWhile_blank (hstop : Stops after) :
    (raw ++ after).dropWhile isBlank = raw.dropWhile isBlank ++ after := by
  rw [List.dropWhile_append]
  split_ifs with hempty
  · have hnil : raw.dropWhile isBlank = [] := by simpa using hempty
    rw [hnil, List.nil_append]
    cases after with
    | nil => rfl
    | cons c after =>
      have hc := hstop c rfl
      rw [List.dropWhile_cons_of_neg]
      intro hblank
      simp only [isBlank, Bool.or_eq_true, decide_eq_true_eq] at hblank
      rcases hblank with rfl | rfl <;> exact absurd hc (by decide)
  · rfl

lemma exists_part (path : Name) : ∃ raw after, path = raw ++ after ∧
    (∀ c ∈ raw, isInner c = true) ∧ Stops after := by
  refine ⟨path.takeWhile isInner, path.dropWhile isInner, (List.takeWhile_append_dropWhile).symm,
    fun c hc => List.mem_takeWhile_imp hc, fun c hc => ?_⟩
  have hnot := List.head?_dropWhile_not isInner path
  rw [hc] at hnot
  simpa using hnot

/-! ## What `nfs_ParseConfLine` finds -/

/-- The first line ends where the text does. -/
lemma firstLine_end (h : ∀ c ∈ raw, isInner c = true)
    (hend : ∀ c, after.head? = some c → findEndLine c = true) :
    firstLine (raw ++ after) = raw ∧ endsHere (raw ++ after) = after.head?.all (· = 0) := by
  have hraw : ∀ c ∈ raw, inLine c = true := fun c hc => inLine_of_inner (h c hc)
  rw [firstLine, endsHere, List.takeWhile_append_of_pos hraw, List.dropWhile_append_of_pos hraw]
  cases after with
  | nil => exact ⟨by rw [List.takeWhile_nil, List.append_nil], rfl⟩
  | cons c after =>
    have hc : ¬ inLine c = true := by
      rw [inLine, hend c rfl]
      decide
    rw [List.takeWhile_cons_of_neg hc, List.dropWhile_cons_of_neg hc, List.append_nil]
    exact ⟨rfl, rfl⟩

lemma firstLine_slash (h : ∀ c ∈ raw, isInner c = true) (rest : Name) :
    firstLine (raw ++ slash :: rest) = raw ++ slash :: firstLine rest ∧
      endsHere (raw ++ slash :: rest) = endsHere rest := by
  have hraw : ∀ c ∈ raw, inLine c = true := fun c hc => inLine_of_inner (h c hc)
  have hslash : inLine slash = true := by decide
  rw [firstLine, endsHere, List.takeWhile_append_of_pos hraw, List.dropWhile_append_of_pos hraw,
    List.takeWhile_cons_of_pos hslash, List.dropWhile_cons_of_pos hslash]
  exact ⟨rfl, rfl⟩

/-- The last token. -/
lemma tokensOf_end (h : ∀ c ∈ raw, isInner c = true)
    (hend : ∀ c, after.head? = some c → findEndLine c = true) :
    tokensOf (raw ++ after) =
      if raw = [] ∧ after.head?.all (· = 0) then [] else [raw.dropWhile isBlank] := by
  obtain ⟨hline, hends⟩ := firstLine_end h hend
  rw [tokensOf, hline, hends, splitSlash_inner h]
  by_cases hnil : raw = [] ∧ (after.head?.all (· = 0)) = true
  · rw [if_pos hnil, if_pos ⟨by rw [hnil.1]; rfl, hnil.2⟩]
    rfl
  · rw [if_neg hnil, if_neg fun hall => hnil ⟨by simpa using hall.1, hall.2⟩]
    rfl

lemma tokensOf_slash (h : ∀ c ∈ raw, isInner c = true) (rest : Name) :
    tokensOf (raw ++ slash :: rest) = raw.dropWhile isBlank :: tokensOf rest := by
  obtain ⟨hline, hends⟩ := firstLine_slash h rest
  rw [tokensOf, tokensOf, hline, hends, splitSlash_slash h, List.getLast?_cons_of_ne_nil (splitSlash_ne_nil _)]
  split_ifs
  · rw [List.dropLast_cons_of_ne_nil (splitSlash_ne_nil _), List.map_cons]
  · rw [List.map_cons]

/-- A part does not start with the zero. -/
lemma head_ne_zero (h : ∀ c ∈ raw, isInner c = true) (hne : raw ≠ []) :
    ¬ ((raw ++ after).head?.all (· = 0)) = true := by
  cases raw with
  | nil => exact absurd rfl hne
  | cons c raw =>
    intro hzero
    have hc := not_endLine_of_inner (h c List.mem_cons_self)
    rw [List.cons_append, List.head?_cons, Option.all_some, decide_eq_true_eq] at hzero
    rw [hzero] at hc
    exact absurd hc (by decide)

/-- One part of the line. -/
lemma nfsParseConfLine_part (h : ∀ c ∈ raw, isInner c = true) (hstop : Stops after)
    (hgo : ¬ ((raw ++ after).head?.all (· = 0)) = true) :
    nfsParseConfLine (n + 1) (raw ++ after) =
      if (raw.dropWhile isBlank).length ≥ maxnamlen then none
      else if after.head?.all findEndLine then some (some [raw.dropWhile isBlank])
      else (nfsParseConfLine n after.tail).map (Option.map (raw.dropWhile isBlank :: ·)) := by
  have htoken : ∀ c ∈ raw.dropWhile isBlank, isInner c = true :=
    fun c hc => h c ((List.dropWhile_sublist isBlank).subset hc)
  rw [nfsParseConfLine, if_neg hgo, dropWhile_blank hstop]
  have htake := takeWhile_inner htoken hstop
  have hdrop := dropWhile_inner htoken hstop
  unfold isInner at htake hdrop
  dsimp only
  rw [htake, hdrop]

/-- The last part of a line. -/
lemma nfsParseConfLine_end (h : ∀ c ∈ raw, isInner c = true)
    (hend : ∀ c, after.head? = some c → findEndLine c = true) :
    nfsParseConfLine (n + 1) (raw ++ after) =
      if raw = [] ∧ after.head?.all (· = 0) then some (some [])
      else if (raw.dropWhile isBlank).length ≥ maxnamlen then none
      else some (some [raw.dropWhile isBlank]) := by
  have hstop : Stops after := fun c hc => by
    rw [isInner, hend c hc]
    simp
  have hall : after.head?.all findEndLine = true := by
    cases hhead : after.head? with
    | none => rfl
    | some c => exact hend c hhead
  by_cases hnil : raw = [] ∧ (after.head?.all (· = 0)) = true
  · rw [if_pos hnil, hnil.1, List.nil_append, nfsParseConfLine, if_pos hnil.2]
  · rw [if_neg hnil, nfsParseConfLine_part h hstop, if_pos hall]
    intro hzero
    by_cases hraw : raw = []
    · rw [hraw, List.nil_append] at hzero
      exact hnil ⟨hraw, hzero⟩
    · exact head_ne_zero h hraw hzero

/-- A part that is followed by another. -/
lemma nfsParseConfLine_slash (h : ∀ c ∈ raw, isInner c = true) (rest : Name) :
    nfsParseConfLine (n + 1) (raw ++ slash :: rest) =
      if (raw.dropWhile isBlank).length ≥ maxnamlen then none
      else (nfsParseConfLine n rest).map (Option.map (raw.dropWhile isBlank :: ·)) := by
  have hstop : Stops (slash :: rest) := fun c hc => by
    rw [← Option.some.inj hc]
    decide
  have hslash : ¬ ((slash :: rest).head?.all findEndLine) = true := by
    rw [List.head?_cons, Option.all_some]
    decide
  rw [nfsParseConfLine_part h hstop, if_neg hslash, List.tail_cons]
  intro hzero
  by_cases hraw : raw = []
  · rw [hraw, List.nil_append, List.head?_cons, Option.all_some] at hzero
    exact absurd hzero (by decide)
  · exact head_ne_zero h hraw hzero

/-- The tokens are the parts of the line, if there are not more parts than places and no token is too
long for its buffer. -/
theorem nfsParseConfLine_iff :
    nfsParseConfLine n path = some (some toks) ↔
      (splitSlash (firstLine path)).length ≤ n ∧ toks = tokensOf path ∧
        ∀ t ∈ tokensOf path, t.length < maxnamlen := by
  induction n generalizing path toks with
  | zero =>
    refine iff_of_false (fun hparse => ?_) fun hall => ?_
    · cases hparse
    · exact splitSlash_ne_nil _ (List.length_eq_zero_iff.mp (Nat.le_zero.mp hall.1))
  | succ n ih =>
    obtain ⟨raw, after, rfl, h, hstop⟩ := exists_part path
    -- the part ends at a slash or at the end of the line
    by_cases hslash : after.head? = some slash
    · -- another part follows
      obtain ⟨rest, rfl⟩ : ∃ rest, after = slash :: rest := by
        cases after with
        | nil => cases hslash
        | cons c rest => exact ⟨rest, by rw [← Option.some.inj hslash]⟩
      rw [nfsParseConfLine_slash h, (firstLine_slash h rest).1, splitSlash_slash h, tokensOf_slash h,
        List.length_cons, Nat.succ_le_succ_iff, List.forall_mem_cons]
      by_cases hlen : (raw.dropWhile isBlank).length ≥ maxnamlen
      · rw [if_pos hlen]
        refine iff_of_false (fun hparse => by cases hparse) fun hall => ?_
        exact absurd hlen (Nat.not_le.mpr hall.2.2.1)
      · rw [if_neg hlen]
        have hrest : (nfsParseConfLine n rest).map (Option.map (raw.dropWhile isBlank :: ·)) =
            some (some toks) ↔ ∃ toks', nfsParseConfLine n rest = some (some toks') ∧
              raw.dropWhile isBlank :: toks' = toks := by
          rw [Option.map_eq_some_iff]
          constructor
          · rintro ⟨r, hr, hmap⟩
            obtain ⟨toks', rfl, htoks⟩ := Option.map_eq_some_iff.mp hmap
            exact ⟨toks', hr, htoks⟩
          · rintro ⟨toks', hr, htoks⟩
            exact ⟨some toks', hr, congrArg some htoks⟩
        rw [hrest]
        constructor
        · rintro ⟨toks', hparse, rfl⟩
          obtain ⟨hle, rfl, hlt⟩ := ih.mp hparse
          exact ⟨hle, rfl, Nat.lt_of_not_le hlen, hlt⟩
        · rintro ⟨hle, rfl, _, hlt⟩
          exact ⟨tokensOf rest, ih.mpr ⟨hle, rfl, hlt⟩, rfl⟩
    · -- the line ends
      have hend : ∀ c, after.head? = some c → findEndLine c = true := by
        intro c hc
        have hinner := hstop c hc
        have hne : c ≠ slash := fun heq => hslash (heq ▸ hc)
        simpa [isInner, findSlash, hne] using hinner
      rw [nfsParseConfLine_end h hend, (firstLine_end h hend).1, splitSlash_inner h, tokensOf_end h hend,
        List.length_singleton]
      have hone : 1 ≤ n + 1 := Nat.succ_le_succ (Nat.zero_le n)
      by_cases hnil : raw = [] ∧ (after.head?.all (· = 0)) = true
      · rw [if_pos hnil, if_pos hnil]
        constructor
        · intro heq
          exact ⟨hone, (Option.some.inj (Option.some.inj heq)).symm, fun t ht => by cases ht⟩
        · rintro ⟨_, rfl, _⟩
          rfl
      · rw [if_neg hnil, if_neg hnil, List.forall_mem_singleton]
        by_cases hlen : (raw.dropWhile isBlank).length ≥ maxnamlen
        · rw [if_pos hlen]
          refine iff_of_false (fun hparse => by cases hparse) fun hall => ?_
          exact absurd hlen (Nat.not_le.mpr hall.2.2)
        · rw [if_neg hlen]
          constructor
          · intro heq
            exact ⟨hone, (Option.some.inj (Option.some.inj heq)).symm, Nat.lt_of_not_le hlen⟩
          · rintro ⟨_, rfl, _⟩
            rfl

end Ganesha.Pseudo
