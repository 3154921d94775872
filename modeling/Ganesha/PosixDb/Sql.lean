import Ganesha.PosixDb.Common
import Mathlib.Data.Nat.Digits.Lemmas
import Mathlib.Tactic.Common

/-!
# The text of the queries on names

The functions of `FSAL/FSAL_POSIX/DBExt/MYSQL` that look for a name in a directory print it between quotes into the
text of a query. Here is how the text is made, and how MySQL reads the literals in it.
-/

namespace Ganesha.PosixDb.Sql

/-! ## How a text is read -/

/-- `'` and `\`. -/
def quote : UInt8 := 39
def backslash : UInt8 := 92

/-- A byte outside of the literals, or a literal with what it denotes. -/
inductive Token
  | byte (c : UInt8)
  | lit (value : List UInt8)
  deriving DecidableEq

/-- What a backslash with a byte stands for. -/
def unescape (c : UInt8) : List UInt8 :=
  if c = 37 ∨ c = 95 then [backslash, c]   -- `%` and `_`
  else if c = 48 then [0]
  else if c = 98 then [8]
  else if c = 110 then [10]
  else if c = 114 then [13]
  else if c = 116 then [9]
  else if c = 90 then [26]
  else [c]

/-- The tokens of a text; in a literal the state is what it denotes up to here. Two quotes in a literal
stand for one. -/
def lex : Option (List UInt8) → List UInt8 → Option (List Token)
  | none, [] => some []
  | none, c :: cs => if c = quote then lex (some []) cs else (lex none cs).map (.byte c :: ·)
  | some _, [] => none
  | some acc, [c] => if c = quote then some [.lit acc] else none
  | some acc, c :: d :: cs =>
    if c = quote ∧ d = quote then lex (some (acc ++ [quote])) cs
    else if c = quote then (lex none (d :: cs)).map (.lit acc :: ·)
    else if c = backslash then lex (some (acc ++ unescape d)) cs
    else lex (some (acc ++ [c])) (d :: cs)

/-- The bytes that print the tokens, if nothing in them is escaped. -/
def size : List Token → ℕ
  | [] => 0
  | .byte _ :: ts => 1 + size ts
  | .lit value :: ts => value.length + 2 + size ts

/-! ## The texts of the queries -/

/-- A part of a format with its argument: a text, `%llu` or `%u`, or `'%s'`. -/
inductive Piece
  | text (s : String)
  | num (n : UInt64)
  | name (n : Name)

/-- The bytes of a text of the source. -/
def ascii (s : String) : List UInt8 := s.toList.map fun c => c.toNat.toUInt8

/-- What is printed. -/
def Piece.print : Piece → List UInt8
  | .text s => ascii s
  | .num n => (Nat.toDigits 10 n.toNat).map fun c => c.toNat.toUInt8
  | .name n => quote :: n ++ [quote]

/-- What is meant. -/
def Piece.tokens : Piece → List Token
  | .name n => [.lit n]
  | p => p.print.map .byte

def print (ps : List Piece) : List UInt8 := ps.flatMap Piece.print
def statement (ps : List Piece) : List Token := ps.flatMap Piece.tokens

/-- The rows of a name in a directory. -/
def whereName (id : UInt64) (ts : UInt32) (name : Name) : List Piece :=
  [.text "WHERE handleidparent=", .num id, .text " AND handletsparent=", .num ts.toUInt64,
    .text " AND name=", .name name]

/-- The formats, for the queries that have a name. -/
def pieces : Query → List Piece
  | .selectParent id ts name =>
    [.text "SELECT handleid, handlets ", .text "FROM Parent "] ++ whereName id ts name
  | .selectEntry id ts name forUpdate =>
    [.text "SELECT Parent.handleid, Parent.handlets, Handle.deviceid, Handle.inode, ",
      .text "Handle.nlink, Handle.ctime, Handle.ftype ",
      .text "FROM Parent INNER JOIN Handle ON Parent.handleid = Handle.handleid ",
      .text "AND Parent.handlets=Handle.handlets "] ++ whereName id ts name ++
      if forUpdate then [.text " FOR UPDATE"] else []
  | .insertParent idparent tsparent name id ts =>
    [.text "INSERT INTO Parent(handleidparent, handletsparent, name, handleid, handlets) ",
      .text "VALUES(", .num idparent, .text ", ", .num tsparent.toUInt64, .text ", ", .name name,
      .text ", ", .num id, .text ", ", .num ts.toUInt64, .text ")"]
  | .updateParent idparent tsparent name idold tsold nameold =>
    [.text "UPDATE Parent SET handleidparent=", .num idparent, .text ", handletsparent=",
      .num tsparent.toUInt64, .text ", name=", .name name, .text " "] ++
      whereName idold tsold nameold ++ [.text " "]
  | .deleteParent id ts name => .text "DELETE FROM Parent " :: whereName id ts name
  | _ => []

/-- The sizes of the buffers that a query is printed into: `fsal_posixdb_add` and
`fsal_posixdb_replace` have 4096 bytes, `fsal_posixdb_internal_delete` and
`fsal_posixdb_getInfoFromName` 2048, and `fsal_posixdb_deleteParent` 1024. -/
def bufferSizes : Query → List ℕ
  | .selectParent .. | .insertParent .. | .updateParent .. => [4096]
  | .selectEntry .. => [4096, 2048]
  | .deleteParent .. => [1024]
  | _ => []

/-- `snprintf`. -/
def queryText (size : ℕ) (q : Query) : List UInt8 := (print (pieces q)).take (size - 1)

/-- The names in a query. -/
def names : Query → List Name
  | .selectParent _ _ name | .selectEntry _ _ name _ | .insertParent _ _ name _ _
  | .deleteParent _ _ name => [name]
  | .updateParent _ _ name _ _ nameold => [name, nameold]
  | _ => []

/-- A name that a client can use: shorter than `FSAL_MAX_NAME_LEN`, and without NUL and `/`. -/
def Legal (n : Name) : Prop := n.length < 255 ∧ (0 : UInt8) ∉ n ∧ (47 : UInt8) ∉ n

/-- The text is whole, and is read as the statement that is meant. A query with other names is then
read as another statement if it is read as what it means. -/
structure Faithful (size : ℕ) (q : Query) : Prop where
  whole : queryText size q = print (pieces q)
  read : lex none (queryText size q) = some (statement (pieces q))
  distinct : ∀ q' size', lex none (queryText size' q') = some (statement (pieces q')) →
    lex none (queryText size' q') = lex none (queryText size q) → names q' = names q

/-- A name without quotes, and with a backslash only before `%` or `_`. -/
def Plain : Name → Prop
  | [] => True
  | [c] => c ≠ quote ∧ c ≠ backslash
  | c :: d :: cs =>
    if c = backslash then (d = 37 ∨ d = 95) ∧ Plain cs else c ≠ quote ∧ Plain (d :: cs)

/-! ## Reading what was printed -/

lemma length_unescape (c : UInt8) : (unescape c).length ≤ 2 ∧
    (¬ (c = 37 ∨ c = 95) → (unescape c).length = 1) := by
  unfold unescape
  split_ifs <;> simp_all

variable {ts : List Token}

/-- A token needs a byte of the text. -/
lemma size_le {st : Option (List UInt8)} {s : List UInt8} (h : lex st s = some ts) :
    size ts ≤ st.elim 0 (fun acc => acc.length + 1) + s.length := by
  fun_induction lex st s generalizing ts with
  | case1 => simp [← Option.some.inj h, size]
  | case2 cs ih =>
    have hle := ih h
    simp only [Option.elim, List.length_nil, List.length_cons] at hle ⊢
    omega
  | case3 c cs hc ih =>
    obtain ⟨ts', hts, rfl⟩ := Option.map_eq_some_iff.mp h
    have hle := ih hts
    simp only [Option.elim, size, List.length_cons] at hle ⊢
    omega
  | case4 => exact absurd h (by simp)
  | case5 acc => simp [← Option.some.inj h, size]
  | case6 => exact absurd h (by simp)
  | case7 acc c d cs hc ih =>
    have hle := ih h
    simp only [Option.elim, List.length_append, List.length_cons, List.length_nil] at hle ⊢
    omega
  | case8 acc d cs hd ih =>
    obtain ⟨ts', hts, rfl⟩ := Option.map_eq_some_iff.mp h
    have hle := ih hts
    simp only [Option.elim, size, List.length_cons] at hle ⊢
    omega
  | case9 acc d cs hd hb ih =>
    have hle := ih h
    have hlen := (length_unescape d).1
    simp only [Option.elim, List.length_append, List.length_cons] at hle ⊢
    omega
  | case10 acc c d cs hcd hc hb ih =>
    have hle := ih h
    simp only [Option.elim, List.length_append, List.length_cons, List.length_nil] at hle ⊢
    omega

/-- A literal is read as the name in it if and only if the name is plain, where the rest of the text
is as long as what it is read as. -/
lemma lex_literal_iff {acc n r : List UInt8} (hr : r.head? ≠ some quote) (hsize : size ts = r.length) :
    lex (some acc) (n ++ quote :: r) = some (.lit (acc ++ n) :: ts) ↔
      Plain n ∧ lex none r = some ts := by
  have hend (acc : List UInt8) : lex (some acc) (quote :: r) = (lex none r).map (.lit acc :: ·) := by
    cases r with
    | nil => simp [lex]
    | cons d r =>
      have hd : d ≠ quote := by simpa using hr
      simp [lex, hd]
  -- two bytes that were read as one leave too few
  have hshort {acc n s : List UInt8} {c : UInt8}
      (h : lex (some (acc ++ [c])) s = some (.lit (acc ++ n) :: ts)) :
      n.length + r.length ≤ s.length := by
    have hle := size_le h
    simp only [size, List.length_append, Option.elim, List.length_cons, List.length_nil] at hle
    omega
  fun_induction Plain n generalizing acc with
  | case1 => simp [hend]
  | case2 c =>
    by_cases hc : c = quote ∨ c = backslash
    · have hfalse : ¬ (c ≠ quote ∧ c ≠ backslash) := by tauto
      have hquote : lex (some acc) ([c] ++ quote :: r) = lex (some (acc ++ [quote])) r := by
        rcases hc with rfl | rfl
        · simp [lex]
        · simp [lex, backslash, quote, unescape]
      simp only [hfalse, false_and, iff_false, hquote]
      intro h
      have hlt := hshort h
      simp at hlt
    · rw [not_or] at hc
      simp [lex, hc, hend]
  | case3 d cs ih =>
    have hstep : lex (some acc) (backslash :: d :: (cs ++ quote :: r)) =
        lex (some (acc ++ unescape d)) (cs ++ quote :: r) := by
      simp [lex, backslash, quote]
    simp only [List.cons_append, hstep]
    by_cases hd : d = 37 ∨ d = 95
    · have hkept : unescape d = [backslash, d] := if_pos hd
      have hrest := @ih (acc ++ [backslash, d])
      simpa [hkept, hd] using hrest
    · simp only [hd, false_and, iff_false]
      intro h
      obtain ⟨c, hc⟩ := List.length_eq_one_iff.mp ((length_unescape d).2 hd)
      have hlt := hshort (hc ▸ h)
      simp at hlt
      omega
  | case4 c d cs hc ih =>
    by_cases hquote : c = quote
    · subst hquote
      simp only [ne_eq, not_true_eq_false, false_and, iff_false]
      by_cases hd : d = quote
      · have hdouble : lex (some acc) (quote :: d :: cs ++ quote :: r) =
            lex (some (acc ++ [quote])) (cs ++ quote :: r) := by simp [lex, hd]
        rw [hdouble]
        intro h
        have hlt := hshort h
        simp at hlt
        omega
      · simp [lex, hd]
    · have hrest := @ih (acc ++ [c])
      simpa [lex, hquote, hc] using hrest

/-! ## Reading a query -/

/-- The names among the parts. -/
def literals : List Piece → List Name
  | [] => []
  | .name n :: ps => n :: literals ps
  | _ :: ps => literals ps

lemma literals_pieces (q : Query) : literals (pieces q) = names q := by
  cases q with
  | selectEntry id ts name forUpdate => cases forUpdate <;> rfl
  | _ => rfl

/-- The texts have no quotes, and there is one behind each name if it is not at the end. -/
def readable : List Piece → Bool
  | [] => true
  | .name _ :: .text s :: ps => ascii s ≠ [] && readable (.text s :: ps)
  | .name _ :: ps => ps.isEmpty
  | .text s :: ps => (ascii s).all (· ≠ quote) && readable ps
  | .num _ :: ps => readable ps

lemma readable_pieces (q : Query) : readable (pieces q) = true := by
  cases q with
  | selectEntry id ts name forUpdate => cases forUpdate <;> rfl
  | _ => rfl

/-- A bound on the bytes that are printed, for names shorter than `FSAL_MAX_NAME_LEN`. -/
def bound : List Piece → ℕ
  | [] => 0
  | .text s :: ps => (ascii s).length + bound ps
  | .num _ :: ps => 20 + bound ps
  | .name _ :: ps => 256 + bound ps

lemma bound_pieces (q : Query) : bound (pieces q) < 1024 := by
  cases q with
  | selectEntry id ts name forUpdate => cases forUpdate <;> exact Nat.le_of_ble_eq_true rfl
  | _ => exact Nat.le_of_ble_eq_true rfl

/-- A printed number has no quote. -/
lemma print_num (n : UInt64) : ∀ c ∈ (Piece.num n).print, c ≠ quote := by
  intro c hc
  obtain ⟨d, hd, rfl⟩ := List.mem_map.mp hc
  have hdigit : d.isDigit = true := Nat.isDigit_of_mem_toDigits (by decide) (by decide) hd
  simp only [Char.isDigit, Bool.and_eq_true, decide_eq_true_eq] at hdigit
  have hlow : 48 ≤ d.toNat := UInt32.le_iff_toNat_le.mp hdigit.1
  have hhigh : d.toNat ≤ 57 := UInt32.le_iff_toNat_le.mp hdigit.2
  intro h
  have hnat : d.toNat % 256 = 39 := congrArg UInt8.toNat h
  omega

lemma length_num (n : UInt64) : (Piece.num n).print.length ≤ 20 := by
  rw [Piece.print, List.length_map]
  exact (Nat.length_toDigits_le_iff (by decide) (by decide)).mpr (n.toNat_lt.trans (by decide))

lemma size_append (ts ts' : List Token) : size (ts ++ ts') = size ts + size ts' := by
  induction ts with
  | nil => simp [size]
  | cons t ts ih => cases t <;> simp only [List.cons_append, size, ih] <;> omega

lemma size_bytes (s : List UInt8) : size (s.map .byte) = s.length := by
  induction s with
  | nil => rfl
  | cons c s ih =>
    simp only [List.map_cons, size, ih, List.length_cons]
    omega

/-- The statement has the size of the printed text. -/
lemma size_statement (ps : List Piece) : size (statement ps) = (print ps).length := by
  induction ps with
  | nil => rfl
  | cons p ps ih =>
    have hp : size p.tokens = p.print.length := by
      cases p with
      | name n => simp [Piece.tokens, Piece.print, size]
      | _ => exact size_bytes _
    rw [statement, print, List.flatMap_cons, List.flatMap_cons, size_append, List.length_append, hp]
    rw [statement, print] at ih
    rw [ih]

lemma lex_bytes {s r : List UInt8} (h : ∀ c ∈ s, c ≠ quote) :
    lex none (s ++ r) = some (s.map .byte ++ ts) ↔ lex none r = some ts := by
  induction s with
  | nil => rfl
  | cons c s ih =>
    have hrest := ih fun d hd => h d (List.mem_cons_of_mem _ hd)
    simp [lex, h c List.mem_cons_self, hrest]

variable {ps : List Piece}

lemma lex_name_iff {n : Name} (h : (print ps).head? ≠ some quote) :
    lex none (print (.name n :: ps)) = some (statement (.name n :: ps)) ↔
      Plain n ∧ lex none (print ps) = some (statement ps) := by
  have hprint : print (.name n :: ps) = quote :: (n ++ quote :: print ps) := by
    simp [print, Piece.print]
  rw [hprint, lex, if_pos rfl]
  exact lex_literal_iff h (size_statement ps)

/-- The values of the literals. -/
def values : List Token → List Name
  | [] => []
  | .byte _ :: ts => values ts
  | .lit value :: ts => value :: values ts

lemma values_bytes (s : List UInt8) (ts : List Token) : values (s.map .byte ++ ts) = values ts := by
  induction s with
  | nil => rfl
  | cons c s ih => exact ih

/-- The values meant. -/
lemma values_statement (ps : List Piece) : values (statement ps) = literals ps := by
  induction ps with
  | nil => rfl
  | cons p ps ih =>
    rw [statement, List.flatMap_cons]
    cases p with
    | name n => exact congrArg (n :: ·) ih
    | text s => exact (values_bytes _ _).trans ih
    | num n => exact (values_bytes _ _).trans ih

/-- The server reads the pieces back exactly if the names are plain. -/
lemma lex_print_iff (h : readable ps = true) :
    lex none (print ps) = some (statement ps) ↔ ∀ n ∈ literals ps, Plain n := by
  fun_induction readable ps with
  | case1 => simp [print, statement, lex, literals]
  | case2 n s ps ih =>
    rw [Bool.and_eq_true] at h
    have hhead : (print (.text s :: ps)).head? ≠ some quote := by
      have hall := h.2
      rw [readable, Bool.and_eq_true, List.all_eq_true] at hall
      intro hc
      rw [print, List.flatMap_cons, Piece.print, List.head?_append_of_ne_nil _ (by simpa using h.1)] at hc
      exact of_decide_eq_true (hall.1 quote (List.mem_of_head? hc)) rfl
    rw [lex_name_iff hhead, ih h.2]
    simp [literals]
  | case3 n ps hps =>
    have hnil : ps = [] := List.isEmpty_iff.mp h
    subst hnil
    rw [lex_name_iff (by simp [print])]
    simp [literals, print, statement, lex]
  | case4 s ps ih =>
    rw [Bool.and_eq_true, List.all_eq_true] at h
    have hs : ∀ c ∈ ascii s, c ≠ quote := fun c hc => by simpa using h.1 c hc
    have hbytes := @lex_bytes (statement ps) _ (print ps) hs
    exact hbytes.trans (ih h.2)
  | case5 n ps ih =>
    have hbytes := @lex_bytes (statement ps) _ (print ps) (print_num n)
    exact hbytes.trans (ih h)

/-- The text fits the buffer the source computes. -/
lemma length_print_le (h : ∀ n ∈ literals ps, n.length < 255) : (print ps).length ≤ bound ps := by
  induction ps with
  | nil => exact Nat.le_refl 0
  | cons p ps ih =>
    rw [print, List.flatMap_cons, List.length_append]
    cases p with
    | text s => exact Nat.add_le_add_left (ih h) _
    | num n => exact Nat.add_le_add (length_num n) (ih h)
    | name n =>
      have hn := h n List.mem_cons_self
      have hps := ih fun m hm => h m (List.mem_cons_of_mem _ hm)
      rw [print] at hps
      simp only [Piece.print, bound, List.length_append, List.length_cons, List.length_nil]
      omega

/-- A query arrives as it was meant exactly if none of its names holds a quote or a backslash. -/
theorem sqlFaithful_iff (q : Query) (size : ℕ) (hsize : size ∈ bufferSizes q)
    (hnames : ∀ n ∈ names q, Legal n) : Faithful size q ↔ ∀ n ∈ names q, Plain n := by
  have hlegal : ∀ n ∈ literals (pieces q), n.length < 255 := by
    rw [literals_pieces]
    exact fun n hn => (hnames n hn).1
  have hbuffer : 1024 ≤ size := by
    cases q <;> simp only [bufferSizes, List.mem_cons, List.not_mem_nil, or_false] at hsize <;> omega
  have hwhole : queryText size q = print (pieces q) := by
    have hle := length_print_le hlegal
    have hbound := bound_pieces q
    exact List.take_of_length_le (by omega)
  have hread : lex none (queryText size q) = some (statement (pieces q)) ↔
      ∀ n ∈ names q, Plain n := by
    rw [hwhole, lex_print_iff (readable_pieces q), literals_pieces]
  constructor
  · exact fun h => hread.mp h.read
  · intro h
    refine ⟨hwhole, hread.mpr h, fun q' size' hread' heq => ?_⟩
    have hstatement : statement (pieces q') = statement (pieces q) :=
      Option.some.inj (hread'.symm.trans (heq.trans (hread.mpr h)))
    rw [← literals_pieces q', ← literals_pieces q, ← values_statement, hstatement, values_statement]

/-- The lookup of `a%`. -/
theorem sqlFaithful_iff_percent :
    Faithful 2048 (.selectEntry 1 2 [97, 37] false) ↔ ∀ n ∈ [[97, 37]], Plain n :=
  sqlFaithful_iff (.selectEntry 1 2 [97, 37] false) 2048 (by decide) (by
    intro n hn
    rw [List.mem_singleton.mp hn]
    exact ⟨by decide, by decide, by decide⟩)

/-- The removal of `x' OR '1`, which removes all names of all directories. -/
theorem not_faithful_or : ¬ ∀ (q : Query) (size : ℕ), size ∈ bufferSizes q →
    (∀ n ∈ names q, Legal n) → Faithful size q := by
  intro h
  have hread := (h (.deleteParent 1 2 (ascii "x' OR '1")) 1024 (by decide) (by
    intro n hn
    rw [List.mem_singleton.mp hn]
    exact ⟨by decide, by decide, by decide⟩)).read
  exact absurd hread (by decide)

end Ganesha.PosixDb.Sql
