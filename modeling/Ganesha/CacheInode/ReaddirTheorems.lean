import Mathlib.Data.List.Infix
import Ganesha.Library.Paging
import Ganesha.CacheInode.Readdir

/-!
# Reading a cached directory, theorems

Calls of `cache_inode_readdir` from cookie 0 on, each from the `*pend_cookie` of the one before,
return every active dirent once, in the order of the positions (`lists_of_wanted`).

`END_OF_DIR` is reported by the call that reads the last position. A call that gets all it wants
before that does not look further, so the last dirent can come without it
(`not_endOfDir_with_last_dirent`); the next call then returns nothing but `END_OF_DIR`.
-/

namespace Ganesha.CacheInode.Readdir
open Library.Paging

variable {d : Directory} {c nbwanted : ℕ} {found : List (ℕ × DirEntry)}

namespace Directory

/-- The number of positions. -/
def size (d : Directory) : ℕ := childrenArraySize * d.chain.length

/-- The active dirent at a position. -/
def dirent (d : Directory) (c : ℕ) : Option (ℕ × DirEntry) :=
  d.chain[c / childrenArraySize]?.bind fun n =>
    if (n.entry c).active then some (c, n.entry c) else none

/-- The active dirents from a position on. -/
def rest (d : Directory) (c : ℕ) : List (ℕ × DirEntry) :=
  (List.range' c (d.size - c)).filterMap d.dirent

end Directory

/-! ## Positions -/

lemma Directory.rest_of_lt (h : c < d.size) : d.rest c = (d.dirent c).toList ++ d.rest (c + 1) := by
  have hsize : d.size - c = (d.size - (c + 1)) + 1 := by omega
  rw [rest, hsize, List.range'_succ, List.filterMap_cons, rest]
  cases d.dirent c with
  | none => rfl
  | some e => rfl

lemma Directory.rest_of_le (h : d.size ≤ c) : d.rest c = [] := by
  rw [rest, Nat.sub_eq_zero_of_le h]
  rfl

variable {e : ℕ × DirEntry}

lemma Directory.dirent_fst (h : d.dirent c = some e) : e.1 = c := by
  rw [dirent, Option.bind_eq_some_iff] at h
  obtain ⟨n, -, hn⟩ := h
  split_ifs at hn
  rw [← Option.some.inj hn]

/-- The entries from a cookie on. -/
lemma Directory.mem_rest : e ∈ d.rest c ↔ c ≤ e.1 ∧ e.1 < d.size ∧ d.dirent e.1 = some e := by
  rw [rest, List.mem_filterMap]
  constructor
  · rintro ⟨i, hi, he⟩
    rw [List.mem_range'_1] at hi
    have hfst := dirent_fst he
    rw [hfst]
    exact ⟨hi.1, by omega, he⟩
  · rintro ⟨hle, hlt, he⟩
    exact ⟨e.1, List.mem_range'_1.mpr ⟨hle, by omega⟩, he⟩

lemma Directory.rest_sorted (d : Directory) (c : ℕ) :
    (d.rest c).Pairwise fun e e' => e.1 < e'.1 := by
  rw [rest, List.pairwise_filterMap]
  refine (List.pairwise_lt_range' (s := c) (n := d.size - c)).imp fun {i j} hij e he e' he' => ?_
  rw [dirent_fst he, dirent_fst he']
  exact hij

/-- The rest behind the cookie of an entry is the list from there on. -/
lemma Directory.rest_of_getElem? {j : ℕ} (h : (d.rest c)[j]? = some e) : d.rest e.1 = (d.rest c).drop j := by
  obtain ⟨n, hn⟩ : ∃ n, n = d.size - c := ⟨_, rfl⟩
  induction n generalizing c j with
  | zero =>
    rw [rest_of_le (by omega)] at h
    cases h
  | succ n ih =>
    have hrest := rest_of_lt (d := d) (c := c) (by omega)
    cases hdirent : d.dirent c with
    | none =>
      rw [hdirent, Option.toList_none, List.nil_append] at hrest
      rw [hrest] at h ⊢
      exact ih h (by omega)
    | some e' =>
      rw [hdirent, Option.toList_some, List.singleton_append] at hrest
      cases j with
      | zero =>
        rw [hrest, List.getElem?_cons_zero] at h
        rw [← Option.some.inj h, dirent_fst hdirent, List.drop_zero]
      | succ j =>
        rw [hrest, List.getElem?_cons_succ] at h
        rw [hrest, List.drop_succ_cons]
        exact ih h (by omega)

/-! ## One call -/

lemma Directory.mod_eq {x : ℕ} (h : x ≤ d.size) : x % 2 ^ 32 = x := by
  have hsmall := d.small
  rw [size] at h
  exact Nat.mod_eq_of_lt (by omega)

variable {i : ℕ}

lemma Directory.drop_chain (h : i < d.chain.length) :
    d.chain.drop i = d.chain[i] :: d.chain.drop (i + 1) := List.drop_eq_getElem_cons h

lemma Directory.sub_eq (h : i < d.chain.length) (hle : childrenArraySize * i ≤ c) (hc : c < 2 ^ 32) :
    (c + 2 ^ 32 - d.chain[i].dirContPos * childrenArraySize % 2 ^ 32) % 2 ^ 32 =
      c - childrenArraySize * i := by
  have hmod : d.chain[i].dirContPos * childrenArraySize % 2 ^ 32 = childrenArraySize * i := by
    rw [d.dirContPos i h, Nat.mul_comm]
    exact Nat.mod_eq_of_lt (by omega)
  rw [hmod]
  omega

/-- A cookie inside the directory leads to its node. -/
lemma locate_of_lt (h : c < d.size) (hi : i ≤ c / childrenArraySize) :
    locate c (d.chain.drop i) = some (some (d.chain.drop (c / childrenArraySize))) := by
  have hsmall := d.small
  rw [Directory.size] at h
  have hlast : c / childrenArraySize < d.chain.length := Nat.div_lt_of_lt_mul h
  obtain ⟨n, hn⟩ : ∃ n, n = c / childrenArraySize - i := ⟨_, rfl⟩
  have hmul := Nat.div_mul_le_self c childrenArraySize
  have hdiv := Nat.lt_div_mul_add (a := c) (b := childrenArraySize) (by decide)
  rw [childrenArraySize] at *
  induction n generalizing i with
  | zero =>
    obtain rfl : i = c / 16 := by omega
    have hdist := Directory.sub_eq (d := d) (c := c) hlast (by rw [childrenArraySize]; omega)
      (by omega)
    rw [d.drop_chain hlast, locate]
    simp only [hdist]
    rw [if_neg (by rw [childrenArraySize]; omega)]
  | succ n ih =>
    have hlt : i < d.chain.length := by omega
    have hdist := Directory.sub_eq (d := d) (c := c) hlt (by rw [childrenArraySize]; omega) (by omega)
    have hend : ¬ d.chain[i].endOfDir = true := by
      rw [d.endOfDir i hlt, decide_eq_true_eq]
      omega
    rw [d.drop_chain hlt, locate]
    simp only [hdist]
    rw [if_pos (by rw [childrenArraySize]; omega), if_neg hend]
    exact ih (by omega) (by omega)

/-- A cookie behind the directory leads to none. -/
lemma locate_of_le (h : d.size ≤ c) (hc : c < 2 ^ 32) (hi : i < d.chain.length) :
    locate c (d.chain.drop i) = some none := by
  rw [Directory.size] at h
  obtain ⟨n, hn⟩ : ∃ n, n = d.chain.length - i := ⟨_, rfl⟩
  induction n generalizing i with
  | zero => omega
  | succ n ih =>
    have hdist := Directory.sub_eq (d := d) (c := c) hi (by rw [childrenArraySize] at *; omega) hc
    rw [d.drop_chain hi, locate]
    simp only [hdist]
    rw [if_pos (by rw [childrenArraySize] at *; omega), d.endOfDir i hi]
    by_cases hlast : i + 1 = d.chain.length
    · rw [if_pos (decide_eq_true hlast)]
    · rw [if_neg (by rw [decide_eq_true_eq]; exact hlast)]
      exact ih (by omega) (by omega)

/-- What a call that wants `n` more dirents leaves, from the position `c`. -/
structure Reads (d : Directory) (c n : ℕ) (found : List (ℕ × DirEntry)) (r : Result) : Prop where
  entries : r.entries = found ++ (d.rest c).take n
  rest : d.rest r.endCookie = (d.rest c).drop n
  lt : c < r.endCookie
  le : r.endCookie ≤ d.size
  eodMet : r.eodMet = true ↔ r.endCookie = d.size
  full : r.eodMet = false → r.entries.length = found.length + n

/-- A slot that is read, and then the rest. -/
lemma Reads.next {n : ℕ} {r : Result} (hc : c < d.size) (hpos : 0 < n)
    (h : Reads d (c + 1) (n - (d.dirent c).toList.length) (found ++ (d.dirent c).toList) r) :
    Reads d c n found r := by
  have hle : (d.dirent c).toList.length ≤ n := by
    cases d.dirent c with
    | none => exact Nat.zero_le n
    | some e => exact hpos
  have hrest := Directory.rest_of_lt hc
  refine ⟨?_, ?_, by have := h.lt; omega, h.le, h.eodMet, fun hfalse => ?_⟩
  · rw [h.entries, hrest, List.take_append, List.take_of_length_le hle, List.append_assoc]
  · rw [h.rest, hrest, List.drop_append, List.drop_eq_nil_of_le hle, List.nil_append]
  · rw [h.full hfalse, List.length_append]
    omega

/-- A turn of the loop takes one slot. -/
lemma readLoop_turn {fuel : ℕ} (hc : c < d.size) (hfound : found.length < nbwanted) :
    readLoop nbwanted (fuel + 1) (d.chain.drop (c / childrenArraySize)) c found =
      if c + 1 = d.size then some ⟨found ++ (d.dirent c).toList, c + 1, true⟩
      else readLoop nbwanted fuel (d.chain.drop ((c + 1) / childrenArraySize)) (c + 1)
        (found ++ (d.dirent c).toList) := by
  have hi : c / childrenArraySize < d.chain.length := Nat.div_lt_of_lt_mul hc
  have hnext : (c + 1) % 2 ^ 32 = c + 1 := Directory.mod_eq hc
  have hadd : (if (d.chain[c / childrenArraySize].entry c).active = true then
      found ++ [(c, d.chain[c / childrenArraySize].entry c)] else found) =
      found ++ (d.dirent c).toList := by
    rw [Directory.dirent, List.getElem?_eq_getElem hi, Option.bind_some]
    split_ifs
    · rfl
    · exact (List.append_nil found).symm
  have hend : d.chain[c / childrenArraySize].endOfDir = true ↔
      c / childrenArraySize + 1 = d.chain.length := by
    rw [d.endOfDir _ hi, decide_eq_true_eq]
  rw [d.drop_chain hi, readLoop, if_pos hfound]
  simp only [hadd, hnext]
  rw [Directory.size] at hc ⊢
  -- at the end of a node the next one is read
  by_cases hlast : (c + 1) % childrenArraySize = 0
  · have hdiv : (c + 1) / childrenArraySize = c / childrenArraySize + 1 := by
      rw [childrenArraySize] at *
      omega
    have hsize : c + 1 = childrenArraySize * d.chain.length ↔
        c / childrenArraySize + 1 = d.chain.length := by
      rw [childrenArraySize] at *
      omega
    rw [if_pos hlast, hdiv]
    simp only [hend, hsize]
  · have hdiv : (c + 1) / childrenArraySize = c / childrenArraySize := by
      rw [childrenArraySize] at *
      omega
    have hsize : ¬ c + 1 = childrenArraySize * d.chain.length := by
      rw [childrenArraySize] at *
      omega
    rw [if_neg hlast, if_neg hsize, hdiv, d.drop_chain hi]

/-- The loop reads as many dirents as are wanted, or up to the end. -/
lemma readLoop_spec {fuel : ℕ} (hc : c < d.size) (hfound : found.length < nbwanted)
    (hfuel : d.size - c < fuel) :
    ∃ r, readLoop nbwanted fuel (d.chain.drop (c / childrenArraySize)) c found = some r ∧
      Reads d c (nbwanted - found.length) found r := by
  induction fuel generalizing c found with
  | zero => omega
  | succ fuel ih =>
    rw [readLoop_turn hc hfound]
    set found' := found ++ (d.dirent c).toList with hfound'
    have hlength : found'.length = found.length + (d.dirent c).toList.length := by
      rw [hfound', List.length_append]
    -- a slot holds one dirent at most
    have hone : (d.dirent c).toList.length ≤ 1 := by
      cases d.dirent c with
      | none => exact Nat.zero_le 1
      | some e => exact le_refl 1
    by_cases hlast : c + 1 = d.size
    · rw [if_pos hlast]
      have hnil : d.rest (c + 1) = [] := Directory.rest_of_le (by omega)
      refine ⟨_, rfl, Directory.rest_of_lt hc ▸ ?_, ?_, Nat.lt_succ_self c, hc, ?_, ?_⟩
      · rw [hnil, List.append_nil, List.take_of_length_le (by omega)]
      · rw [Directory.rest_of_lt hc, hnil, List.append_nil, List.drop_eq_nil_of_le (by omega)]
      · exact ⟨fun _ => hlast, fun _ => rfl⟩
      · exact fun hfalse => by cases hfalse
    · rw [if_neg hlast]
      by_cases hmore : found'.length < nbwanted
      · obtain ⟨r, hrun, hreads⟩ := ih (c := c + 1) (by omega) hmore (by omega)
        refine ⟨r, hrun, Reads.next hc (by omega) ?_⟩
        have hsub : nbwanted - found'.length =
            nbwanted - found.length - (d.dirent c).toList.length := by omega
        rw [← hsub]
        exact hreads
      · -- the dirent at this position is the last one wanted
        obtain ⟨fuel, rfl⟩ : ∃ k, fuel = k + 1 := ⟨fuel - 1, by omega⟩
        refine ⟨⟨found', c + 1, false⟩, ?_, ?_⟩
        · rw [readLoop.eq_def]
          exact if_neg hmore
        · have hrest := Directory.rest_of_lt hc
          have htake : nbwanted - found.length = (d.dirent c).toList.length := by omega
          refine ⟨?_, ?_, Nat.lt_succ_self c, hc, ⟨fun hfalse => ?_, fun heq => ?_⟩, fun _ => ?_⟩
          · rw [hrest, htake, List.take_left]
          · rw [hrest, htake, List.drop_left]
          · cases hfalse
          · exact absurd heq hlast
          · exact hlength.trans (by rw [htake])

/-- `cache_inode_readdir` from a position in the directory. -/
theorem cacheInodeReaddir_spec (hc : c < d.size) (hwanted : 0 < nbwanted) :
    ∃ r, cacheInodeReaddir d.chain c nbwanted = some r ∧ Reads d c nbwanted [] r := by
  have hlocate := locate_of_lt (i := 0) hc (Nat.zero_le _)
  rw [List.drop_zero] at hlocate
  rw [cacheInodeReaddir, if_neg (by omega), hlocate, Option.bind_some]
  refine readLoop_spec hc hwanted ?_
  rw [Directory.size, List.length_drop]
  rw [Directory.size] at hc
  rw [childrenArraySize] at *
  omega

/-- `cache_inode_readdir` from the end of the directory. -/
theorem cacheInodeReaddir_end (hc : d.size ≤ c) (hlt : c < 2 ^ 32) (hwanted : 0 < nbwanted) :
    cacheInodeReaddir d.chain c nbwanted = some ⟨[], c, true⟩ := by
  have hlocate := locate_of_le (i := 0) hc hlt (List.length_pos_iff.mpr d.nonempty)
  rw [List.drop_zero] at hlocate
  rw [cacheInodeReaddir, if_neg (by omega), hlocate]
  rfl

/-! ## All calls -/

/-- A call, as a page of dirents with their positions. -/
def readdirPage (d : Directory) (cookie nbwanted : ℕ) : Option (Page ℕ (ℕ × DirEntry)) :=
  (cacheInodeReaddir d.chain cookie nbwanted).map fun r => ⟨r.entries, r.endCookie, r.eodMet⟩

/-- A call reads to the end, or leaves off in the middle with something read. -/
lemma Reads.page {r : Result} (h : Reads d c nbwanted [] r) (hwanted : 0 < nbwanted) :
    r.eodMet = true ∧ r.entries = d.rest c ∨
      r.eodMet = false ∧ r.entries ≠ [] ∧ r.endCookie < d.size ∧
        r.entries ++ d.rest r.endCookie = d.rest c := by
  have hsplit : r.entries ++ d.rest r.endCookie = d.rest c := by
    rw [h.entries, h.rest, List.nil_append, List.take_append_drop]
  cases heod : r.eodMet with
  | true =>
    have hnil : d.rest r.endCookie = [] := Directory.rest_of_le (h.eodMet.mp heod).ge
    rw [hnil, List.append_nil] at hsplit
    exact .inl ⟨rfl, hsplit⟩
  | false =>
    have hlength := h.full heod
    rw [List.length_nil, Nat.zero_add] at hlength
    have hne : r.entries ≠ [] := fun hnil => by
      rw [hnil, List.length_nil] at hlength
      omega
    have hlt : r.endCookie < d.size := by
      refine Nat.lt_of_le_of_ne h.le fun heq => ?_
      rw [h.eodMet.mpr heq] at heod
      cases heod
    exact .inr ⟨rfl, hne, hlt, hsplit⟩

lemma pages_readdirPage (d : Directory) :
    Pages (readdirPage d) (· < d.size) (fun _ nbwanted => 0 < nbwanted) d.rest := by
  intro c nbwanted hc hwanted
  obtain ⟨r, hrun, hreads⟩ := cacheInodeReaddir_spec hc hwanted
  exact ⟨_, by rw [readdirPage, hrun]; rfl, hreads.page hwanted⟩

/-- The end is told by the page that ends behind the last slot. -/
lemma eof_iff_of_run {ns : List ℕ} {ps : List (Page ℕ (ℕ × DirEntry))} (hc : c < d.size)
    (hns : ∀ n ∈ ns, 0 < n) (hrun : run (readdirPage d) c ns = some ps) :
    ∀ p ∈ ps, (p.eof = true ↔ p.next = d.size) := by
  have hcall : ∀ c n p, c < d.size → 0 < n → readdirPage d c n = some p →
      (p.eof = true ↔ p.next = d.size) ∧ (p.eof = false → p.next < d.size) := by
    intro c n p hc hn hp
    obtain ⟨r, hread, hreads⟩ := cacheInodeReaddir_spec hc hn
    rw [readdirPage, hread, Option.map_some, Option.some.injEq] at hp
    rw [← hp]
    refine ⟨hreads.eodMet, fun heod => ?_⟩
    rcases hreads.page hn with ⟨heod', -⟩ | ⟨-, -, hlt, -⟩
    · rw [heod'] at heod
      cases heod
    · exact hlt
  intro p hp
  obtain ⟨c', n, hc', hn, hread⟩ :=
    exists_call_of_run (fun c n p hc hn hp => (hcall c n p hc hn hp).2) hc
      (AllFit.of_forall fun _ => hns) hrun p hp
  exact (hcall c' n p hc' hn hread).1

/-- Calls from cookie 0 on, for any numbers of dirents wanted: they return every active dirent once
and in order, `END_OF_DIR` is reported by the call that reads the last position, and that call is
made when there are enough of them. -/
theorem lists_of_wanted (d : Directory) (ns : List ℕ) (hns : ∀ n ∈ ns, 0 < n) :
    ∃ ps, run (readdirPage d) 0 ns = some ps ∧ Lists ps (d.rest 0) ∧
      (∀ p ∈ ps, (p.eof = true ↔ p.next = d.size)) ∧
      ((d.rest 0).length < ns.length → ∃ p ∈ ps, p.eof = true) := by
  have hpos : 0 < d.size := Nat.mul_pos (by decide) (List.length_pos_iff.mpr d.nonempty)
  obtain ⟨ps, hrun, hlists, hend⟩ := (pages_readdirPage d).run hpos (AllFit.of_forall fun _ => hns)
  exact ⟨ps, hrun, hlists, eof_iff_of_run hpos hns hrun, hend⟩

/-- A directory with one dirent, at position 0. -/
def oneDirent : Directory where
  chain := [⟨fun i => if i.val = 0 then ⟨true, 1, [97]⟩ else ⟨false, 0, []⟩, true, 0⟩]
  nonempty := by decide
  endOfDir i h := by
    obtain rfl : i = 0 := by simpa using h
    rfl
  dirContPos i h := by
    obtain rfl : i = 0 := by simpa using h
    rfl
  small := by decide

theorem lists_of_wanted_oneDirent :
    ∃ ps, run (readdirPage oneDirent) 0 [1, 1] = some ps ∧ Lists ps (oneDirent.rest 0) ∧
      ∃ p ∈ ps, p.eof = true := by
  obtain ⟨ps, hrun, hlists, -, hend⟩ := lists_of_wanted oneDirent [1, 1] (by decide)
  exact ⟨ps, hrun, hlists, hend (by decide)⟩

/-- The call that returns the last dirent does not report `END_OF_DIR` if it reads no further. -/
theorem not_endOfDir_with_last_dirent :
    ¬ ∀ (d : Directory) (ns : List ℕ) (ps : List (Page ℕ (ℕ × DirEntry))), (∀ n ∈ ns, 0 < n) →
      run (readdirPage d) 0 ns = some ps → ∀ p ∈ ps, (p.eof = true ↔ d.rest p.next = []) := by
  intro hall
  have hrun : ∃ p, run (readdirPage oneDirent) 0 [1] = some [p] ∧ p.eof = false ∧ p.next = 1 :=
    ⟨_, rfl, rfl, rfl⟩
  obtain ⟨p, hrun, heof, hnext⟩ := hrun
  have hlast := (hall oneDirent [1] [p] (by decide) hrun p List.mem_cons_self).mpr (by
    rw [hnext]
    decide)
  rw [heof] at hlast
  cases hlast

end Ganesha.CacheInode.Readdir
