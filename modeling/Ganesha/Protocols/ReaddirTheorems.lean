import Mathlib.Data.List.Pairwise
import Ganesha.CacheInode.ReaddirTheorems
import Ganesha.Protocols.Readdir

/-!
# READDIR, theorems

`READDIR` calls from cookie 0 on, each from the cookie of the last entry of the reply before, list
the directory once, with `.` and `..` in versions 2 and 3 (`lists_of_room`). The cookies increase,
and those of version 4 are not 1 or 2.

`eof` comes with the last entry, or in a reply without entries after it: the cache does not look
beyond the dirents that it is asked for. A first call of versions 2 and 3 whose count has room for `.`
but not for the first dirent is an error if it asks for that dirent (`not_listed_as_asked`).
-/

namespace Ganesha.Protocols.Readdir
open CacheInode.Readdir Library.Paging

variable {d : Directory} {c n endCookie : ℕ} {l : List (ℕ × DirEntry)}

/-! ## Cookies -/

/-- The cookies of the entries for the dirents `l`. -/
def nextCookies (endCookie : ℕ) : List (ℕ × DirEntry) → List ℕ
  | [] => []
  | _ :: rest => nextCookie endCookie rest :: nextCookies endCookie rest

lemma length_nextCookies : (nextCookies endCookie l).length = l.length := by
  induction l with
  | nil => rfl
  | cons e l ih => rw [nextCookies, List.length_cons, ih, List.length_cons]

/-- The cookie at a place. -/
lemma getElem?_nextCookies {j : ℕ} (h : j < l.length) :
    (nextCookies endCookie l)[j]? = some (nextCookie endCookie (l.drop (j + 1))) := by
  induction l generalizing j with
  | nil => exact absurd h (Nat.not_lt_zero j)
  | cons e l ih =>
    cases j with
    | zero => rfl
    | succ j => exact ih (Nat.lt_of_succ_lt_succ h)

/-- Cookies grow along the listing. -/
lemma nextCookies_increasing (hsorted : l.Pairwise fun e e' => e.1 < e'.1)
    (hend : ∀ e ∈ l, e.1 < endCookie) (hsmall : endCookie + 2 < 2 ^ 32) :
    (nextCookies endCookie l).Pairwise (· < ·) ∧
      ∀ k ∈ nextCookies endCookie l, ∀ e ∈ l.head?, e.1 + 2 < k := by
  induction l with
  | nil => exact ⟨List.Pairwise.nil, fun k hk => nomatch hk⟩
  | cons e l ih =>
    obtain ⟨hlt, hsorted⟩ := List.pairwise_cons.mp hsorted
    obtain ⟨hpair, habove⟩ := ih hsorted fun e' he' => hend e' (List.mem_cons_of_mem e he')
    have hfirst : e.1 + 2 < nextCookie endCookie l ∧
        ∀ k ∈ nextCookies endCookie l, nextCookie endCookie l < k := by
      cases l with
      | nil =>
        have he := hend e List.mem_cons_self
        rw [nextCookie, Nat.mod_eq_of_lt hsmall]
        exact ⟨by omega, fun k hk => nomatch hk⟩
      | cons e' l =>
        have he' := hend e' (List.mem_cons_of_mem e List.mem_cons_self)
        have hee' := hlt e' List.mem_cons_self
        rw [nextCookie, Nat.mod_eq_of_lt (by omega)]
        exact ⟨by omega, fun k hk => habove k hk e' rfl⟩
    refine ⟨List.pairwise_cons.mpr ⟨hfirst.2, hpair⟩, fun k hk e' he' => ?_⟩
    obtain rfl : e = e' := Option.some.inj he'
    rcases List.mem_cons.mp hk with rfl | hk
    · exact hfirst.1
    · exact Nat.lt_trans hfirst.1 (hfirst.2 k hk)

/-- Entries read lie between the cookies. -/
lemma reads_bounds {r : Result} (h : Reads d c n [] r) :
    ∀ e ∈ r.entries, c ≤ e.1 ∧ e.1 < r.endCookie := by
  intro e he
  have hentries := h.entries
  rw [List.nil_append] at hentries
  rw [hentries] at he
  have hmem := Directory.mem_rest.mp (List.mem_of_mem_take he)
  refine ⟨hmem.1, Nat.lt_of_not_le fun hle => ?_⟩
  -- else the dirent would be left for the next call
  have hleft : e ∈ (d.rest c).drop n := by
    rw [← h.rest]
    exact Directory.mem_rest.mpr ⟨hle, hmem.2⟩
  have hnd : (d.rest c).Nodup := (d.rest_sorted c).imp fun hlt heq => by
    rw [heq] at hlt
    exact Nat.lt_irrefl _ hlt
  exact List.disjoint_take_drop hnd (Nat.le_refl n) he hleft

/-- The cookie of an entry leads on behind it. -/
lemma nextCookie_spec {r : Result} {j : ℕ} (h : Reads d c n [] r) (hj : 0 < j)
    (hle : j ≤ r.entries.length) :
    ∃ c', nextCookie r.endCookie (r.entries.drop j) = c' + 2 ∧ c < c' ∧ c' ≤ r.endCookie ∧
      d.rest c' = (d.rest c).drop j := by
  have hsmall := d.small
  have hend := h.le
  have hlt := h.lt
  rw [Directory.size] at hend
  have hentries := h.entries
  rw [List.nil_append] at hentries
  have hlength : r.entries.length = min n (d.rest c).length := by
    rw [hentries, List.length_take]
  -- there is an entry behind, or the reading goes on at its end
  cases hdrop : r.entries.drop j with
  | nil =>
    have hall : r.entries.length = j := by
      have := List.drop_eq_nil_iff.mp hdrop
      omega
    refine ⟨r.endCookie, ?_, hlt, Nat.le_refl _, ?_⟩
    · rw [nextCookie]
      exact Nat.mod_eq_of_lt (by omega)
    · rw [h.rest]
      by_cases hn : n ≤ (d.rest c).length
      · obtain rfl : j = n := by omega
        rfl
      · rw [List.drop_eq_nil_of_le (by omega), List.drop_eq_nil_of_le (by omega)]
  | cons e rest =>
    have hget : r.entries[j]? = some e := by
      rw [← List.head?_drop, hdrop]
      rfl
    have hjlt : j < r.entries.length := by
      by_contra hge
      rw [List.drop_eq_nil_of_le (by omega)] at hdrop
      cases hdrop
    have hget' : (d.rest c)[j]? = some e := by
      rw [hentries, List.getElem?_take_of_lt (by omega)] at hget
      exact hget
    obtain ⟨hce, hee⟩ := reads_bounds h e (List.mem_of_getElem? hget)
    refine ⟨e.1, ?_, ?_, hee.le, Directory.rest_of_getElem? hget'⟩
    · rw [nextCookie]
      exact Nat.mod_eq_of_lt (by omega)
    · -- the first dirent is before this one
      obtain ⟨e₀, he₀⟩ : ∃ e₀, (d.rest c)[0]? = some e₀ :=
        ⟨_, List.getElem?_eq_getElem (by omega)⟩
      have hc₀ := (Directory.mem_rest.mp (List.mem_of_getElem? he₀)).1
      obtain ⟨h₀, rfl⟩ := List.getElem?_eq_some_iff.mp he₀
      obtain ⟨h₁, rfl⟩ := List.getElem?_eq_some_iff.mp hget'
      have hsorted := List.pairwise_iff_getElem.mp (d.rest_sorted c) 0 j h₀ h₁ hj
      omega

/-! ## Filling a reply -/

/-- The names from a position on. -/
def restNames (d : Directory) (c : ℕ) : List (List UInt8) := (d.rest c).map (·.2.name)

/-- The entries for the first dirents of `l`, at least one if there is one, and all if the loop came
to its end. -/
structure Fills (names : List (List UInt8)) (cookies : List ℕ) (l : List (ℕ × DirEntry))
    (endCookie : ℕ) (done : Bool) (j : ℕ) : Prop where
  le : j ≤ l.length
  names_eq : names = (l.map (·.2.name)).take j
  cookies_eq : cookies = (nextCookies endCookie l).take j
  all : done = true → j = l.length
  empty : l = [] → done = true

lemma Fills.cons {names : List (List UInt8)} {cookies : List ℕ} {done : Bool} {j : ℕ}
    (h : Fills names cookies l endCookie done j) (e : ℕ × DirEntry) :
    Fills (e.2.name :: names) (nextCookie endCookie l :: cookies) (e :: l) endCookie done (j + 1) where
  le := Nat.succ_le_succ h.le
  names_eq := by rw [h.names_eq]; rfl
  cookies_eq := by rw [h.cookies_eq]; rfl
  all hd := congrArg (· + 1) (h.all hd)
  empty hnil := nomatch hnil

/-- The loop of NFSv2 and v3 over the entries. -/
lemma fillLoop_spec {v : Version} {fileid : ℕ → ℕ} {count spaceUsed : ℕ} {first : Bool}
    (hroom : first = true → ∀ e ∈ l.head?, spaceUsed + v.needed e.2.name ≤ count) :
    ∃ entries done j, fillLoop v fileid count endCookie first spaceUsed l = .ok (entries, done) ∧
      Fills (entries.map Entry.name) (entries.map Entry.cookie) l endCookie done j ∧
      (first = true → l ≠ [] → 0 < j) := by
  induction l generalizing first spaceUsed with
  | nil => exact ⟨[], true, 0, rfl, ⟨Nat.le_refl 0, rfl, rfl, fun _ => rfl, fun _ => rfl⟩, fun _ h => absurd rfl h⟩
  | cons e l ih =>
    simp only [fillLoop]
    by_cases hfull : spaceUsed + v.needed e.2.name > count
    · have hfirst : ¬ first = true := fun hfirst => by
        have := hroom hfirst e rfl
        omega
      rw [if_pos hfull, if_neg hfirst]
      refine ⟨[], false, 0, rfl, ⟨Nat.zero_le _, rfl, rfl, fun hd => ?_, fun hnil => ?_⟩,
        fun h => absurd h hfirst⟩
      · cases hd
      · cases hnil
    · rw [if_neg hfull]
      obtain ⟨entries, done, j, hrun, hfills, -⟩ :=
        @ih (spaceUsed + v.needed e.2.name) false fun h => by cases h
      rw [hrun]
      exact ⟨_, done, j + 1, rfl, hfills.cons e, fun _ _ => Nat.succ_pos j⟩

/-- The loop of NFSv4 over the entries. -/
lemma fillLoop4_spec {β : Type*} {attrs : List UInt8 → Option β}
    (hattrs : ∀ e ∈ l, (attrs e.2.name).isSome) (maxcount endCookie i : ℕ) :
    ∃ entries done j, fillLoop4 attrs maxcount endCookie i l = .ok (entries, done) ∧
      Fills (entries.map Entry4.name) (entries.map Entry4.cookie) l endCookie done j ∧
      (l ≠ [] → 0 < j) := by
  induction l generalizing i with
  | nil => exact ⟨[], true, 0, rfl, ⟨Nat.le_refl 0, rfl, rfl, fun _ => rfl, fun _ => rfl⟩, fun h => absurd rfl h⟩
  | cons e l ih =>
    obtain ⟨a, ha⟩ := Option.isSome_iff_exists.mp (hattrs e List.mem_cons_self)
    simp only [fillLoop4, ha]
    by_cases hstop : i * sizeofEntry4 > maxcount * 9 / 10
    · rw [if_pos hstop]
      refine ⟨_, false, 1, rfl, ⟨Nat.succ_le_succ (Nat.zero_le _), rfl, rfl, fun hd => ?_,
        fun hnil => ?_⟩, fun _ => Nat.one_pos⟩
      · cases hd
      · cases hnil
    · rw [if_neg hstop]
      obtain ⟨entries, done, j, hrun, hfills, -⟩ :=
        ih (fun e' he' => hattrs e' (List.mem_cons_of_mem e he')) (i + 1)
      rw [hrun]
      exact ⟨_, done, j + 1, rfl, hfills.cons e, fun _ => Nat.succ_pos j⟩

/-- A reply to a call with the cookie `k` cuts off the front of `rest k`. Its cookies increase from
there, and the last one leads to what is left. -/
structure Cut (rest : ℕ → List (List UInt8)) (bound k : ℕ) (names : List (List UInt8))
    (cookies : List ℕ) (eof : Bool) : Prop where
  cases : eof = true ∧ names = rest k ∨ eof = false ∧ ∃ k', cookies.getLast? = some k' ∧
    k' ≤ bound ∧ names ≠ [] ∧ names ++ rest k' = rest k
  increasing : cookies.Pairwise (· < ·)
  above : ∀ x ∈ cookies, k < x

/-- What was filled in is a cut of what is left. -/
lemma cut_of_reads {r : Result} {names : List (List UInt8)} {cookies : List ℕ} {done : Bool} {j : ℕ}
    (h : Reads d c n [] r) (hn : 0 < n) (hfills : Fills names cookies r.entries r.endCookie done j)
    (hj : r.entries ≠ [] → 0 < j) :
    Cut (fun k => restNames d (k - 2)) (d.size + 2) (c + 2) names cookies (r.eodMet && done) := by
  have hentries := h.entries
  rw [List.nil_append] at hentries
  have hnames : names = (restNames d c).take j := by
    have hle := hfills.le
    rw [hentries, List.length_take] at hle
    rw [hfills.names_eq, hentries, restNames, ← List.map_take, List.take_take, ← List.map_take,
      Nat.min_eq_left (by omega)]
  -- the cookies are those of the positions
  have hcookies : ∀ i, i < j → ∃ c', cookies[i]? = some (c' + 2) ∧ c < c' ∧ c' ≤ r.endCookie ∧
      d.rest c' = (d.rest c).drop (i + 1) := by
    intro i hi
    have hle := hfills.le
    obtain ⟨c', hc', hbounds⟩ := nextCookie_spec h (Nat.succ_pos i) (by omega)
    refine ⟨c', ?_, hbounds⟩
    rw [hfills.cookies_eq, List.getElem?_take_of_lt hi, getElem?_nextCookies (by omega), hc']
  have hlength : cookies.length = j := by
    rw [hfills.cookies_eq, List.length_take, length_nextCookies]
    exact Nat.min_eq_left hfills.le
  have hend := h.le
  refine ⟨?_, ?_, fun k hk => ?_⟩
  · have hempty : r.entries = [] → r.eodMet = true ∧ done = true := fun hnil => by
      rcases h.page hn with ⟨heod, -⟩ | ⟨-, hne, -⟩
      · exact ⟨heod, hfills.empty hnil⟩
      · exact absurd hnil hne
    cases heof : r.eodMet && done with
    | true =>
      rw [Bool.and_eq_true] at heof
      refine .inl ⟨rfl, ?_⟩
      have hall : r.entries = d.rest c := by
        rcases h.page hn with ⟨-, hall⟩ | ⟨hfalse, -⟩
        · exact hall
        · rw [heof.1] at hfalse
          cases hfalse
      rw [hnames, hfills.all heof.2, hall]
      exact List.take_of_length_le (by rw [restNames, List.length_map])
    | false =>
      have hne : r.entries ≠ [] := fun hnil => by
        rw [(hempty hnil).1, (hempty hnil).2] at heof
        cases heof
      have hpos := hj hne
      obtain ⟨c', hc', -, hle, hrest⟩ := hcookies (j - 1) (by omega)
      rw [Nat.sub_add_cancel hpos] at hrest
      refine .inr ⟨rfl, c' + 2, ?_, by omega, fun hnil => ?_, ?_⟩
      · rw [List.getLast?_eq_getElem?, hlength]
        exact hc'
      · rw [hfills.names_eq, List.take_eq_nil_iff, List.map_eq_nil_iff] at hnil
        rcases hnil with hnil | hnil
        · omega
        · exact hne hnil
      · have hdrop : restNames d c' = (restNames d c).drop j := by
          rw [restNames, hrest, restNames, List.map_drop]
        simp only [Nat.add_sub_cancel]
        rw [hnames, hdrop, List.take_append_drop]
  · have hsmall := d.small
    rw [Directory.size] at hend
    have hsorted : r.entries.Pairwise fun e e' => e.1 < e'.1 := by
      rw [hentries]
      exact (d.rest_sorted c).sublist (List.take_sublist _ _)
    rw [hfills.cookies_eq]
    exact (nextCookies_increasing hsorted (fun e he => (reads_bounds h e he).2)
      (by omega)).1.sublist (List.take_sublist _ _)
  · obtain ⟨i, hi, rfl⟩ := List.mem_iff_getElem.mp hk
    obtain ⟨c', hc', hlt, -⟩ := hcookies i (by omega)
    rw [List.getElem?_eq_getElem hi, Option.some.injEq] at hc'
    omega

lemma Cut.nil {rest : ℕ → List (List UInt8)} {bound k : ℕ} (h : rest k = []) :
    Cut rest bound k [] [] true :=
  ⟨.inl ⟨rfl, h.symm⟩, List.Pairwise.nil, fun _ hx => nomatch hx⟩

lemma Cut.le_getLast {rest : ℕ → List (List UInt8)} {bound k : ℕ} {names : List (List UInt8)}
    {cookies : List ℕ} {eof : Bool} (h : Cut rest bound k names cookies eof) :
    ∀ x ∈ cookies, x ≤ cookies.getLast?.getD k := by
  intro x hx
  have hne : cookies ≠ [] := List.ne_nil_of_mem hx
  rw [List.getLast?_eq_some_getLast hne, Option.getD_some]
  have hle : cookies.Pairwise (· ≤ ·) := h.increasing.imp Nat.le_of_lt
  exact hle.rel_getLast hx

lemma Cut.le_next {rest : ℕ → List (List UInt8)} {bound k : ℕ} {names : List (List UInt8)}
    {cookies : List ℕ} {eof : Bool} (h : Cut rest bound k names cookies eof) :
    k ≤ cookies.getLast?.getD k := by
  cases hlast : cookies.getLast? with
  | none => exact le_rfl
  | some k' => exact (h.above k' (List.mem_of_getLast? hlast)).le

/-- One call to the cache. -/
lemma cut_of_call {k : ℕ} (hk : 2 ≤ k) (hle : k ≤ d.size + 2) (hn : 0 < n) :
    ∃ r, cacheInodeReaddir d.chain (k - 2) n = some r ∧ (∀ e ∈ r.entries, e ∈ d.rest 0) ∧
      r.entries.head? = (d.rest (k - 2)).head? ∧ (r.entries = [] → r.eodMet = true ∧ restNames d (k - 2) = []) ∧
      ∀ names cookies done j, Fills names cookies r.entries r.endCookie done j →
        (r.entries ≠ [] → 0 < j) →
        Cut (fun k => restNames d (k - 2)) (d.size + 2) k names cookies (r.eodMet && done) := by
  by_cases hlt : k - 2 < d.size
  · obtain ⟨r, hrun, hreads⟩ := cacheInodeReaddir_spec hlt hn
    refine ⟨r, hrun, fun e he => ?_, ?_, fun hnil => ?_, fun names cookies done j hfills hj => ?_⟩
    · rw [hreads.entries, List.nil_append] at he
      have hmem := Directory.mem_rest.mp (List.mem_of_mem_take he)
      exact Directory.mem_rest.mpr ⟨Nat.zero_le _, hmem.2⟩
    · rw [hreads.entries, List.nil_append, List.head?_take, if_neg (Nat.ne_of_gt hn)]
    · rcases hreads.page hn with ⟨heod, hall⟩ | ⟨-, hne, -⟩
      · rw [restNames, ← hall, hnil]
        exact ⟨heod, rfl⟩
      · exact absurd hnil hne
    · have hcut := cut_of_reads hreads hn hfills hj
      rw [Nat.sub_add_cancel hk] at hcut
      exact hcut
  · have hsmall := d.small
    rw [Directory.size] at hle hlt
    have hrest : d.rest (k - 2) = [] := Directory.rest_of_le (by rw [Directory.size]; omega)
    have hnil : restNames d (k - 2) = [] := by
      rw [restNames, hrest]
      rfl
    refine ⟨_, cacheInodeReaddir_end (by rw [Directory.size]; omega) (by omega) hn,
      fun e he => absurd he List.not_mem_nil, by rw [hrest], fun _ => ⟨rfl, hnil⟩,
      fun names cookies done j hfills _ => ?_⟩
    obtain rfl : j = 0 := Nat.le_zero.mp hfills.le
    rw [hfills.names_eq, hfills.cookies_eq, hfills.empty rfl]
    exact Cut.nil hnil

/-! ## Calls -/

/-- The reply with the cookie of its last entry. -/
def reply {α : Type*} (cookie : α → ℕ) (k : ℕ) (result : Option (Except Status (List α × Bool))) :
    Option (Page ℕ α) :=
  result.bind fun
    | .ok (entries, eof) => some ⟨entries, (entries.getLast?.map cookie).getD k, eof⟩
    | .error _ => none

variable {β : Type*} {attrs : List UInt8 → Option β} {v : Version} {fileid : ℕ → ℕ} {dir parent : ℕ}

/-- What is left from a cookie of version 4. -/
def rest4 (d : Directory) (k : ℕ) : List (List UInt8) := restNames d (k - 2)

/-- `.` and `..` if they are left, and what else is. -/
def rest23 (d : Directory) (k : ℕ) : List (List UInt8) :=
  (if k = 0 then [dot] else []) ++ (if k ≤ 1 then [dotDot] else []) ++ restNames d (k - 2)

/-- A count with room for at least one entry, and, if it asks for more than the `.` and `..` that are
left, for the next dirent. -/
def Room (v : Version) (d : Directory) (k count : ℕ) : Prop :=
  v.sizeofEntry ≤ count ∧ (2 - k < count / v.sizeofEntry → ∀ e ∈ (d.rest (k - 2)).head?,
    v.sizeofResok + v.needed e.2.name ≤ count)

/-- One READDIR of NFSv4. -/
lemma nfs4OpReaddir_spec {k maxcount : ℕ} (hattrs : ∀ e ∈ d.rest 0, (attrs e.2.name).isSome)
    (hk : k = 0 ∨ 3 ≤ k) (hle : k ≤ d.size + 2) (hmax : sizeofEntry4 ≤ maxcount) :
    ∃ entries eof, nfs4OpReaddir attrs d.chain k maxcount = some (.ok (entries, eof)) ∧
      Cut (rest4 d) (d.size + 2) k (entries.map Entry4.name) (entries.map Entry4.cookie) eof ∧
      ∀ x ∈ entries.map Entry4.cookie, 3 ≤ x := by
  have hsmall := d.small
  have hsize : d.size + 2 < 2 ^ 32 := hsmall
  have hn : 0 < maxcount / sizeofEntry4 := Nat.div_pos hmax (by decide)
  have hmod : k % 2 ^ 32 = k := Nat.mod_eq_of_lt (by omega)
  have hreserved : ¬ (k = 1 ∨ k = 2) := by omega
  have hcookie : (if k ≠ 0 then k - 2 else k) = k - 2 := by
    split_ifs with hzero
    · rfl
    · omega
  -- cookie 0 is for the first position, as 2 would be
  obtain ⟨k₂, hk₂, hk₂le, hsub⟩ : ∃ k₂, 2 ≤ k₂ ∧ k ≤ k₂ ∧ k₂ ≤ d.size + 2 ∧ k₂ - 2 = k - 2 := by
    rcases hk with rfl | hk
    · exact ⟨2, le_rfl, by omega, by omega, rfl⟩
    · exact ⟨k, by omega, le_rfl, hle, rfl⟩
  obtain ⟨r, hrun, hmem, -, hnil, hcut⟩ := cut_of_call hk₂ hsub.1 hn
  rw [hsub.2] at hrun hnil
  have hlower : ∀ names cookies eof, Cut (fun k => restNames d (k - 2)) (d.size + 2) k₂ names cookies
      eof → Cut (rest4 d) (d.size + 2) k names cookies eof ∧ ∀ x ∈ cookies, 3 ≤ x := by
    intro names cookies eof h
    have hsame : restNames d (k₂ - 2) = rest4 d k := by rw [rest4, hsub.2]
    refine ⟨⟨?_, h.increasing, fun x hx => Nat.lt_of_le_of_lt hk₂le (h.above x hx)⟩, fun x hx => ?_⟩
    · rw [← hsame]
      exact h.cases
    · have := h.above x hx
      omega
  simp only [nfs4OpReaddir, hmod, if_neg hreserved, hcookie]
  rw [if_neg (by omega), hrun, Option.map_some]
  by_cases hempty : r.entries = []
  · rw [if_pos hempty]
    exact ⟨[], true, rfl, Cut.nil (hnil hempty).2, fun _ hx => nomatch hx⟩
  · rw [if_neg hempty]
    have hattrs' : ∀ e ∈ r.entries, (attrs e.2.name).isSome := fun e he => hattrs e (hmem e he)
    obtain ⟨entries, done, j, hfill, hfills, hj⟩ := fillLoop4_spec hattrs' maxcount r.endCookie 0
    rw [hfill]
    exact ⟨entries, _, rfl, hlower _ _ _ (hcut _ _ done j hfills hj)⟩

/-- The entries for `.` and `..` of a reply to a call with the cookie `k`, if there is room for them. -/
def dots (fileid : ℕ → ℕ) (dir parent k : ℕ) : List Entry :=
  (if k = 0 then [⟨fileid dir, dot, 1⟩] else []) ++
    if k ≤ 1 then [⟨fileid parent, dotDot, 2⟩] else []

lemma rest23_of_le {k : ℕ} (hk : 2 ≤ k) : rest23 d k = restNames d (k - 2) := by
  rw [rest23, if_neg (by omega), if_neg (by omega)]
  rfl

lemma rest23_of_dots {k : ℕ} (hk : k ≤ 2) :
    rest23 d k = (dots fileid dir parent k).map Entry.name ++ rest23 d 2 := by
  have hsub : k - 2 = 2 - 2 := by omega
  rw [rest23_of_le le_rfl, rest23, dots, hsub]
  split_ifs <;> rfl

/-- Cookies from 2 on. -/
lemma Cut.of_dirents {k bound : ℕ} {names : List (List UInt8)} {cookies : List ℕ} {eof : Bool}
    (hk : 2 ≤ k) (h : Cut (fun k => restNames d (k - 2)) bound k names cookies eof) :
    Cut (rest23 d) bound k names cookies eof := by
  refine ⟨?_, h.increasing, h.above⟩
  rcases h.cases with ⟨heof, hnames⟩ | ⟨heof, k', hlast, hle, hne, hnames⟩
  · exact .inl ⟨heof, by rw [hnames, rest23_of_le hk]⟩
  · have hlt := h.above k' (List.mem_of_getLast? hlast)
    refine .inr ⟨heof, k', hlast, hle, hne, ?_⟩
    rw [rest23_of_le hk, rest23_of_le (by omega)]
    exact hnames

/-- The cookies of the dot entries. -/
lemma dots_cookies {k : ℕ} :
    ((dots fileid dir parent k).map Entry.cookie).Pairwise (· < ·) ∧
      ∀ x ∈ (dots fileid dir parent k).map Entry.cookie, k < x ∧ x ≤ 2 := by
  have hcases : k = 0 ∨ k = 1 ∨ 2 ≤ k := by omega
  rcases hcases with rfl | rfl | hk
  · simp [dots]
  · simp [dots]
  · rw [dots, if_neg (by omega), if_neg (by omega)]
    exact ⟨List.Pairwise.nil, fun _ hx => nomatch hx⟩

/-- The two dot entries in front. -/
lemma Cut.with_dots {k bound : ℕ} {entries : List Entry} {eof : Bool} (hk : k ≤ 2)
    (h : Cut (rest23 d) bound 2 (entries.map Entry.name) (entries.map Entry.cookie) eof) :
    Cut (rest23 d) bound k ((dots fileid dir parent k ++ entries).map Entry.name)
      ((dots fileid dir parent k ++ entries).map Entry.cookie) eof := by
  obtain ⟨hincreasing, hbounds⟩ := @dots_cookies fileid dir parent k
  rw [List.map_append, List.map_append]
  refine ⟨?_, ?_, fun x hx => ?_⟩
  · rcases h.cases with ⟨heof, hnames⟩ | ⟨heof, k', hlast, hle, hne, hnames⟩
    · exact .inl ⟨heof, by rw [hnames, ← rest23_of_dots hk]⟩
    · refine .inr ⟨heof, k', ?_, hle, fun hnil => hne (List.append_eq_nil_iff.mp hnil).2, ?_⟩
      · rw [List.getLast?_append, hlast]
        rfl
      · rw [List.append_assoc, hnames, ← rest23_of_dots hk]
  · refine List.pairwise_append.mpr ⟨hincreasing, h.increasing, fun x hx y hy => ?_⟩
    exact Nat.lt_of_le_of_lt (hbounds x hx).2 (h.above y hy)
  · rcases List.mem_append.mp hx with hx | hx
    · exact (hbounds x hx).1
    · exact Nat.lt_of_le_of_lt hk (h.above x hx)

/-- Room for the dot entries alone. -/
lemma Cut.only_dots {k estimated : ℕ} (hpos : 0 < estimated) (hle : estimated ≤ 2 - k) :
    Cut (rest23 d) (d.size + 2) k (((dots fileid dir parent k).take estimated).map Entry.name)
      (((dots fileid dir parent k).take estimated).map Entry.cookie) false := by
  have hcases : k = 0 ∧ estimated = 1 ∨ k = 0 ∧ estimated = 2 ∨ k = 1 ∧ estimated = 1 := by omega
  have hsize : ∀ k', k' ≤ 2 → k' ≤ d.size + 2 := fun k' hk' => by omega
  rcases hcases with ⟨rfl, rfl⟩ | ⟨rfl, rfl⟩ | ⟨rfl, rfl⟩
  · exact ⟨.inr ⟨rfl, 1, rfl, hsize 1 (by decide), List.cons_ne_nil _ _, rfl⟩, by simp [dots], by simp [dots]⟩
  · exact ⟨.inr ⟨rfl, 2, rfl, hsize 2 (by decide), List.cons_ne_nil _ _, rfl⟩, by simp [dots], by simp [dots]⟩
  · exact ⟨.inr ⟨rfl, 2, rfl, hsize 2 (by decide), List.cons_ne_nil _ _, rfl⟩, by simp [dots], by simp [dots]⟩

/-- Which of the two dot entries are sent. -/
lemma dots_eq {k estimated : ℕ} (hpos : 0 < estimated) :
    (let dots : List Entry := if k = 0 then [⟨fileid dir, dot, 1⟩] else []
      if k ≤ 1 ∧ estimated > dots.length then dots ++ [⟨fileid parent, dotDot, 2⟩] else dots) =
      (dots fileid dir parent k).take estimated := by
  obtain ⟨n, rfl⟩ : ∃ n, estimated = n + 1 := ⟨estimated - 1, by omega⟩
  have hcases : k = 0 ∨ k = 1 ∨ 2 ≤ k := by omega
  rcases hcases with rfl | rfl | hk
  · cases n with
    | zero => simp [dots]
    | succ n => simp [dots]
  · simp [dots]
  · have hzero : ¬ k = 0 := by omega
    have hone : ¬ k ≤ 1 := by omega
    simp [dots, hzero, hone]

/-- One READDIR of NFSv2 or v3. -/
lemma nfsReaddir_spec {k count : ℕ} (hv : 0 < v.sizeofEntry) (hle : k ≤ d.size + 2)
    (hroom : Room v d k count) :
    ∃ entries eof, nfsReaddir v fileid dir parent d.chain k count = some (.ok (entries, eof)) ∧
      Cut (rest23 d) (d.size + 2) k (entries.map Entry.name) (entries.map Entry.cookie) eof := by
  have hsize : d.size + 2 < 2 ^ 32 := d.small
  have hmod : k % 2 ^ 32 = k := Nat.mod_eq_of_lt (by omega)
  have hest : 0 < count / v.sizeofEntry := Nat.div_pos hroom.1 hv
  obtain ⟨estimated, hestimated⟩ : ∃ estimated, estimated = count / v.sizeofEntry := ⟨_, rfl⟩
  rw [← hestimated] at hest
  have hdots := @dots_eq fileid dir parent k estimated hest
  simp only [nfsReaddir, hmod, ← hestimated, if_neg (Nat.ne_of_gt hest)]
  simp only at hdots
  simp only [hdots]
  -- the dirents of a call and the loop over them, from the position of the cookie or of cookie 2
  have hcall : ∀ k' asked, 2 ≤ k' → k' ≤ d.size + 2 → 0 < asked → k' - 2 = k - 2 →
      2 - k < estimated → ∃ r, cacheInodeReaddir d.chain (k' - 2) asked = some r ∧
        (r.entries = [] → restNames d (k' - 2) = []) ∧
        ∃ entries done, fillLoop v fileid count r.endCookie true v.sizeofResok r.entries =
            .ok (entries, done) ∧
          Cut (rest23 d) (d.size + 2) k' (entries.map Entry.name) (entries.map Entry.cookie)
            (r.eodMet && done) := by
    intro k' asked hk' hle' hasked hsame hdirents
    obtain ⟨r, hrun, -, hhead, hnil, hcut⟩ := cut_of_call hk' hle' hasked
    rw [hsame] at hhead
    have hfirst : ∀ e ∈ r.entries.head?, v.sizeofResok + v.needed e.2.name ≤ count := by
      rw [hhead]
      exact hroom.2 (hestimated ▸ hdirents)
    obtain ⟨entries, done, j, hfill, hfills, hj⟩ := @fillLoop_spec r.endCookie r.entries v fileid count
      v.sizeofResok true fun _ => hfirst
    exact ⟨r, hrun, fun hempty => (hnil hempty).2, entries, done, hfill,
      (hcut _ _ done j hfills (hj rfl)).of_dirents hk'⟩
  by_cases hk : k > 1
  · obtain ⟨r, hrun, hnil, entries, done, hfill, hcut⟩ := hcall k estimated hk hle hest rfl (by omega)
    have htake : (dots fileid dir parent k).take estimated = [] := by
      rw [dots, if_neg (by omega), if_neg (by omega)]
      exact List.take_nil
    rw [if_pos hk, if_pos hk, hrun, Option.map_some]
    by_cases hempty : r.entries = []
    · rw [if_pos ⟨hempty, Nat.ne_of_gt hest, hk⟩]
      exact ⟨[], true, rfl, Cut.nil (by rw [rest23_of_le hk]; exact hnil hempty)⟩
    · rw [if_neg fun h => hempty h.1, hfill, htake]
      exact ⟨entries, _, rfl, hcut⟩
  · rw [if_neg hk, if_neg hk]
    by_cases hdirents : estimated > 2 - k
    · obtain ⟨r, hrun, -, entries, done, hfill, hcut⟩ :=
        hcall 2 (estimated + k - 2) le_rfl (by omega) (by omega) (by omega) hdirents
      have htake : (dots fileid dir parent k).take estimated = dots fileid dir parent k := by
        refine List.take_of_length_le ?_
        rw [dots, if_pos (show k ≤ 1 by omega)]
        split_ifs <;> simp <;> omega
      rw [Nat.sub_self] at hrun
      rw [if_pos hdirents, hrun, Option.map_some, if_neg fun h => hk h.2.2, hfill, htake]
      exact ⟨_, _, rfl, hcut.with_dots (by omega)⟩
    · rw [if_neg hdirents, cacheInodeReaddir, if_pos rfl, Option.map_some, if_neg fun h => hk h.2.2]
      refine ⟨(dots fileid dir parent k).take estimated, false, ?_,
        Cut.only_dots hest (Nat.le_of_not_lt hdirents)⟩
      rw [fillLoop]
      simp [Except.map]

/-! ## Listing -/

/-- The replies list the names `l` once, and the cookies increase and are not below `low`. -/
structure Listing {α : Type*} (name : α → List UInt8) (cookie : α → ℕ) (low : ℕ)
    (ps : List (Page ℕ α)) (l : List (List UInt8)) : Prop where
  lists : Lists (ps.map (Page.map name)) l
  cookies : ((ps.flatMap Page.items).map cookie).Pairwise (· < ·)
  low_le : ∀ p ∈ ps, ∀ e ∈ p.items, low ≤ cookie e

/-- Calls that cut off the front of what is left list everything. A call with a cookie that is 0 or
not below `low` returns such cookies. -/
lemma listing_of_cuts {α ρ : Type*} {name : α → List UInt8} {cookie : α → ℕ}
    {result : ℕ → ρ → Option (Except Status (List α × Bool))} {Fits : ℕ → ρ → Prop}
    {rest : ℕ → List (List UInt8)} {bound low : ℕ}
    (hcall : ∀ k r, (k = 0 ∨ low ≤ k) → k ≤ bound → Fits k r → ∃ entries eof,
      result k r = some (.ok (entries, eof)) ∧
      Cut rest bound k (entries.map name) (entries.map cookie) eof ∧
      ∀ x ∈ entries.map cookie, low ≤ x)
    {rs : List ρ} (hrs : AllFit (fun k r => reply cookie k (result k r)) Fits 0 rs) :
    ∃ ps, run (fun k r => reply cookie k (result k r)) 0 rs = some ps ∧
      Listing name cookie low ps (rest 0) ∧ ((rest 0).length < rs.length → ∃ p ∈ ps, p.eof = true) := by
  have hlast : ∀ entries : List α, entries.getLast?.map cookie = (entries.map cookie).getLast? :=
    fun entries => List.getLast?_map.symm
  have hpages : Pages (fun k r => (reply cookie k (result k r)).map (Page.map name))
      (fun k => (k = 0 ∨ low ≤ k) ∧ k ≤ bound) Fits rest := by
    intro k r hk hr
    obtain ⟨entries, eof, hresult, hcut, hlow⟩ := hcall k r hk.1 hk.2 hr
    refine ⟨_, by simp only [hresult]; rfl, ?_⟩
    rcases hcut.cases with ⟨heof, hnames⟩ | ⟨heof, k', hk', hle, hne, hnames⟩
    · exact .inl ⟨heof, hnames⟩
    · -- the next page starts from the cookie of the last entry
      have hnext : (entries.getLast?.map cookie).getD k = k' := by
        rw [hlast, hk']
        rfl
      refine .inr ⟨heof, hne, ?_⟩
      simp only [Page.map, hnext]
      exact ⟨⟨.inr (hlow k' (List.mem_of_getLast? hk')), hle⟩, hnames⟩
  obtain ⟨ps', hrun', hlists, hend⟩ := hpages.run ⟨.inl rfl, Nat.zero_le bound⟩ (hrs.map name)
  rw [run_map, Option.map_eq_some_iff] at hrun'
  obtain ⟨ps, hrun, rfl⟩ := hrun'
  have hkeys : ∀ k r p, (k = 0 ∨ low ≤ k) ∧ k ≤ bound → Fits k r →
      reply cookie k (result k r) = some p →
      (p.items.map cookie).Pairwise (· < ·) ∧
        (∀ x ∈ p.items, k < cookie x ∧ cookie x ≤ p.next) ∧ k ≤ p.next ∧
        (p.eof = false → (p.next = 0 ∨ low ≤ p.next) ∧ p.next ≤ bound) := by
    intro k r p hk hr hp
    obtain ⟨entries, eof, hresult, hcut, hlow⟩ := hcall k r hk.1 hk.2 hr
    rw [hresult, reply, Option.bind_some, Option.some.injEq] at hp
    have hbound := hcut.le_getLast
    rw [← hp]
    simp only [hlast]
    refine ⟨hcut.increasing, fun x hx => ⟨hcut.above _ (List.mem_map_of_mem hx),
      hbound _ (List.mem_map_of_mem hx)⟩, hcut.le_next, fun heof => ?_⟩
    rcases hcut.cases with ⟨heof', -⟩ | ⟨-, k', hk', hle, -⟩
    · rw [heof] at heof'
      cases heof'
    · rw [hk', Option.getD_some]
      exact ⟨.inr (hlow k' (List.mem_of_getLast? hk')), hle⟩
  have hzero : ((0 : ℕ) = 0 ∨ low ≤ 0) ∧ 0 ≤ bound := ⟨.inl rfl, Nat.zero_le bound⟩
  refine ⟨ps, hrun, ⟨hlists, (increasing_run cookie hkeys hzero hrs hrun).1, fun p hp e he => ?_⟩,
    fun hlt => ?_⟩
  · obtain ⟨k, r, hk, hr, hreply⟩ := exists_call_of_run
      (fun k r p hk hr hp => (hkeys k r p hk hr hp).2.2.2) hzero hrs hrun p hp
    obtain ⟨entries, eof, hresult, -, hlow⟩ := hcall k r hk.1 hk.2 hr
    rw [hresult, reply, Option.bind_some, Option.some.injEq] at hreply
    rw [← hreply] at he
    exact hlow _ (List.mem_map_of_mem he)
  · obtain ⟨p, hp, heof⟩ := hend hlt
    obtain ⟨q, hq, rfl⟩ := List.mem_map.mp hp
    exact ⟨q, hq, heof⟩

lemma pos_sizeofEntry : ∀ v ∈ [v2, v3], 0 < v.sizeofEntry := by decide

/-- Every sequence of calls of each version that have room for the next entry lists the directory
once, with increasing cookies, which are not 1 or 2 in version 4. The end is reported after the last
entry, and is reached. -/
theorem lists_of_room (d : Directory) (fileid : ℕ → ℕ) (dir parent : ℕ)
    (attrs : List UInt8 → Option β) (hattrs : ∀ e ∈ d.rest 0, (attrs e.2.name).isSome)
    (maxcounts : List ℕ) (hmax : ∀ m ∈ maxcounts, sizeofEntry4 ≤ m)
    (v : Version) (hv : v ∈ [v2, v3]) (counts : List ℕ)
    (hroom : AllFit (fun k n => reply Entry.cookie k (nfsReaddir v fileid dir parent d.chain k n))
      (Room v d) 0 counts) :
    (∃ ps, run (fun k m => reply Entry4.cookie k (nfs4OpReaddir attrs d.chain k m)) 0 maxcounts =
        some ps ∧
      Listing Entry4.name Entry4.cookie 3 ps (restNames d 0) ∧
      ((restNames d 0).length < maxcounts.length → ∃ p ∈ ps, p.eof = true)) ∧
    ∃ ps, run (fun k n => reply Entry.cookie k (nfsReaddir v fileid dir parent d.chain k n)) 0
        counts = some ps ∧
      Listing Entry.name Entry.cookie 1 ps (dot :: dotDot :: restNames d 0) ∧
      ((restNames d 0).length + 2 < counts.length → ∃ p ∈ ps, p.eof = true) := by
  constructor
  · have hcall : ∀ k m, (k = 0 ∨ 3 ≤ k) → k ≤ d.size + 2 → sizeofEntry4 ≤ m → ∃ entries eof,
        nfs4OpReaddir attrs d.chain k m = some (.ok (entries, eof)) ∧
        Cut (rest4 d) (d.size + 2) k (entries.map Entry4.name) (entries.map Entry4.cookie) eof ∧
        ∀ x ∈ entries.map Entry4.cookie, 3 ≤ x :=
      fun k m hk hle hm => nfs4OpReaddir_spec hattrs hk hle hm
    exact listing_of_cuts hcall (AllFit.of_forall fun _ => hmax)
  · have hcall : ∀ k n, (k = 0 ∨ 1 ≤ k) → k ≤ d.size + 2 → Room v d k n → ∃ entries eof,
        nfsReaddir v fileid dir parent d.chain k n = some (.ok (entries, eof)) ∧
        Cut (rest23 d) (d.size + 2) k (entries.map Entry.name) (entries.map Entry.cookie) eof ∧
        ∀ x ∈ entries.map Entry.cookie, 1 ≤ x := by
      intro k n _ hle hn
      obtain ⟨entries, eof, hresult, hcut⟩ := nfsReaddir_spec (pos_sizeofEntry v hv) hle hn
      exact ⟨entries, eof, hresult, hcut, fun x hx => Nat.lt_of_le_of_lt (Nat.zero_le k) (hcut.above x hx)⟩
    exact listing_of_cuts hcall hroom

/-- The listing of a directory with one dirent: one entry at a time in version 4, and `.` and `..`
alone in the first reply of version 3. -/
theorem lists_of_room_oneDirent :
    (∃ ps, run (fun k m => reply Entry4.cookie k (nfs4OpReaddir (fun _ => some ()) oneDirent.chain k m))
        0 [64, 64] = some ps ∧
      Listing Entry4.name Entry4.cookie 3 ps (restNames oneDirent 0) ∧ ∃ p ∈ ps, p.eof = true) ∧
    ∃ ps, run (fun k n => reply Entry.cookie k (nfsReaddir v3 id 0 0 oneDirent.chain k n)) 0
        [64, 200, 156, 156] = some ps ∧
      Listing Entry.name Entry.cookie 1 ps (dot :: dotDot :: restNames oneDirent 0) ∧
      ∃ p ∈ ps, p.eof = true := by
  have hroom : ∀ k, ∀ n ∈ [200, 156, 156], Room v3 oneDirent k n := by
    intro k n hn
    have hle : 156 ≤ n := by
      simp only [List.mem_cons, List.not_mem_nil, or_false] at hn
      omega
    have hname : ∀ e ∈ oneDirent.rest 0, v3.sizeofResok + v3.needed e.2.name ≤ 156 := by decide
    refine ⟨Nat.le_trans (by decide) hle, fun _ e he => Nat.le_trans (hname e ?_) hle⟩
    have hmem := Directory.mem_rest.mp (List.mem_of_mem_head? he)
    exact Directory.mem_rest.mpr ⟨Nat.zero_le _, hmem.2⟩
  obtain ⟨⟨ps, hrun, hlisting, hend⟩, ⟨ps', hrun', hlisting', hend'⟩⟩ :=
    lists_of_room oneDirent id 0 0 (fun _ => some ()) (fun _ _ => rfl) [64, 64] (by decide) v3
      (by simp) [64, 200, 156, 156]
      ⟨⟨by decide, fun hlt => absurd hlt (by decide)⟩, fun _ _ _ => AllFit.of_forall hroom⟩
  exact ⟨⟨ps, hrun, hlisting, hend (by decide)⟩, ⟨ps', hrun', hlisting', hend' (by decide)⟩⟩

/-- A directory with one dirent of five letters. -/
def longDirent : Directory where
  chain := [⟨fun i => if i.val = 0 then ⟨true, 1, [97, 98, 99, 100, 101]⟩ else ⟨false, 0, []⟩, true, 0⟩]
  nonempty := by decide
  endOfDir i h := by
    obtain rfl : i = 0 := by simpa using h
    rfl
  dirContPos i h := by
    obtain rfl : i = 0 := by simpa using h
    rfl
  small := by decide

/-- The reply with the last entry does not say so if it was asked for no more, and `eof` comes in a
reply without entries. And a first call with room for `.` fails if the first dirent does not fit: the
loop looks for the first dirent, and not for the first entry of the reply. -/
theorem not_listed_as_asked :
    (¬ ∀ (d : Directory) (maxcounts : List ℕ) (ps : List (Page ℕ (Entry4 Unit))),
      (∀ m ∈ maxcounts, sizeofEntry4 ≤ m) →
      run (fun k m => reply Entry4.cookie k (nfs4OpReaddir (fun _ => some ()) d.chain k m)) 0
        maxcounts = some ps →
      ∀ p ∈ ps, p.eof = true → ∃ e ∈ p.items, some e.name = (restNames d 0).getLast?) ∧
    ¬ ∀ (d : Directory) (count : ℕ), v3.sizeofResok + v3.needed dot ≤ count →
      nfsReaddir v3 id 0 0 d.chain 0 count ≠ some (.error .tooSmall) := by
  refine ⟨fun hall => ?_, fun hall => hall longDirent 156 (by decide) rfl⟩
  have hrun : ∃ p q, run (fun k m => reply Entry4.cookie k (nfs4OpReaddir (fun _ => some ())
      oneDirent.chain k m)) 0 [64, 64] = some [p, q] ∧ q.eof = true ∧ q.items = [] :=
    ⟨_, _, rfl, rfl, rfl⟩
  obtain ⟨p, q, hrun, heof, hitems⟩ := hrun
  obtain ⟨e, he, -⟩ := hall oneDirent [64, 64] [p, q] (by decide) hrun q (by simp) heof
  rw [hitems] at he
  cases he

end Ganesha.Protocols.Readdir
