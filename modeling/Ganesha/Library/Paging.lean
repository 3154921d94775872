import Mathlib.Data.List.Basic

/-!
# Listing by pages

A list is read page by page: a call gets a cookie and a request, and returns some items, the cookie
to go on from and whether the end was reached.
-/

namespace Library.Paging

variable {κ ρ α : Type*}

/-- The reply to one call. -/
structure Page (κ α : Type*) where
  items : List α
  next : κ
  eof : Bool

/-- The replies to requests, each call made with the cookie of the reply before, until the end is
reported. -/
def run (call : κ → ρ → Option (Page κ α)) : κ → List ρ → Option (List (Page κ α))
  | _, [] => some []
  | k, r :: rs => (call k r).bind fun p =>
    if p.eof then some [p] else (run call p.next rs).map (p :: ·)

/-- The items seen through a function. -/
def Page.map {β : Type*} (f : α → β) (p : Page κ α) : Page κ β := ⟨p.items.map f, p.next, p.eof⟩

/-- Every request of a run fits the cookie that its call is made with. -/
def AllFit (call : κ → ρ → Option (Page κ α)) (Fits : κ → ρ → Prop) : κ → List ρ → Prop
  | _, [] => True
  | k, r :: rs => Fits k r ∧ ∀ p, call k r = some p → p.eof = false → AllFit call Fits p.next rs

/-- Every call with a good cookie cuts off the front of `rest`, what is left from that cookie: all of
it when the end is reported, else a part that is not empty. -/
def Pages (call : κ → ρ → Option (Page κ α)) (Good : κ → Prop) (Fits : κ → ρ → Prop)
    (rest : κ → List α) : Prop :=
  ∀ k r, Good k → Fits k r → ∃ p, call k r = some p ∧
    (p.eof = true ∧ p.items = rest k ∨
      p.eof = false ∧ p.items ≠ [] ∧ Good p.next ∧ p.items ++ rest p.next = rest k)

/-- The pages list the items `l`, each once and in order. The end is reported by the last page only,
and then nothing is left. -/
structure Lists (ps : List (Page κ α)) (l : List α) : Prop where
  listed : ps.flatMap Page.items <+: l
  complete : ∀ p ∈ ps, p.eof = true → ps.flatMap Page.items = l
  last : ∀ p ∈ ps.dropLast, p.eof = false

variable {call : κ → ρ → Option (Page κ α)} {Good : κ → Prop} {Fits : κ → ρ → Prop}
  {rest : κ → List α}

variable {k : κ} {rs : List ρ}

/-- Requests that fit every cookie fit those of a run. -/
lemma AllFit.of_forall (h : ∀ k, ∀ r ∈ rs, Fits k r) : AllFit call Fits k rs := by
  induction rs generalizing k with
  | nil => trivial
  | cons r rs ih =>
    exact ⟨h k r List.mem_cons_self, fun p _ _ => ih fun k r' hr' => h k r' (List.mem_cons_of_mem r hr')⟩

/-- Pages with their items mapped. -/
lemma AllFit.map {β : Type*} (f : α → β) (h : AllFit call Fits k rs) :
    AllFit (fun k r => (call k r).map (Page.map f)) Fits k rs := by
  induction rs generalizing k with
  | nil => trivial
  | cons r rs ih =>
    refine ⟨h.1, fun p hp heof => ?_⟩
    obtain ⟨q, hq, rfl⟩ := Option.map_eq_some_iff.mp hp
    exact ih (h.2 q hq heof)

/-- The replies to any requests list what is left from the first cookie, and one of them reports the
end if there are more requests than items. -/
theorem Pages.run (h : Pages call Good Fits rest) (hk : Good k) (hrs : AllFit call Fits k rs) :
    ∃ ps, run call k rs = some ps ∧ Lists ps (rest k) ∧
      ((rest k).length < rs.length → ∃ p ∈ ps, p.eof = true) := by
  induction rs generalizing k with
  | nil =>
    refine ⟨[], rfl, ⟨List.nil_prefix, fun p hp => ?_, fun p hp => ?_⟩, fun hlt => ?_⟩
    · cases hp
    · cases hp
    · exact absurd hlt (Nat.not_lt_zero _)
  | cons r rs ih =>
    -- the first page, and the rest from where it ended
    obtain ⟨p, hcall, hp⟩ := h k r hk hrs.1
    rcases hp with ⟨heof, hitems⟩ | ⟨heof, hne, hgood, hitems⟩
    · refine ⟨[p], ?_, ⟨?_, fun q hq _ => ?_, fun q hq => ?_⟩, fun _ => ⟨p, ?_, heof⟩⟩
      · rw [Paging.run, hcall, Option.bind_some, if_pos heof]
      · simp [hitems]
      · simp [hitems]
      · cases hq
      · exact List.mem_singleton_self p
    · obtain ⟨ps, hrun, hlists, hend⟩ := ih hgood (hrs.2 p hcall heof)
      refine ⟨p :: ps, ?_, ⟨?_, fun q hq hqeof => ?_, fun q hq => ?_⟩, fun hlt => ?_⟩
      · rw [Paging.run, hcall, Option.bind_some, heof, hrun]
        rfl
      · rw [List.flatMap_cons, ← hitems]
        exact (List.prefix_append_right_inj p.items).mpr hlists.listed
      · rcases List.mem_cons.mp hq with rfl | hq
        · rw [heof] at hqeof
          cases hqeof
        · rw [List.flatMap_cons, hlists.complete q hq hqeof, hitems]
      · cases ps with
        | nil => cases hq
        | cons p' ps =>
          rcases List.mem_cons.mp hq with rfl | hq
          · exact heof
          · exact hlists.last q hq
      · -- the first page is not empty, so fewer items are left than requests
        have hlength : (rest p.next).length < rs.length := by
          have hpos := List.length_pos_iff.mpr hne
          rw [← hitems, List.length_append, List.length_cons] at hlt
          omega
        obtain ⟨q, hq, hqeof⟩ := hend hlength
        exact ⟨q, List.mem_cons_of_mem p hq, hqeof⟩

/-- Pages with their items mapped. -/
lemma run_map {β : Type*} (f : α → β) (k : κ) (rs : List ρ) :
    run (fun k r => (call k r).map (Page.map f)) k rs = (run call k rs).map (List.map (Page.map f)) := by
  induction rs generalizing k with
  | nil => rfl
  | cons r rs ih =>
    simp only [Paging.run]
    cases call k r with
    | none => rfl
    | some p =>
      have heof : (p.map f).eof = p.eof := rfl
      have hnext : (p.map f).next = p.next := rfl
      simp only [Option.map_some, Option.bind_some, heof, hnext, ih, Option.map_map]
      split_ifs
      · rfl
      · cases run call p.next rs with
        | none => rfl
        | some ps => rfl

/-- A run starts with one page. -/
lemma run_cons_eq_some {r : ρ} {ps : List (Page κ α)} (hrun : run call k (r :: rs) = some ps) :
    ∃ p ps', call k r = some p ∧ ps = p :: ps' ∧
      (p.eof = true ∧ ps' = [] ∨ p.eof = false ∧ run call p.next rs = some ps') := by
  rw [run, Option.bind_eq_some_iff] at hrun
  obtain ⟨p, hp, hrun⟩ := hrun
  cases heof : p.eof with
  | true =>
    rw [heof, if_pos rfl, Option.some.injEq] at hrun
    exact ⟨p, [], hp, hrun.symm, Or.inl ⟨heof, rfl⟩⟩
  | false =>
    rw [heof, if_neg Bool.false_ne_true, Option.map_eq_some_iff] at hrun
    obtain ⟨ps', hrun', rfl⟩ := hrun
    exact ⟨p, ps', hp, rfl, Or.inr ⟨heof, hrun'⟩⟩

/-- Every page is the reply to a call with a good cookie. -/
theorem exists_call_of_run
    (hcall : ∀ k r p, Good k → Fits k r → call k r = some p → p.eof = false → Good p.next)
    {ps : List (Page κ α)} (hk : Good k) (hrs : AllFit call Fits k rs) (hrun : run call k rs = some ps) :
    ∀ p ∈ ps, ∃ k r, Good k ∧ Fits k r ∧ call k r = some p := by
  induction rs generalizing k ps with
  | nil =>
    rw [run, Option.some.injEq] at hrun
    rw [← hrun]
    exact fun p hp => nomatch hp
  | cons r rs ih =>
    obtain ⟨p, ps', hp, rfl, hrest⟩ := run_cons_eq_some hrun
    intro q hq
    rcases List.mem_cons.mp hq with rfl | hq
    · exact ⟨k, r, hk, hrs.1, hp⟩
    · rcases hrest with ⟨-, rfl⟩ | ⟨heof, hrun'⟩
      · cases hq
      · exact ih (hcall k r p hk hrs.1 hp heof) (hrs.2 p hp heof) hrun' q hq

/-- If each call returns items whose keys increase, above its cookie and up to the next one, then the
keys of all items increase. -/
theorem increasing_run {call : ℕ → ρ → Option (Page ℕ α)} {Good : ℕ → Prop} {Fits : ℕ → ρ → Prop}
    (key : α → ℕ)
    (hcall : ∀ k r p, Good k → Fits k r → call k r = some p →
      (p.items.map key).Pairwise (· < ·) ∧ (∀ x ∈ p.items, k < key x ∧ key x ≤ p.next) ∧
      k ≤ p.next ∧ (p.eof = false → Good p.next))
    {k : ℕ} {ps : List (Page ℕ α)} (hk : Good k) (hrs : AllFit call Fits k rs)
    (hrun : run call k rs = some ps) :
    ((ps.flatMap Page.items).map key).Pairwise (· < ·) ∧
      ∀ x ∈ ps.flatMap Page.items, k < key x := by
  induction rs generalizing k ps with
  | nil =>
    rw [run, Option.some.injEq] at hrun
    rw [← hrun]
    exact ⟨List.Pairwise.nil, fun x hx => nomatch hx⟩
  | cons r rs ih =>
    obtain ⟨p, ps', hp, rfl, hrest⟩ := run_cons_eq_some hrun
    obtain ⟨hkeys, hbounds, hle, hgood⟩ := hcall k r p hk hrs.1 hp
    rcases hrest with ⟨-, rfl⟩ | ⟨heof, hrun'⟩
    · rw [List.flatMap_singleton]
      exact ⟨hkeys, fun x hx => (hbounds x hx).1⟩
    · obtain ⟨hkeys', hbounds'⟩ :=
        ih (hgood heof) (hrs.2 p hp heof) hrun'
      rw [List.flatMap_cons, List.map_append]
      refine ⟨List.pairwise_append.mpr ⟨hkeys, hkeys', fun x hx y hy => ?_⟩, fun x hx => ?_⟩
      · obtain ⟨a, ha, rfl⟩ := List.mem_map.mp hx
        obtain ⟨b, hb, rfl⟩ := List.mem_map.mp hy
        exact Nat.lt_of_le_of_lt (hbounds a ha).2 (hbounds' b hb)
      · rcases List.mem_append.mp hx with hx | hx
        · exact (hbounds x hx).1
        · exact Nat.lt_of_le_of_lt hle (hbounds' x hx)

end Library.Paging
