import Ganesha.Exports.Common
import Ganesha.Library.Search
import Mathlib.Data.Set.Basic

/-!
# Who is matched by a client entry

What an entry means, and when the searches of `exports.c` agree with it.
-/

namespace Ganesha.Exports
open Library.Search

variable {env : Env} {e : ClientEntry} {l : List ClientEntry} {option addr : UInt32} {ipstring : Name}

/-! ## Networks -/

/-- The addresses of a network. -/
def network (netaddr netmask : UInt32) : Set Ipv4 := {a | a.number &&& netmask = netaddr}

instance (a : Ipv4) (netaddr netmask : UInt32) : Decidable (a ∈ network netaddr netmask) :=
  inferInstanceAs (Decidable (_ = _))

/-! ## Meaning of the entries -/

/-- The IPv4 addresses that an entry is for; `ipstring` is the address as text. -/
def ClientEntry.Matches (env : Env) (a : Ipv4) (ipstring : Name) (e : ClientEntry) : Prop :=
  match e.client with
  | .hostif clientaddr => clientaddr = a.sAddr
  | .network netaddr netmask => a ∈ network netaddr netmask
  | .netgroup netgroupname => ∃ hostname ∈ env.hostname a.sAddr, env.innetgr netgroupname hostname
  | .wildcard wildcard =>
    env.fnmatch wildcard (env.wildcardName a.sAddr) ∨ env.fnmatch wildcard ipstring
  | .gssPrincipal _ | .hostifV6 _ | .unknown => False

instance {a : Ipv4} : DecidablePred (ClientEntry.Matches env a ipstring)
  | ⟨.hostif _, _⟩ | ⟨.network _ _, _⟩ => inferInstanceAs (Decidable (_ = _))
  | ⟨.netgroup _, _⟩ => inferInstanceAs (Decidable (∃ hostname ∈ env.hostname a.sAddr, _))
  | ⟨.wildcard _, _⟩ => inferInstanceAs (Decidable (_ ∨ _))
  | ⟨.gssPrincipal _, _⟩ | ⟨.hostifV6 _, _⟩ | ⟨.unknown, _⟩ => isFalse id

/-- The IPv6 addresses that an entry is for. -/
def ClientEntry.MatchesV6 (a : Ipv6) (e : ClientEntry) : Prop := e.client = .hostifV6 a

/-- What `export_client_match` tests of one entry. -/
def ClientEntry.Caught (env : Env) (addr : UInt32) (ipstring : Name) (e : ClientEntry) : Prop :=
  match e.client with
  | .hostif clientaddr => clientaddr = addr
  | .network netaddr netmask => netmask &&& addr = netaddr
  | .netgroup netgroupname => ∃ hostname ∈ env.hostname addr, env.innetgr netgroupname hostname
  | .wildcard wildcard => env.fnmatch wildcard (env.wildcardName addr) ∨ env.fnmatch wildcard ipstring
  | .gssPrincipal _ | .hostifV6 _ | .unknown => False

instance : DecidablePred (ClientEntry.Caught env addr ipstring)
  | ⟨.hostif _, _⟩ | ⟨.network _ _, _⟩ => inferInstanceAs (Decidable (_ = _))
  | ⟨.netgroup _, _⟩ => inferInstanceAs (Decidable (∃ hostname ∈ env.hostname addr, _))
  | ⟨.wildcard _, _⟩ => inferInstanceAs (Decidable (_ ∨ _))
  | ⟨.gssPrincipal _, _⟩ | ⟨.hostifV6 _, _⟩ | ⟨.unknown, _⟩ => isFalse id

/-- The entries that end the search for an IPv4 address. -/
def ClientEntry.Stops (e : ClientEntry) : Prop :=
  match e.client with
  | .gssPrincipal _ | .hostifV6 _ | .unknown => True
  | .hostif _ | .network _ _ | .netgroup _ | .wildcard _ => False

instance : DecidablePred ClientEntry.Stops
  | ⟨.gssPrincipal _, _⟩ | ⟨.hostifV6 _, _⟩ | ⟨.unknown, _⟩ => isTrue trivial
  | ⟨.hostif _, _⟩ | ⟨.network _ _, _⟩ | ⟨.netgroup _, _⟩ | ⟨.wildcard _, _⟩ => isFalse id

/-- The entries that end the search for an IPv6 address. -/
def ClientEntry.StopsV6 (a : Ipv6) (e : ClientEntry) : Prop :=
  match e.client with
  | .hostifV6 clientaddr6 => clientaddr6 ≠ a
  | .unknown => True
  | .hostif _ | .network _ _ | .netgroup _ | .wildcard _ | .gssPrincipal _ => False

instance (a : Ipv6) : DecidablePred (ClientEntry.StopsV6 a)
  | ⟨.hostifV6 _, _⟩ => inferInstanceAs (Decidable (_ ≠ _))
  | ⟨.unknown, _⟩ => isTrue trivial
  | ⟨.hostif _, _⟩ | ⟨.network _ _, _⟩ | ⟨.netgroup _, _⟩ | ⟨.wildcard _, _⟩
  | ⟨.gssPrincipal _, _⟩ => isFalse id

instance (a : Ipv6) : Decidable (e.MatchesV6 a) := inferInstanceAs (Decidable (_ = _))

/-! ## The searches -/

/-- What `export_client_match` makes of an entry. -/
def verdict (env : Env) (addr : UInt32) (ipstring : Name) (option : UInt32) (e : ClientEntry) : Verdict :=
  if ¬ e.Carries option then .pass
  else if e.Caught env addr ipstring then .found
  else if e.Stops then .stop
  else .pass

/-- What `export_client_matchv6` makes of an entry. -/
def verdictV6 (a : Ipv6) (option : UInt32) (e : ClientEntry) : Verdict :=
  if ¬ e.Carries option then .pass
  else if e.MatchesV6 a then .found
  else if e.StopsV6 a then .stop
  else .pass

/-- One entry of the list. -/
lemma exportClientMatch_cons {es : List ClientEntry} :
    exportClientMatch env addr ipstring option (e :: es) =
      match verdict env addr ipstring option e with
      | .found => some e
      | .pass => exportClientMatch env addr ipstring option es
      | .stop => none := by
  rw [exportClientMatch]
  unfold verdict ClientEntry.Carries ClientEntry.Caught ClientEntry.Stops
  by_cases hcarries : e.options &&& option = option
  swap
  · simp [hcarries]
  obtain ⟨client, options⟩ := e
  cases client with
  | hostif clientaddr => by_cases h : clientaddr = addr <;> simp_all
  | network netaddr netmask => by_cases h : netmask &&& addr = netaddr <;> simp_all
  | netgroup name =>
    rcases Option.eq_none_or_eq_some (env.hostname addr) with hname | ⟨hostname, hname⟩
    · simp_all
    · by_cases h : env.innetgr name hostname <;> simp_all
  | wildcard pattern =>
    by_cases h : env.fnmatch pattern (env.wildcardName addr) <;>
      by_cases h' : env.fnmatch pattern ipstring <;> simp_all
  | gssPrincipal _ => simp_all
  | hostifV6 _ => simp_all
  | unknown => simp_all

lemma exportClientMatch_eq_search :
    exportClientMatch env addr ipstring option l = search (verdict env addr ipstring option) l := by
  induction l with
  | nil => rfl
  | cons e es ih =>
    rw [exportClientMatch_cons, ih]
    rfl

/-- One entry of the list, IPv6. -/
lemma exportClientMatchv6_cons {a : Ipv6} {es : List ClientEntry} :
    exportClientMatchv6 a option (e :: es) =
      match verdictV6 a option e with
      | .found => some e
      | .pass => exportClientMatchv6 a option es
      | .stop => none := by
  rw [exportClientMatchv6]
  unfold verdictV6 ClientEntry.Carries ClientEntry.MatchesV6 ClientEntry.StopsV6
  by_cases hcarries : e.options &&& option = option
  swap
  · simp [hcarries]
  obtain ⟨client, options⟩ := e
  cases client with
  | hostifV6 clientaddr6 => by_cases h : clientaddr6 = a <;> simp_all
  | _ => simp_all

lemma exportClientMatchv6_eq_search {a : Ipv6} :
    exportClientMatchv6 a option l = search (verdictV6 a option) l := by
  induction l with
  | nil => rfl
  | cons e es ih =>
    rw [exportClientMatchv6_cons, ih]
    rfl

/-! ## Decisions -/

/-- A search is right about every list of entries from `pool`: it finds one exactly if some entry with
the option matches, whatever the order of the entries is, and whatever others are there. -/
structure Decided (answer : List ClientEntry → Bool) (option : UInt32) (matching : ClientEntry → Prop)
    (pool : List ClientEntry) : Prop where
  iff_matching : ∀ l, (∀ e ∈ l, e ∈ pool) → (answer l ↔ ∃ e ∈ l, e.Carries option ∧ matching e)
  perm : ∀ l l', (∀ e ∈ l, e ∈ pool) → l.Perm l' → answer l' = answer l
  insert : ∀ l l' e, (∀ e' ∈ l ++ e :: l', e' ∈ pool) → ¬ (e.Carries option ∧ matching e) →
    answer (l ++ e :: l') = answer (l ++ l')

/-- A search that is decided by the matching entries. -/
lemma decided_of_iff {answer : List ClientEntry → Bool} {matching : ClientEntry → Prop}
    {pool : List ClientEntry}
    (h : ∀ l, (∀ e ∈ l, e ∈ pool) → (answer l ↔ ∃ e ∈ l, e.Carries option ∧ matching e)) :
    Decided answer option matching pool where
  iff_matching := h
  perm := by
    intro l l' hl hperm
    rw [Bool.eq_iff_iff, h l hl, h l' fun e he => hl e (hperm.mem_iff.mpr he)]
    constructor
    · rintro ⟨e, he, hmatch⟩
      exact ⟨e, hperm.mem_iff.mpr he, hmatch⟩
    · rintro ⟨e, he, hmatch⟩
      exact ⟨e, hperm.mem_iff.mp he, hmatch⟩
  insert := by
    intro l l' e hl hnot
    have hsub : ∀ e' ∈ l ++ l', e' ∈ l ++ e :: l' := by
      intro e' he'
      rcases List.mem_append.mp he' with he' | he'
      · exact List.mem_append_left _ he'
      · exact List.mem_append_right _ (List.mem_cons_of_mem _ he')
    rw [Bool.eq_iff_iff, h _ hl, h _ fun e' he' => hl e' (hsub e' he')]
    constructor
    · rintro ⟨e', he', hmatch⟩
      refine ⟨e', ?_, hmatch⟩
      rcases List.mem_append.mp he' with he' | he'
      · exact List.mem_append_left _ he'
      · rcases List.mem_cons.mp he' with rfl | he'
        · exact absurd hmatch hnot
        · exact List.mem_append_right _ he'
    · rintro ⟨e', he', hmatch⟩
      exact ⟨e', hsub e' he', hmatch⟩

/-- A network entry with the option holds the address of the caller exactly if it holds the address
with its bytes in the other order. And if an entry with the option ends the search, then no entry with
the option matches. -/
def Orderly (env : Env) (a : Ipv4) (ipstring : Name) (option : UInt32) (pool : List ClientEntry) : Prop :=
  (∀ e ∈ pool, e.Carries option → ∀ netaddr netmask, e.client = .network netaddr netmask →
    (netmask &&& a.sAddr = netaddr ↔ a ∈ network netaddr netmask)) ∧
  ((∃ e ∈ pool, e.Carries option ∧ e.Stops) →
    ∀ e ∈ pool, e.Carries option → ¬ e.Matches env a ipstring)

/-- If an entry with the option is for another IPv6 host, or of no known type, then no entry with the
option matches. -/
def OrderlyV6 (a : Ipv6) (option : UInt32) (pool : List ClientEntry) : Prop :=
  (∃ e ∈ pool, e.Carries option ∧ e.StopsV6 a) → ∀ e ∈ pool, e.Carries option → ¬ e.MatchesV6 a

lemma not_stops_of_caught (h : e.Caught env addr ipstring) : ¬ e.Stops := by
  obtain ⟨client, options⟩ := e
  cases client <;> first | exact id | exact absurd h id

lemma verdict_eq_found :
    verdict env addr ipstring option e = .found ↔ e.Carries option ∧ e.Caught env addr ipstring := by
  unfold verdict
  split_ifs <;> simp_all

/-- When an entry stops the search. -/
lemma verdict_eq_stop :
    verdict env addr ipstring option e = .stop ↔ e.Carries option ∧ e.Stops := by
  unfold verdict
  split_ifs with hcarries hcaught hstops
  · exact iff_of_false (by simp) fun h => not_stops_of_caught hcaught h.2
  · exact iff_of_true rfl ⟨hcarries, hstops⟩
  · exact iff_of_false (by simp) fun h => hstops h.2
  · exact iff_of_false (by simp) fun h => hcarries h.1

lemma verdictV6_eq_found {a : Ipv6} :
    verdictV6 a option e = .found ↔ e.Carries option ∧ e.MatchesV6 a := by
  unfold verdictV6
  split_ifs <;> simp_all

/-- When an entry stops the search. -/
lemma verdictV6_eq_stop {a : Ipv6} :
    verdictV6 a option e = .stop ↔ e.Carries option ∧ e.StopsV6 a := by
  have hexcl : e.MatchesV6 a → ¬ e.StopsV6 a := by
    intro h
    unfold ClientEntry.StopsV6
    rw [show e.client = .hostifV6 a from h]
    simp
  unfold verdictV6
  split_ifs with hcarries hmatch hstops
  · exact iff_of_false (by simp) fun h => hexcl hmatch h.2
  · exact iff_of_true rfl ⟨hcarries, hstops⟩
  · exact iff_of_false (by simp) fun h => hstops h.2
  · exact iff_of_false (by simp) fun h => hcarries h.1

/-- Where the test of the source is the right one. -/
lemma caught_iff_matches {a : Ipv4} : (e.Caught env a.sAddr ipstring ↔ e.Matches env a ipstring) ↔
    ∀ netaddr netmask, e.client = .network netaddr netmask →
      (netmask &&& a.sAddr = netaddr ↔ a ∈ network netaddr netmask) := by
  obtain ⟨client, options⟩ := e
  cases client with
  | network netaddr netmask =>
    refine ⟨fun h netaddr' netmask' heq => ?_, fun h => h netaddr netmask rfl⟩
    obtain ⟨rfl, rfl⟩ := Client.network.inj heq
    exact h
  | _ => exact iff_of_true Iff.rfl fun _ _ h => absurd h (by simp)

/-- The searches for an IPv4 and for an IPv6 address are right about the entries of `pool` in any
selection and order exactly under these conditions. -/
theorem decided_iff (env : Env) (pool : List ClientEntry) (option : UInt32) (a : Ipv4) (ipstring : Name)
    (a6 : Ipv6) :
    (Decided (fun l => (exportClientMatch env a.sAddr ipstring option l).isSome) option
      (ClientEntry.Matches env a ipstring) pool ↔ Orderly env a ipstring option pool) ∧
    (Decided (fun l => (exportClientMatchv6 a6 option l).isSome) option
      (ClientEntry.MatchesV6 a6) pool ↔ OrderlyV6 a6 option pool) := by
  constructor
  · have hdecides : Decides (verdict env a.sAddr ipstring option)
        (fun e => e.Carries option ∧ e.Matches env a ipstring) pool ↔
          Orderly env a ipstring option pool := by
      rw [decides_iff]
      simp only [verdict_eq_found, verdict_eq_stop, not_and]
      refine and_congr (forall₂_congr fun e _ => ?_) Iff.rfl
      rw [← caught_iff_matches]
      tauto
    rw [← hdecides]
    refine ⟨fun h l hl => ?_, fun h => decided_of_iff fun l hl => ?_⟩
    · rw [← exportClientMatch_eq_search]
      exact h.iff_matching l hl
    · rw [exportClientMatch_eq_search]
      exact h l hl
  · have hdecides : Decides (verdictV6 a6 option) (fun e => e.Carries option ∧ e.MatchesV6 a6) pool ↔
        OrderlyV6 a6 option pool := by
      rw [decides_iff]
      simp only [verdictV6_eq_found, verdictV6_eq_stop, not_and]
      exact and_iff_right fun _ _ => trivial
    rw [← hdecides]
    refine ⟨fun h l hl => ?_, fun h => decided_of_iff fun l hl => ?_⟩
    · rw [← exportClientMatchv6_eq_search]
      exact h.iff_matching l hl
    · rw [exportClientMatchv6_eq_search]
      exact h l hl

/-- Nobody has a name, and no pattern matches. -/
def sampleEnv : Env where
  hostname _ := none
  garbage := []
  innetgr _ _ := false
  fnmatch _ _ := false
  ntop _ := []
  ntop6 _ := []

/-- The client 10.1.2.3 is not found behind an entry for an IPv6 host, and not found in the network
10.0.0.0, in which 1.2.3.10 is found; an IPv6 host is not found behind another one. -/
theorem not_decided_mixed :
    ¬ Decided (fun l => (exportClientMatch sampleEnv (Ipv4.sAddr ⟨10, 1, 2, 3⟩) [] exportOptionRoot
        l).isSome) exportOptionRoot (ClientEntry.Matches sampleEnv ⟨10, 1, 2, 3⟩ [])
      [⟨.hostifV6 (Vector.replicate 16 0), exportOptionRoot⟩, ⟨.hostif 0x0302010a, exportOptionRoot⟩] ∧
    ¬ Decided (fun l => (exportClientMatch sampleEnv (Ipv4.sAddr ⟨10, 1, 2, 3⟩) [] exportOptionRoot
        l).isSome) exportOptionRoot (ClientEntry.Matches sampleEnv ⟨10, 1, 2, 3⟩ [])
      [⟨.network 0x0a000000 0xff000000, exportOptionRoot⟩] ∧
    ¬ Decided (fun l => (exportClientMatch sampleEnv (Ipv4.sAddr ⟨1, 2, 3, 10⟩) [] exportOptionRoot
        l).isSome) exportOptionRoot (ClientEntry.Matches sampleEnv ⟨1, 2, 3, 10⟩ [])
      [⟨.network 0x0a000000 0xff000000, exportOptionRoot⟩] ∧
    ¬ Decided (fun l => (exportClientMatchv6 (Vector.replicate 16 1) exportOptionRoot l).isSome)
      exportOptionRoot (ClientEntry.MatchesV6 (Vector.replicate 16 1))
      [⟨.hostifV6 (Vector.replicate 16 0), exportOptionRoot⟩,
        ⟨.hostifV6 (Vector.replicate 16 1), exportOptionRoot⟩] := by
  refine ⟨fun h => ?_, fun h => ?_, fun h => ?_, fun h => ?_⟩
  · have hfound := (h.iff_matching _ fun _ he => he).mpr
      ⟨_, List.mem_cons_of_mem _ List.mem_cons_self, by decide +kernel, by decide +kernel⟩
    exact absurd hfound (by decide +kernel)
  · have hfound := (h.iff_matching _ fun _ he => he).mpr
      ⟨_, List.mem_cons_self, by decide +kernel, by decide +kernel⟩
    exact absurd hfound (by decide +kernel)
  · obtain ⟨e, he, hcarries, hmatch⟩ := (h.iff_matching _ fun _ he => he).mp (by decide +kernel)
    rw [List.mem_singleton.mp he] at hmatch
    exact absurd hmatch (by decide +kernel)
  · have hfound := (h.iff_matching _ fun _ he => he).mpr
      ⟨_, List.mem_cons_of_mem _ List.mem_cons_self, by decide +kernel, by decide +kernel⟩
    exact absurd hfound (by decide +kernel)

end Ganesha.Exports
