import Ganesha.Exports.Match
import Mathlib.Data.Nat.Bitwise

/-!
# Root squashing

The context that is built for a request with AUTH_UNIX, from the entry that was found for the client.
-/

namespace Ganesha.Exports
open Library.Search

variable {env : Env} {e client : ClientEntry} {l : List ClientEntry} {option mntProg : UInt32}
  {caller : Caller} {req : Request}

/-! ## Entries and callers -/

/-- The entry is for this client; an IPv4 address can come in an IPv6 one. -/
def ClientEntry.MatchesCaller (env : Env) (caller : Caller) (e : ClientEntry) : Prop :=
  match caller with
  | .inet a => e.Matches env a (env.ntop a)
  | .inet6 a6 => (∃ a ∈ a6.mapped, e.Matches env a (env.ntop6 a6)) ∨ e.MatchesV6 a6

/-- Some entry that allows to be root is for this client. -/
def RootMatched (env : Env) (clients : List ClientEntry) (caller : Caller) : Prop :=
  ∃ e ∈ clients, e.Carries exportOptionRoot ∧ e.MatchesCaller env caller

/-- The searches with an option come upon the entry first: the one for an IPv4 address or the one for
an IPv6 address. -/
def ComesUpon (env : Env) (caller : Caller) (clients : List ClientEntry) (option : UInt32)
    (e : ClientEntry) : Prop :=
  match caller with
  | .inet a => First (verdict env a.sAddr (env.ntop a) option) clients e
  | .inet6 a6 =>
    (∃ a ∈ a6.mapped, First (verdict env a.sAddr (env.ntop6 a6) option) clients e) ∨
      First (verdictV6 a6 option) clients e

/-- The client entries are looked at for this request. -/
def Request.Checked (req : Request) (mntProg : UInt32) : Prop := req.rqProc ≠ 0 ∧ req.rqProg ≠ mntProg

instance : Decidable (req.Checked mntProg) := inferInstanceAs (Decidable (_ ∧ _))

/-- The bit of the root option. -/
lemma and_root_eq_zero_iff : e.options &&& exportOptionRoot = 0 ↔ ¬ e.Carries exportOptionRoot := by
  have hbit : (e.options &&& exportOptionRoot).toNat = (e.options.toNat.testBit 2).toNat * 4 := by
    rw [UInt32.toNat_and]
    exact Nat.and_two_pow _ 2
  unfold ClientEntry.Carries
  rw [← UInt32.toNat_inj, ← UInt32.toNat_inj, hbit]
  cases e.options.toNat.testBit 2 <;> decide

/-! ## Access -/

/-- What is answered is what the search comes upon. -/
lemma exportCheckAccess_comesUpon (hreq : req.Checked mntProg)
    (h : exportCheckAccess env caller req l mntProg = some client) :
    ComesUpon env caller l exportOptionRoot client ∨ ComesUpon env caller l exportOptionAccess client := by
  unfold exportCheckAccess at h
  rw [if_neg hreq.1, if_neg hreq.2] at h
  unfold ComesUpon
  cases caller with
  | inet a =>
    simp only [exportClientMatch_eq_search] at h
    rcases Option.or_eq_some_iff.mp h with h | ⟨-, h⟩
    · exact Or.inl (search_eq_some_iff.mp h)
    · exact Or.inr (search_eq_some_iff.mp h)
  | inet6 a6 =>
    simp only [exportClientMatch_eq_search, exportClientMatchv6_eq_search] at h
    rcases Option.or_eq_some_iff.mp h with h | ⟨-, h⟩
    · cases hmapped : a6.mapped with
      | none => simp [hmapped] at h
      | some a =>
        simp only [hmapped] at h
        rcases Option.or_eq_some_iff.mp h with h | ⟨-, h⟩
        · exact Or.inl (Or.inl ⟨a, hmapped, search_eq_some_iff.mp h⟩)
        · exact Or.inr (Or.inl ⟨a, hmapped, search_eq_some_iff.mp h⟩)
    · rcases Option.or_eq_some_iff.mp h with h | ⟨-, h⟩
      · exact Or.inl (Or.inr (search_eq_some_iff.mp h))
      · exact Or.inr (Or.inr (search_eq_some_iff.mp h))

/-- The entry of the two searches for an IPv4 address is one for root, if either of them comes upon
such a one. -/
lemma or_search {addr : UInt32} {ipstring : Name}
    (h : First (verdict env addr ipstring exportOptionRoot) l e ∨
      First (verdict env addr ipstring exportOptionAccess) l e) :
    ∃ client, (search (verdict env addr ipstring exportOptionRoot) l).or
        (search (verdict env addr ipstring exportOptionAccess) l) = some client ∧
      (e.Carries exportOptionRoot → client.Carries exportOptionRoot) := by
  cases hroot : search (verdict env addr ipstring exportOptionRoot) l with
  | some client =>
    exact ⟨client, rfl, fun _ => (verdict_eq_found.mp (search_eq_some hroot).2).1⟩
  | none =>
    rcases h with h | h
    · rw [search_eq_some_iff.mpr h] at hroot
      cases hroot
    · exact ⟨e, search_eq_some_iff.mpr h, id⟩

/-- What the search comes upon is answered. -/
lemma exportCheckAccess_of_comesUpon (hreq : req.Checked mntProg) (hroot : ¬ RootMatched env l caller)
    (h : ComesUpon env caller l exportOptionRoot e ∨ ComesUpon env caller l exportOptionAccess e) :
    ∃ client, exportCheckAccess env caller req l mntProg = some client ∧
      (e.Carries exportOptionRoot → client.Carries exportOptionRoot) := by
  unfold exportCheckAccess
  rw [if_neg hreq.1, if_neg hreq.2]
  unfold ComesUpon at h
  cases caller with
  | inet a =>
    simp only [exportClientMatch_eq_search]
    exact or_search h
  | inet6 a6 =>
    simp only [exportClientMatch_eq_search, exportClientMatchv6_eq_search]
    have hcases : (∃ a ∈ a6.mapped, First (verdict env a.sAddr (env.ntop6 a6) exportOptionRoot) l e ∨
        First (verdict env a.sAddr (env.ntop6 a6) exportOptionAccess) l e) ∨
        First (verdictV6 a6 exportOptionRoot) l e ∨ First (verdictV6 a6 exportOptionAccess) l e := by
      -- by the family of the address instead of by the option
      rcases h with (⟨a, ha, h⟩ | h) | (⟨a, ha, h⟩ | h)
      · exact Or.inl ⟨a, ha, Or.inl h⟩
      · exact Or.inr (Or.inl h)
      · exact Or.inl ⟨a, ha, Or.inr h⟩
      · exact Or.inr (Or.inr h)
    rcases hcases with ⟨a, ha, h⟩ | h
    · obtain ⟨client, hclient, hcarries⟩ := or_search h
      have hmapped : a6.mapped = some a := ha
      simp only [hmapped, hclient]
      exact ⟨client, rfl, hcarries⟩
    · -- an entry for this IPv6 address is none for root
      have hfound : e ∈ l ∧ e.MatchesV6 a6 ∧ ((search (verdictV6 a6 exportOptionRoot) l).or
          (search (verdictV6 a6 exportOptionAccess) l)).isSome := by
        rcases h with h | h
        · obtain ⟨hmem, hv⟩ := search_eq_some (search_eq_some_iff.mpr h)
          exact ⟨hmem, (verdictV6_eq_found.mp hv).2, by rw [search_eq_some_iff.mpr h]; rfl⟩
        · obtain ⟨hmem, hv⟩ := search_eq_some (search_eq_some_iff.mpr h)
          refine ⟨hmem, (verdictV6_eq_found.mp hv).2, ?_⟩
          rw [search_eq_some_iff.mpr h]
          cases search (verdictV6 a6 exportOptionRoot) l <;> rfl
      obtain ⟨hmem, hmatch, hsome⟩ := hfound
      have hnot : ¬ e.Carries exportOptionRoot := fun hcarries =>
        hroot ⟨e, hmem, hcarries, Or.inr hmatch⟩
      obtain ⟨client, hclient⟩ := Option.isSome_iff_exists.mp hsome
      rw [hclient, Option.or_some]
      exact ⟨_, rfl, fun hcarries => absurd hcarries hnot⟩

/-! ## Contexts -/

/-- The context of a request with AUTH_UNIX: the user is root only if the caller says so and may be;
else root becomes the anonymous user, without the group 0; and all others stay who they are. -/
structure Squashed (env : Env) (ex : Export) (caller : Caller) (parms : AuthUnix) (ctx : Context) :
    Prop where
  root_only : ctx.user = 0 → parms.uid = 0 ∧ RootMatched env ex.clients caller
  anonymous : parms.uid = 0 → ¬ RootMatched env ex.clients caller →
    ctx.user = ex.anonymousUid ∧ ctx.group ≠ 0 ∧ 0 ∉ ctx.altGroups
  keeps : parms.uid ≠ 0 → ctx = ⟨parms.uid, parms.gid, parms.gids⟩

/-- Every context that is built for the request is like that. -/
def Squashes (env : Env) (ex : Export) (caller : Caller) (rqProc rqProg mntProg : UInt32)
    (parms : AuthUnix) : Prop :=
  ∀ ctx, makeCred env ex caller ⟨rqProc, rqProg, .authUnix parms⟩ mntProg = some ctx →
    Squashed env ex caller parms ctx

/-- For a caller with the uid 0 that no entry for root is for: if the entries are looked at, those that
the searches come upon first are not for root; and if it is admitted, the anonymous uid is not 0 and the
group 0 is not one of its groups. -/
def Safe (env : Env) (ex : Export) (caller : Caller) (rqProc rqProg mntProg : UInt32)
    (parms : AuthUnix) : Prop :=
  parms.uid = 0 → ¬ RootMatched env ex.clients caller →
    if Request.Checked ⟨rqProc, rqProg, .authUnix parms⟩ mntProg then
      ∀ e, ComesUpon env caller ex.clients exportOptionRoot e ∨
          ComesUpon env caller ex.clients exportOptionAccess e →
        ¬ e.Carries exportOptionRoot ∧ ex.anonymousUid ≠ 0 ∧ 0 ∉ parms.gids
    else ex.anonymousUid ≠ 0 ∧ 0 ∉ parms.gids

variable {ex : Export} {parms : AuthUnix} {rqProc rqProg : UInt32}

lemma take_gids : parms.gids.take fsalNgroupsMax = parms.gids :=
  List.take_of_length_le (parms.gids_le.trans (by decide))

lemma buildFsalContext_authUnix :
    buildFsalContext ⟨rqProc, rqProg, .authUnix parms⟩ client ex =
      some (if parms.uid = 0 ∧ ¬ client.Carries exportOptionRoot then
        ⟨ex.anonymousUid, anonGid, parms.gids⟩ else ⟨parms.uid, parms.gid, parms.gids⟩) := by
  unfold buildFsalContext getClientContext
  simp only [and_root_eq_zero_iff, take_gids]

lemma squashed_of_ne_zero (huid : parms.uid ≠ 0) :
    Squashed env ex caller parms ⟨parms.uid, parms.gid, parms.gids⟩ where
  root_only h := absurd h huid
  anonymous h := absurd h huid
  keeps _ := rfl

lemma squashed_of_rootMatched (huid : parms.uid = 0) (hroot : RootMatched env ex.clients caller)
    (ctx : Context) : Squashed env ex caller parms ctx where
  root_only _ := ⟨huid, hroot⟩
  anonymous _ hnot := absurd hroot hnot
  keeps hne := absurd huid hne

lemma not_squashed_root (huid : parms.uid = 0) (hroot : ¬ RootMatched env ex.clients caller) :
    ¬ Squashed env ex caller parms ⟨parms.uid, parms.gid, parms.gids⟩ :=
  fun h => hroot (h.root_only huid).2

/-- When the answer for nobody is squashed. -/
lemma squashed_anonymous_iff (huid : parms.uid = 0) (hroot : ¬ RootMatched env ex.clients caller) :
    Squashed env ex caller parms ⟨ex.anonymousUid, anonGid, parms.gids⟩ ↔
      ex.anonymousUid ≠ 0 ∧ 0 ∉ parms.gids := by
  constructor
  · intro h
    exact ⟨fun hzero => hroot (h.root_only hzero).2, (h.anonymous huid hroot).2.2⟩
  · rintro ⟨hanon, hgids⟩
    exact ⟨fun hzero => absurd hzero hanon, fun _ _ => ⟨rfl, (by decide : anonGid ≠ 0), hgids⟩,
      fun hne => absurd huid hne⟩

lemma makeCred_eq_some {ctx : Context} :
    makeCred env ex caller ⟨rqProc, rqProg, .authUnix parms⟩ mntProg = some ctx ↔
      ∃ client, exportCheckAccess env caller ⟨rqProc, rqProg, .authUnix parms⟩ ex.clients mntProg =
          some client ∧
        ctx = if parms.uid = 0 ∧ ¬ client.Carries exportOptionRoot then
          ⟨ex.anonymousUid, anonGid, parms.gids⟩ else ⟨parms.uid, parms.gid, parms.gids⟩ := by
  unfold makeCred
  simp only [Option.bind_eq_some_iff, buildFsalContext_authUnix, Option.some.injEq]
  exact exists_congr fun client => and_congr_right fun _ => eq_comm

/-- The entries are not looked at: the caller is admitted as nobody. -/
lemma squashes_unchecked (huid : parms.uid = 0) (hroot : ¬ RootMatched env ex.clients caller)
    (hreq : ¬ Request.Checked ⟨rqProc, rqProg, .authUnix parms⟩ mntProg) :
    Squashes env ex caller rqProc rqProg mntProg parms ↔ ex.anonymousUid ≠ 0 ∧ 0 ∉ parms.gids := by
  have haccess : exportCheckAccess env caller ⟨rqProc, rqProg, .authUnix parms⟩ ex.clients mntProg =
      some emptyEntry := by
    unfold exportCheckAccess
    split_ifs with hproc hprog
    · rfl
    · rfl
    · exact absurd ⟨hproc, hprog⟩ hreq
  rw [← squashed_anonymous_iff huid hroot]
  constructor
  · intro h
    refine h _ (makeCred_eq_some.mpr ⟨emptyEntry, haccess, ?_⟩)
    rw [if_pos ⟨huid, by decide⟩]
  · intro h ctx hctx
    obtain ⟨client, hclient, rfl⟩ := makeCred_eq_some.mp hctx
    obtain rfl : emptyEntry = client := Option.some.inj (haccess.symm.trans hclient)
    rw [if_pos ⟨huid, by decide⟩]
    exact h

/-- The entries are looked at. -/
lemma squashes_checked (huid : parms.uid = 0) (hroot : ¬ RootMatched env ex.clients caller)
    (hreq : Request.Checked ⟨rqProc, rqProg, .authUnix parms⟩ mntProg) :
    Squashes env ex caller rqProc rqProg mntProg parms ↔
      ∀ e, ComesUpon env caller ex.clients exportOptionRoot e ∨
          ComesUpon env caller ex.clients exportOptionAccess e →
        ¬ e.Carries exportOptionRoot ∧ ex.anonymousUid ≠ 0 ∧ 0 ∉ parms.gids := by
  constructor
  · intro h e he
    obtain ⟨client, hclient, hcarries⟩ := exportCheckAccess_of_comesUpon hreq hroot he
    have hsquashed := h _ (makeCred_eq_some.mpr ⟨client, hclient, rfl⟩)
    by_cases hclientRoot : client.Carries exportOptionRoot
    · rw [if_neg fun hnot => hnot.2 hclientRoot] at hsquashed
      exact absurd hsquashed (not_squashed_root huid hroot)
    · rw [if_pos ⟨huid, hclientRoot⟩, squashed_anonymous_iff huid hroot] at hsquashed
      exact ⟨fun hroot => hclientRoot (hcarries hroot), hsquashed⟩
  · intro h ctx hctx
    obtain ⟨client, hclient, rfl⟩ := makeCred_eq_some.mp hctx
    obtain ⟨hclientRoot, hanon⟩ := h client (exportCheckAccess_comesUpon hreq hclient)
    rw [if_pos ⟨huid, hclientRoot⟩]
    exact (squashed_anonymous_iff huid hroot).mpr hanon

/-- Root is squashed as it should be, in an export and for a request, exactly under these conditions. -/
theorem squashes_iff (env : Env) (ex : Export) (caller : Caller) (rqProc rqProg mntProg : UInt32)
    (parms : AuthUnix) :
    Squashes env ex caller rqProc rqProg mntProg parms ↔
      Safe env ex caller rqProc rqProg mntProg parms := by
  unfold Safe
  by_cases huid : parms.uid = 0
  swap
  · refine iff_of_true (fun ctx hctx => ?_) fun hzero => absurd hzero huid
    obtain ⟨client, -, rfl⟩ := makeCred_eq_some.mp hctx
    rw [if_neg fun hnot => huid hnot.1]
    exact squashed_of_ne_zero huid
  by_cases hroot : RootMatched env ex.clients caller
  · exact iff_of_true (fun ctx _ => squashed_of_rootMatched huid hroot ctx) fun _ hnot =>
      absurd hroot hnot
  rw [imp_iff_right huid, imp_iff_right hroot]
  split_ifs with hreq
  · exact squashes_checked huid hroot hreq
  · exact squashes_unchecked huid hroot hreq

/-- Root with the groups 0 and 1. -/
def sampleRoot : AuthUnix where
  uid := 0
  gid := 0
  gids := [0, 1]
  gids_le := by decide

/-- Root on the host 10.1.2.3, to which access without root is given, keeps the group 0; and root on
1.2.3.10, which is in no network that may be root, stays root. -/
theorem not_squashes_sample :
    ¬ Squashes sampleEnv ⟨[⟨.hostif 0x0302010a, exportOptionAccess⟩], anonGid⟩ (.inet ⟨10, 1, 2, 3⟩)
      1 100003 100005 sampleRoot ∧
    ¬ Squashes sampleEnv ⟨[⟨.network 0x0a000000 0xff000000, exportOptionRoot⟩], anonGid⟩
      (.inet ⟨1, 2, 3, 10⟩) 1 100003 100005 sampleRoot := by
  constructor
  · intro h
    have hctx : makeCred sampleEnv ⟨[⟨.hostif 0x0302010a, exportOptionAccess⟩], anonGid⟩
        (.inet ⟨10, 1, 2, 3⟩) ⟨1, 100003, .authUnix sampleRoot⟩ 100005 =
          some ⟨anonGid, anonGid, [0, 1]⟩ := by decide +kernel
    refine absurd ((h _ hctx).anonymous rfl ?_).2.2 (by decide)
    rintro ⟨e, he, hcarries, -⟩
    rw [List.mem_singleton.mp he] at hcarries
    exact absurd hcarries (by decide)
  · intro h
    have hctx : makeCred sampleEnv ⟨[⟨.network 0x0a000000 0xff000000, exportOptionRoot⟩], anonGid⟩
        (.inet ⟨1, 2, 3, 10⟩) ⟨1, 100003, .authUnix sampleRoot⟩ 100005 =
          some ⟨0, 0, [0, 1]⟩ := by decide +kernel
    obtain ⟨-, e, he, -, hmatch⟩ := (h _ hctx).root_only rfl
    rw [List.mem_singleton.mp he] at hmatch
    have hnot : ¬ ClientEntry.Matches sampleEnv ⟨1, 2, 3, 10⟩ []
        ⟨.network 0x0a000000 0xff000000, exportOptionRoot⟩ := by decide +kernel
    exact hnot hmatch

end Ganesha.Exports
