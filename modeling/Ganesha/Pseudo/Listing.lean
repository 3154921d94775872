import Ganesha.Library.Paging
import Ganesha.Pseudo.Operations
import Ganesha.Pseudo.Theorems

/-!
# Navigation and listing in the pseudo filesystem
-/

namespace Ganesha.Pseudo
open Library.PathTree
open Library.LinkedList (Chain)
open Library.Paging (Page run run_cons_eq_some)
open Fattr (Bitmap4 nfs4Bitmap4ToList attrmasklistSize)
open Protocols.Readdir (Entry4 sizeofEntry4)

variable {fs : Pseudofs} {nodes : List (List Name)} {J : List Name → Option ℕ} {q : List Name}
  {a : Name} {i j k fuel num : ℕ} {exports : List ExportEntry} {l : List ℕ} {h : Option ℕ}
  {bitmap : Bitmap4}

/-! ## The trees -/

/-- A loop that ended had fuel for every export. -/
lemma length_lt_of_exportLoop {fs' : Pseudofs} (hrun : exportLoop fuel k exports fs = some fs') :
    exports.length < fuel := by
  induction fuel generalizing k exports fs with
  | zero => cases hrun
  | succ n ih =>
    cases exports with
    | nil => exact Nat.succ_pos n
    | cons e rest =>
      rw [exportLoop] at hrun
      by_cases hpseudo : e.isPseudo = true
      · rw [if_neg (not_not.mpr hpseudo)] at hrun
        cases hparse : nfsParseConfLine nbTokPath e.pseudopath with
        | none =>
          rw [hparse] at hrun
          cases hrun
        | some tokens =>
          rw [hparse] at hrun
          cases tokens with
          | none => exact Nat.lt_succ_of_lt (ih hrun)
          | some tokens =>
            dsimp only at hrun
            split_ifs at hrun with hhead
            · exact Nat.lt_succ_of_lt (ih hrun)
            · obtain ⟨⟨cur, fs₁⟩, -, hrun⟩ := Option.bind_eq_some_iff.mp hrun
              exact Nat.succ_lt_succ (ih hrun)
      · rw [if_pos hpseudo] at hrun
        exact Nat.succ_lt_succ (ih hrun)

/-- A tree that has been returned consists of the nodes on the paths of the exports. -/
theorem exportLoop_built (hrun : nfs4ExportToPseudoFs fuel exports = some fs) :
    AllWellFormed exports ∧ Built fs (treeOf [[]] exports) (junctions 0 (fun _ => none) exports) ∧
      fs.reverseTab 0 = if exports = [] then none else some 0 := by
  obtain ⟨hdone, hfail⟩ := exportLoop_spec built_initialPseudofs exports 0
  have hgood : AllWellFormed exports ∧ (treeOf [[]] exports).length ≤ maxPseudoEntry := by
    by_contra hbad
    have hnone := hfail hbad fuel
    rw [show exportLoop fuel 0 exports initialPseudofs = some fs from hrun] at hnone
    cases hnone
  obtain ⟨fs', hloop, hbuilt, hroot⟩ := hdone hgood
  have heq : some fs' = some fs := (hloop fuel (length_lt_of_exportLoop hrun)).symm.trans hrun
  rw [Option.some.injEq] at heq
  rw [heq] at hbuilt hroot
  exact ⟨hgood.1, hbuilt, hroot⟩

/-! ## Names -/

/-- A part has characters of the line alone. -/
lemma mem_of_mem_splitSlash {line part : Name} (hpart : part ∈ splitSlash line) :
    ∀ c ∈ part, c ∈ line := by
  induction line generalizing part with
  | nil =>
    rw [splitSlash, List.mem_singleton] at hpart
    rw [hpart]
    exact fun c hc => hc
  | cons b line ih =>
    rw [splitSlash] at hpart
    split_ifs at hpart with hb
    · rcases List.mem_cons.mp hpart with rfl | hpart
      · exact fun c hc => absurd hc List.not_mem_nil
      · exact fun c hc => List.mem_cons_of_mem b (ih hpart c hc)
    · cases hsplit : splitSlash line with
      | nil => exact absurd hsplit (splitSlash_ne_nil line)
      | cons first parts =>
        rw [hsplit] at hpart ih
        rcases List.mem_cons.mp hpart with rfl | hpart
        · intro c hc
          rcases List.mem_cons.mp hc with rfl | hc
          · exact List.mem_cons_self
          · exact List.mem_cons_of_mem b (ih List.mem_cons_self c hc)
        · exact fun c hc => List.mem_cons_of_mem b (ih (List.mem_cons_of_mem first hpart) c hc)

/-- No token holds the terminating zero. -/
lemma ne_zero_of_mem_tokensOf {path token : Name} (htoken : token ∈ tokensOf path) :
    ∀ c ∈ token, c ≠ 0 := by
  intro c hc hzero
  unfold tokensOf at htoken
  obtain ⟨part, hpart, rfl⟩ := List.mem_map.mp htoken
  have hpart : part ∈ splitSlash (firstLine path) := by
    split_ifs at hpart
    · exact List.dropLast_subset _ hpart
    · exact hpart
  have hline := mem_of_mem_splitSlash hpart c ((List.dropWhile_sublist _).subset hc)
  have hin := List.mem_takeWhile_imp hline
  rw [hzero] at hin
  exact absurd hin (by decide)

/-- The names of the nodes fit. -/
lemma name_of_node (hwf : AllWellFormed exports) (hq : q ++ [a] ∈ treeOf [[]] exports) :
    a.length < maxnamlen ∧ a.takeWhile (· ≠ 0) = a := by
  rcases mem_treeOf.mp hq with hq | ⟨e, he, hpseudo, -, hq⟩
  · rw [List.mem_singleton] at hq
    exact absurd hq (List.append_ne_nil_of_right_ne_nil q (List.cons_ne_nil a []))
  · have ha : a ∈ tokensOf e.pseudopath :=
      List.mem_of_mem_tail (hq.subset (List.mem_append_right q (List.mem_singleton_self a)))
    refine ⟨(hwf e he hpseudo).length_lt a ha, ?_⟩
    rw [List.takeWhile_eq_self_iff]
    exact fun c hc => decide_eq_true (ne_zero_of_mem_tokensOf ha c hc)

/-! ## Navigation -/

section Navigation
variable {H ε τ β : Type*}

/-- `LOOKUP` of a son, unless it is a junction, and then `LOOKUPP` lead back to the directory. -/
def LookuppLaw (env : Env H ε τ β) (fs : Pseudofs) (data : CompoundData H ε τ) (l : List ℕ) : Prop :=
  ∀ j ∈ l, (fs.mem j).junctionExport = none → ∃ data' data'',
    nfs4OpLookupPseudo env fs (fs.mem j).name data = some (.ok, data') ∧
      data'.currentFH = nfs4PseudoToFhandle H (fs.mem j) ∧
      nfs4OpLookuppPseudo fs data' = some (.ok, data'') ∧ data''.currentFH = data.currentFH

/-- A handle leads back to its node. -/
lemma Built.fhandleToPseudo (h : Built fs nodes J) (hroot : fs.reverseTab 0 = some 0)
    (hi : nodes[i]? = some q) :
    nfs4FhandleToPseudo fs (nfs4PseudoToFhandle H (fs.mem i)) = some (some i) := by
  have hid : (fs.mem i).pseudoId % 2 ^ 16 = i := by
    have hlt := Nat.lt_of_lt_of_le (lt_of_getElem? hi) h.bound
    rw [(h.node i q hi).id]
    exact Nat.mod_eq_of_lt (Nat.lt_trans hlt (by decide))
  rw [nfs4FhandleToPseudo, nfs4PseudoToFhandle, if_pos rfl]
  dsimp only
  rw [hid]
  by_cases hne : q = []
  · rw [hne] at hi
    rw [h.tree.index_unique hi h.tree.root, hroot]
    rfl
  · rw [h.table i q hne hi]
    rfl

lemma length_sons_le (nodes : List (List Name)) (q : List Name) : (sons nodes q).length ≤ nodes.length := by
  have hle := (List.range nodes.length).length_filter_le fun j => (nodes[j]?).any (isSon q)
  rwa [List.length_range] at hle

/-- `LOOKUPP` goes back where `LOOKUP` came from. -/
theorem Built.lookuppLaw (h : Built fs nodes J) (hroot : fs.reverseTab 0 = some 0)
    (hnames : ∀ q a, q ++ [a] ∈ nodes → a.length < maxnamlen ∧ a.takeWhile (· ≠ 0) = a)
    (env : Env H ε τ β) {data : CompoundData H ε τ} (hi : nodes[i]? = some q)
    (hdata : data.currentFH = nfs4PseudoToFhandle H (fs.mem i)) :
    LookuppLaw env fs data (sons nodes q) := by
  intro j hj hjunction
  obtain ⟨a, ha⟩ := mem_sons.mp hj
  obtain ⟨hlen, hstring⟩ := hnames q a (List.mem_of_getElem? ha)
  have hname : (fs.mem j).name = a := (h.node j _ ha).name q a rfl
  have hlookup : nfs4OpLookupPseudo env fs (fs.mem j).name data =
      some (.ok, { data with currentFH := nfs4PseudoToFhandle H (fs.mem j) }) := by
    have hfuel : (sons nodes q).length < fs.allocated + 2 := by
      have hle := length_sons_le nodes q
      have hallocated := h.allocated
      omega
    rw [nfs4OpLookupPseudo, hname, if_neg (Nat.not_le.mpr hlen), hdata,
      h.fhandleToPseudo hroot hi, hstring, Option.bind_some]
    dsimp only
    rw [findSon_spec (h.node i q hi).chain hfuel, h.find_son ha, Option.map_some]
    dsimp only
    rw [hjunction]
  have hother : fs.mem j ≠ fs.mem 0 := by
    intro heq
    have hid := (h.node j _ ha).id
    rw [heq, (h.node 0 [] h.tree.root).id] at hid
    rw [← hid, h.tree.root, Option.some.injEq] at ha
    exact List.append_ne_nil_of_right_ne_nil q (List.cons_ne_nil a []) ha.symm
  have hparent : (fs.mem j).parent = i :=
    h.tree.index_unique ((h.node j _ ha).parent q a rfl) hi
  have hlookupp : ∃ data'', nfs4OpLookuppPseudo fs
      { data with currentFH := nfs4PseudoToFhandle H (fs.mem j) } = some (.ok, data'') ∧
        data''.currentFH = data.currentFH := by
    rw [nfs4OpLookuppPseudo, h.fhandleToPseudo hroot ha, Option.bind_some]
    dsimp only
    rw [hroot, Option.map_some, if_neg hother, hparent]
    exact ⟨_, rfl, hdata.symm⟩
  obtain ⟨data'', hlookupp, hback⟩ := hlookupp
  exact ⟨_, data'', hlookup, rfl, hlookupp, hback⟩

end Navigation

/-! ## One READDIR -/

section Readdir
variable {H ε τ β : Type*} {env : Env H ε τ β} {data : CompoundData H ε τ}

/-- The reading goes on behind the cookie. -/
lemma findCookie_spec (hchain : Chain fs.next h l) {cookie : ℕ} (hfuel : l.length < fuel) :
    ∃ h', findCookie fs cookie fuel h = some h' ∧
      Chain fs.next h' (l.dropWhile fun j => (fs.mem j).pseudoId + 3 ≠ cookie) := by
  induction l generalizing h fuel with
  | nil =>
    obtain ⟨n, rfl⟩ : ∃ n, fuel = n + 1 := Nat.exists_eq_add_one.mpr hfuel
    rw [show h = none from hchain]
    exact ⟨none, rfl, rfl⟩
  | cons c l ih =>
    obtain ⟨n, rfl⟩ : ∃ n, fuel = n + 1 :=
      Nat.exists_eq_add_one.mpr (Nat.lt_of_le_of_lt (Nat.zero_le _) hfuel)
    have hchain' := hchain
    obtain ⟨rfl, hrest⟩ := hchain
    rw [findCookie]
    by_cases hid : (fs.mem c).pseudoId + 3 = cookie
    · rw [if_pos hid, List.dropWhile_cons_of_neg (by simpa using hid)]
      exact ⟨some c, rfl, hchain'⟩
    · rw [if_neg hid, List.dropWhile_cons_of_pos (by simpa using hid)]
      exact ih hrest (Nat.lt_of_succ_lt_succ hfuel)

/-- The bitmap of a request can be used for `n` entries. -/
def Usable (bitmap : Bitmap4) (n : ℕ) : Prop :=
  n = 0 ∨ bitmap.val ≠ [] ∧ (nfs4Bitmap4ToList bitmap).length ≤ attrmasklistSize ∧
    (nfs4Bitmap4ToList bitmap ≠ [] ∨ n = 1)

lemma usable_succ {n : ℕ} : Usable bitmap (n + 1) ↔ bitmap.val ≠ [] ∧
    (nfs4Bitmap4ToList bitmap).length ≤ attrmasklistSize ∧
      (nfs4Bitmap4ToList bitmap ≠ [] ∨ n = 0) := by
  rw [Usable, or_iff_right (Nat.succ_ne_zero n), Nat.add_eq_right]

/-- The attributes of one node. -/
lemma pseudoToFattr_spec (env : Env H ε τ β) (entry : PseudofsEntry) (fh : Option (FileHandle H))
    (hlen : (nfs4Bitmap4ToList bitmap).length ≤ attrmasklistSize) :
    ∃ attrs bitmap', nfs4PseudoToFattr env entry fh bitmap = some (attrs, bitmap') ∧
      ∀ n, Usable bitmap' n ↔ nfs4Bitmap4ToList bitmap ≠ [] ∧ Usable bitmap n ∨ n = 0 := by
  rw [nfs4PseudoToFattr, if_neg (Nat.not_lt.mpr hlen)]
  by_cases hnil : nfs4Bitmap4ToList bitmap = []
  · rw [if_pos hnil]
    refine ⟨_, _, rfl, fun n => ?_⟩
    rw [or_iff_right fun hall => hall.1 hnil]
    exact or_iff_left fun hall => hall.1 rfl
  · rw [if_neg hnil]
    refine ⟨_, _, rfl, fun n => ?_⟩
    rw [and_iff_right hnil]
    exact ⟨Or.inl, fun hall => hall.elim id Or.inl⟩

/-- The cookie and the name of a son. -/
def cookieName (fs : Pseudofs) (j : ℕ) : ℕ × Name := ((fs.mem j).pseudoId + 3, (fs.mem j).name)

/-- The cookie and the name of an entry. -/
def Entry4.cookieName (e : Entry4 (Option β)) : ℕ × Name := (e.cookie, e.name)

/-- The loop returns as many sons as there is room for, and says that it got to the end if there was
room for another one. -/
lemma fillLoop_spec (env : Env H ε τ β) (bitmap : Bitmap4) (hchain : Chain fs.next h l) (hfuel : l.length < fuel) (hi : i < num) :
    (Usable bitmap (min (num - i) l.length) → ∃ entries,
      fillLoop env fs num fuel i h bitmap = some (entries, decide (l.length < num - i)) ∧
        entries.map Entry4.cookieName = (l.take (num - i)).map (cookieName fs)) ∧
    (¬ Usable bitmap (min (num - i) l.length) → fillLoop env fs num fuel i h bitmap = none) := by
  induction l generalizing h fuel i bitmap with
  | nil =>
    obtain ⟨n, rfl⟩ : ∃ n, fuel = n + 1 := Nat.exists_eq_add_one.mpr hfuel
    rw [show h = none from hchain, List.length_nil, Nat.min_zero, List.take_nil]
    refine ⟨fun _ => ⟨[], ?_, rfl⟩, fun hnot => absurd (Or.inl rfl) hnot⟩
    rw [fillLoop, decide_eq_true (Nat.sub_pos_of_lt hi)]
  | cons c l ih =>
    obtain ⟨n, rfl⟩ : ∃ n, fuel = n + 1 :=
      Nat.exists_eq_add_one.mpr (Nat.lt_of_le_of_lt (Nat.zero_le _) hfuel)
    obtain ⟨rfl, hrest⟩ := hchain
    -- one entry less fits behind this one
    have hroom : num - i = num - (i + 1) + 1 := by omega
    rw [hroom, List.length_cons, Nat.add_min_add_right, usable_succ, fillLoop, List.take_succ_cons]
    cases hval : bitmap.val with
    | nil => exact ⟨fun hall => absurd rfl hall.1, fun _ => rfl⟩
    | cons w words =>
      rw [List.head?_cons, Option.bind_some]
      dsimp only
      by_cases hlen : (nfs4Bitmap4ToList bitmap).length ≤ attrmasklistSize
      · obtain ⟨attrs, bitmap', hfattr, husable⟩ := pseudoToFattr_spec env (fs.mem c)
          (if w &&& 19#32 ≠ 0 then some (nfs4PseudoToFhandle H (fs.mem c)) else none) hlen
        rw [hfattr, Option.bind_some]
        dsimp only
        by_cases hlast : i + 1 = num
        · -- there is no more room
          rw [if_pos hlast, hlast, Nat.sub_self, Nat.zero_min]
          refine ⟨fun _ => ⟨[⟨_, _, attrs⟩], ?_, rfl⟩, fun hnot => ?_⟩
          · rw [decide_eq_false (by omega)]
          · exact absurd ⟨List.cons_ne_nil w words, hlen, Or.inr rfl⟩ hnot
        · rw [if_neg hlast]
          have hnext : i + 1 < num := Nat.lt_of_le_of_ne hi hlast
          have hrest' : Chain fs.next (fs.mem c).next l := hrest
          obtain ⟨hgo, hstop⟩ := ih bitmap' hrest' (Nat.lt_of_succ_lt_succ hfuel) hnext
          have hmore : ((w :: words ≠ []) ∧ (nfs4Bitmap4ToList bitmap).length ≤ attrmasklistSize ∧
              (nfs4Bitmap4ToList bitmap ≠ [] ∨ min (num - (i + 1)) l.length = 0)) ↔
              Usable bitmap' (min (num - (i + 1)) l.length) := by
            rw [husable, and_iff_right (List.cons_ne_nil w words), and_iff_right hlen]
            refine or_congr_left ⟨fun hne => ⟨hne, Or.inr ⟨?_, hlen, Or.inl hne⟩⟩, fun hall => hall.1⟩
            rw [hval]
            exact List.cons_ne_nil w words
          rw [hmore]
          constructor
          · intro hall
            obtain ⟨entries, hfill, hentries⟩ := hgo hall
            rw [hfill, Option.map_some]
            refine ⟨⟨(fs.mem c).pseudoId + 3, (fs.mem c).name, attrs⟩ :: entries, ?_, ?_⟩
            · rw [decide_eq_decide.mpr Nat.add_lt_add_iff_right]
            · rw [List.map_cons, List.map_cons, hentries]
              rfl
          · intro hnot
            rw [hstop hnot]
            rfl
      · have hfail : ∀ fh, nfs4PseudoToFattr env (fs.mem c) fh bitmap = none := fun fh => by
          rw [nfs4PseudoToFattr]
          exact if_pos (Nat.lt_of_not_le hlen)
        rw [hfail]
        exact ⟨fun hall => absurd hall.2.1 hlen, fun _ => rfl⟩

/-! ## Listing -/

/-- One page of a listing; a reply from the other side of a junction has no sons. -/
def pageOf (cookie : ℕ) : Option (ReaddirReply H ε τ β) → Option (Page ℕ (Entry4 (Option β)))
  | some (.ok entries eof) => some ⟨entries, ((entries.map Entry4.cookie).getLast?).getD cookie, eof⟩
  | _ => none

/-- `READDIR` from a cookie. -/
def readdirPage (env : Env H ε τ β) (fs : Pseudofs) (data : CompoundData H ε τ) (cookie : ℕ)
    (args : ReaddirRequest) : Option (Page ℕ (Entry4 (Option β))) :=
  pageOf cookie (nfs4OpReaddirPseudo env fs cookie args data)

/-- The sons from a cookie on. -/
def fromCookie (fs : Pseudofs) (l : List ℕ) (cookie : ℕ) : List ℕ :=
  if cookie ≠ 0 then l.dropWhile fun j => (fs.mem j).pseudoId + 3 ≠ cookie else l

lemma length_fromCookie_le (fs : Pseudofs) (l : List ℕ) (cookie : ℕ) :
    (fromCookie fs l cookie).length ≤ l.length := by
  unfold fromCookie
  split_ifs
  · exact (List.dropWhile_sublist _).length_le
  · exact Nat.le_refl _

variable {args : ReaddirRequest}

/-- A page. -/
theorem Built.readdirPage_spec (h : Built fs nodes J) (hroot : fs.reverseTab 0 = some 0)
    (hi : nodes[i]? = some q) (hdata : data.currentFH = nfs4PseudoToFhandle H (fs.mem i))
    (hjunction : (fs.mem i).junctionExport = none) (hcount : sizeofEntry4 ≤ args.maxcount) (env : Env H ε τ β)
    (cookie : ℕ) :
    (Usable args.attrRequest
        (min (args.maxcount / sizeofEntry4) (fromCookie fs (sons nodes q) cookie).length) →
      ∃ p, readdirPage env fs data cookie args = some p ∧
        p.eof = decide ((fromCookie fs (sons nodes q) cookie).length < args.maxcount / sizeofEntry4) ∧
        p.items.map Entry4.cookieName = ((fromCookie fs (sons nodes q) cookie).take
          (args.maxcount / sizeofEntry4)).map (cookieName fs) ∧
        p.next = ((p.items.map Entry4.cookie).getLast?).getD cookie) ∧
    (¬ Usable args.attrRequest
        (min (args.maxcount / sizeofEntry4) (fromCookie fs (sons nodes q) cookie).length) →
      readdirPage env fs data cookie args = none) := by
  have hnum : 0 < args.maxcount / sizeofEntry4 := Nat.div_pos hcount (by decide)
  have hfuel : (sons nodes q).length < fs.allocated + 2 := by
    have hle := length_sons_le nodes q
    have hallocated := h.allocated
    omega
  -- the reading starts at the first son or behind the cookie
  have hfrom : ∃ h', (if cookie ≠ 0 then findCookie fs cookie (fs.allocated + 2) (fs.mem i).sons
      else some (fs.mem i).sons) = some h' ∧ Chain fs.next h' (fromCookie fs (sons nodes q) cookie) := by
    unfold fromCookie
    split_ifs
    · exact findCookie_spec (h.node i q hi).chain hfuel
    · exact ⟨_, rfl, (h.node i q hi).chain⟩
  obtain ⟨h', hskip, hchain⟩ := hfrom
  have hreply : nfs4OpReaddirPseudo env fs cookie args data =
      (fillLoop env fs (args.maxcount / sizeofEntry4) (fs.allocated + 2) 0 h' args.attrRequest).map
        fun r => .ok r.1 r.2 := by
    rw [nfs4OpReaddirPseudo]
    dsimp only
    rw [if_neg (not_or.mpr ⟨Nat.not_lt.mpr hcount, Nat.ne_of_gt hnum⟩), hdata,
      h.fhandleToPseudo hroot hi, Option.bind_some]
    dsimp only
    rw [hjunction]
    dsimp only
    rw [hskip, Option.bind_some]
  obtain ⟨hgo, hstop⟩ := fillLoop_spec env args.attrRequest hchain
    (Nat.lt_of_le_of_lt (length_fromCookie_le fs _ cookie) hfuel) hnum
  rw [Nat.sub_zero] at hgo hstop
  unfold readdirPage
  rw [hreply]
  constructor
  · intro hall
    obtain ⟨entries, hfill, hentries⟩ := hgo hall
    rw [hfill]
    exact ⟨_, rfl, rfl, hentries, rfl⟩
  · intro hnot
    rw [hstop hnot]
    rfl

/-- Each son is returned once, and the end is reported with the last of them. -/
structure ListsOnce (fs : Pseudofs) (l : List ℕ) (ps : List (Page ℕ (Entry4 (Option β)))) : Prop where
  once : ((ps.flatMap Page.items).map Entry4.cookieName).Perm (l.map (cookieName fs))
  last : ∃ init p, ps = init ++ [p] ∧ p.eof = true ∧ (∀ p' ∈ init, p'.eof = false) ∧
    (l ≠ [] → p.items ≠ [])

/-- Finitely many of the requests list the sons. -/
def ListingLaw (env : Env H ε τ β) (fs : Pseudofs) (data : CompoundData H ε τ) (l : List ℕ)
    (requests : ℕ → ReaddirRequest) : Prop :=
  ∃ n ps, run (readdirPage env fs data) 0 ((List.range n).map requests) = some ps ∧ ListsOnce fs l ps

variable {requests : ℕ → ReaddirRequest}

/-- The first page is answered. -/
lemma ListingLaw.first (hlaw : ListingLaw env fs data l requests) :
    ∃ p, readdirPage env fs data 0 (requests 0) = some p := by
  obtain ⟨n, ps, hrun, -, init, p, hps, -⟩ := hlaw
  cases n with
  | zero =>
    rw [List.range_zero, List.map_nil, run, Option.some.injEq] at hrun
    rw [← hrun] at hps
    exact absurd hps.symm (List.append_ne_nil_of_right_ne_nil init (List.cons_ne_nil p []))
  | succ n =>
    rw [List.range_succ_eq_map, List.map_cons] at hrun
    obtain ⟨p₀, -, hp₀, -⟩ := run_cons_eq_some hrun
    exact ⟨p₀, hp₀⟩

lemma Built.nodup_cookieName (h : Built fs nodes J) :
    ((sons nodes q).map (cookieName fs)).Nodup := by
  refine List.Nodup.map_on (fun j hj j' hj' heq => ?_) nodup_sons
  obtain ⟨a, ha⟩ := mem_sons.mp hj
  obtain ⟨b, hb⟩ := mem_sons.mp hj'
  have hcookie : (fs.mem j).pseudoId + 3 = (fs.mem j').pseudoId + 3 := congrArg Prod.fst heq
  rwa [(h.node j _ ha).id, (h.node j' _ hb).id, Nat.add_right_cancel_iff] at hcookie

/-- What a page holds. -/
lemma Built.page_items (h : Built fs nodes J) (hroot : fs.reverseTab 0 = some 0) (hi : nodes[i]? = some q)
    (hdata : data.currentFH = nfs4PseudoToFhandle H (fs.mem i)) (hjunction : (fs.mem i).junctionExport = none)
    (hcount : sizeofEntry4 ≤ args.maxcount) {cookie : ℕ} {p : Page ℕ (Entry4 (Option β))}
    (hp : readdirPage env fs data cookie args = some p) :
    p.items.map Entry4.cookieName = ((fromCookie fs (sons nodes q) cookie).take
        (args.maxcount / sizeofEntry4)).map (cookieName fs) ∧
      p.next = ((p.items.map Entry4.cookie).getLast?).getD cookie := by
  obtain ⟨hgo, hstop⟩ := h.readdirPage_spec hroot hi hdata hjunction hcount env cookie
  by_cases husable : Usable args.attrRequest
      (min (args.maxcount / sizeofEntry4) (fromCookie fs (sons nodes q) cookie).length)
  · obtain ⟨p', hp', -, hrest⟩ := hgo husable
    rw [hp, Option.some.injEq] at hp'
    rwa [hp']
  · rw [hstop husable] at hp
    cases hp

/-- A full page and the one after it share a name. -/
lemma Built.repeats (h : Built fs nodes J) (hroot : fs.reverseTab 0 = some 0) (hi : nodes[i]? = some q)
    (hdata : data.currentFH = nfs4PseudoToFhandle H (fs.mem i)) (hjunction : (fs.mem i).junctionExport = none)
    {args' : ReaddirRequest} (hcount : sizeofEntry4 ≤ args.maxcount) (hcount' : sizeofEntry4 ≤ args'.maxcount)
    (hfull : args.maxcount / sizeofEntry4 ≤ (sons nodes q).length) {p p' : Page ℕ (Entry4 (Option β))}
    (hp : readdirPage env fs data 0 args = some p) (hp' : readdirPage env fs data p.next args' = some p') :
    ∃ x, x ∈ p.items.map Entry4.cookieName ∧ x ∈ p'.items.map Entry4.cookieName := by
  have hid : ∀ j ∈ sons nodes q, (fs.mem j).pseudoId = j := by
    intro j hj
    obtain ⟨a, ha⟩ := mem_sons.mp hj
    exact (h.node j _ ha).id
  obtain ⟨hitems, hnext⟩ := h.page_items hroot hi hdata hjunction hcount hp
  obtain ⟨hitems', -⟩ := h.page_items hroot hi hdata hjunction hcount' hp'
  rw [show fromCookie fs (sons nodes q) 0 = sons nodes q from if_neg fun hne => hne rfl] at hitems
  -- the last entry of the first page
  obtain ⟨m, hm⟩ : ∃ m, args.maxcount / sizeofEntry4 = m + 1 :=
    Nat.exists_eq_add_one.mpr (Nat.div_pos hcount (by decide))
  obtain ⟨m', hm'⟩ : ∃ m, args'.maxcount / sizeofEntry4 = m + 1 :=
    Nat.exists_eq_add_one.mpr (Nat.div_pos hcount' (by decide))
  rw [hm] at hitems hfull
  rw [hm'] at hitems'
  obtain ⟨j, hj⟩ : ∃ j, (sons nodes q)[m]? = some j := ⟨_, List.getElem?_eq_getElem hfull⟩
  rw [List.take_add_one, hj, Option.toList_some, List.map_append, List.map_singleton] at hitems
  have hcookie : p.next = (fs.mem j).pseudoId + 3 := by
    have hfst : p.items.map Entry4.cookie = (p.items.map Entry4.cookieName).map Prod.fst := by
      rw [List.map_map]
      rfl
    rw [hnext, hfst, hitems, List.map_append, List.map_singleton, List.getLast?_concat]
    rfl
  refine ⟨cookieName fs j, ?_, ?_⟩
  · rw [hitems]
    exact List.mem_append_right _ (List.mem_singleton_self _)
  · have hmem : j ∈ sons nodes q := List.mem_of_getElem? hj
    rw [hitems', hcookie, fromCookie, if_pos (Nat.succ_ne_zero _)]
    cases hdrop : (sons nodes q).dropWhile
        fun j' => (fs.mem j').pseudoId + 3 ≠ (fs.mem j).pseudoId + 3 with
    | nil =>
      have hskip := List.dropWhile_eq_nil_iff.mp hdrop j hmem
      exact absurd rfl (of_decide_eq_true hskip)
    | cons c rest =>
      have hc : c ∈ sons nodes q :=
        (List.dropWhile_sublist _).subset (hdrop ▸ List.mem_cons_self)
      have hstop := List.head?_dropWhile_not
        (fun j' => decide ((fs.mem j').pseudoId + 3 ≠ (fs.mem j).pseudoId + 3)) (sons nodes q)
      rw [hdrop] at hstop
      have heq : (fs.mem c).pseudoId + 3 = (fs.mem j).pseudoId + 3 := by simpa using hstop
      rw [hid c hc, hid j hmem, Nat.add_right_cancel_iff] at heq
      rw [heq, List.take_succ_cons, List.map_cons]
      exact List.mem_cons_self

/-- At a junction the listing leaves the pseudo file system. -/
lemma Built.readdirPage_junction (h : Built fs nodes J) (hroot : fs.reverseTab 0 = some 0)
    (hi : nodes[i]? = some q) (hdata : data.currentFH = nfs4PseudoToFhandle H (fs.mem i))
    (hjunction : (fs.mem i).junctionExport = some k) (cookie : ℕ) (args : ReaddirRequest) :
    readdirPage env fs data cookie args = none := by
  rw [readdirPage, nfs4OpReaddirPseudo]
  dsimp only
  by_cases hsmall : args.maxcount < sizeofEntry4 ∨ args.maxcount / sizeofEntry4 = 0
  · rw [if_pos hsmall]
    rfl
  · rw [if_neg hsmall, hdata, h.fhandleToPseudo hroot hi, Option.bind_some]
    dsimp only
    rw [hjunction]
    dsimp only
    split_ifs <;> rfl

/-- If the first page is full the names do not come out once each. -/
lemma Built.not_listingLaw_of_full (h : Built fs nodes J) (hroot : fs.reverseTab 0 = some 0)
    (hi : nodes[i]? = some q) (hdata : data.currentFH = nfs4PseudoToFhandle H (fs.mem i))
    (hjunction : (fs.mem i).junctionExport = none) (hcounts : ∀ n, sizeofEntry4 ≤ (requests n).maxcount)
    (hfull : (requests 0).maxcount / sizeofEntry4 ≤ (sons nodes q).length) {p₀ : Page ℕ (Entry4 (Option β))}
    (hp₀ : readdirPage env fs data 0 (requests 0) = some p₀) (heof₀ : p₀.eof = false) :
    ¬ ListingLaw env fs data (sons nodes q) requests := by
  rintro ⟨n, ps, hrun, honce, init, p, hps, heof, -, -⟩
  have hlast : ps.getLast? = some p := by rw [hps, List.getLast?_concat]
  have hnodup := honce.nodup_iff.mpr h.nodup_cookieName
  cases n with
  | zero =>
    rw [List.range_zero, List.map_nil, run, Option.some.injEq] at hrun
    rw [← hrun] at hlast
    cases hlast
  | succ n =>
    rw [List.range_succ_eq_map, List.map_cons] at hrun
    obtain ⟨p', ps₀, hp', rfl, hrest⟩ := run_cons_eq_some hrun
    obtain rfl : p₀ = p' := Option.some.inj (hp₀.symm.trans hp')
    rcases hrest with ⟨htrue, -⟩ | ⟨-, hrun'⟩
    · rw [heof₀] at htrue
      cases htrue
    · cases n with
      | zero =>
        rw [List.range_zero, List.map_nil, List.map_nil, run, Option.some.injEq] at hrun'
        rw [← hrun', List.getLast?_singleton, Option.some.injEq] at hlast
        rw [← hlast, heof₀] at heof
        cases heof
      | succ n =>
        rw [List.range_succ_eq_map, List.map_cons, List.map_cons] at hrun'
        obtain ⟨p₁, ps₁, hp₁, rfl, -⟩ := run_cons_eq_some hrun'
        obtain ⟨x, hx, hx'⟩ := h.repeats hroot hi hdata hjunction (hcounts 0) (hcounts 1) hfull hp₀ hp₁
        rw [List.flatMap_cons, List.flatMap_cons, List.map_append, List.map_append] at hnodup
        have hdisjoint := (List.nodup_append.mp hnodup).2.2
        exact absurd rfl (hdisjoint x hx x (List.mem_append_left _ hx'))

/-- The sons are listed once exactly when they all fit into the first page, with room for another
one. -/
theorem Built.listingLaw_iff (h : Built fs nodes J) (hroot : fs.reverseTab 0 = some 0)
    (hi : nodes[i]? = some q) (hdata : data.currentFH = nfs4PseudoToFhandle H (fs.mem i))
    (hcounts : ∀ n, sizeofEntry4 ≤ (requests n).maxcount) :
    ListingLaw env fs data (sons nodes q) requests ↔ (fs.mem i).junctionExport = none ∧
      (sons nodes q).length < (requests 0).maxcount / sizeofEntry4 ∧
      Usable (requests 0).attrRequest (sons nodes q).length := by
  have hzero : fromCookie fs (sons nodes q) 0 = sons nodes q := if_neg fun hne => hne rfl
  constructor
  · intro hlaw
    obtain ⟨p₀, hp₀⟩ := hlaw.first
    -- a junction has no listing of its own
    have hjunction : (fs.mem i).junctionExport = none := by
      cases hk : (fs.mem i).junctionExport with
      | none => rfl
      | some k =>
        rw [h.readdirPage_junction hroot hi hdata hk] at hp₀
        cases hp₀
    obtain ⟨hgo, hstop⟩ := h.readdirPage_spec hroot hi hdata hjunction (hcounts 0) env 0
    rw [hzero] at hgo hstop
    have husable : Usable (requests 0).attrRequest
        (min ((requests 0).maxcount / sizeofEntry4) (sons nodes q).length) := by
      by_contra hnot
      rw [hstop hnot] at hp₀
      cases hp₀
    by_cases hlt : (sons nodes q).length < (requests 0).maxcount / sizeofEntry4
    · rw [Nat.min_eq_right (Nat.le_of_lt hlt)] at husable
      exact ⟨hjunction, hlt, husable⟩
    · obtain ⟨p', hp', heof', -⟩ := hgo husable
      rw [hp₀, Option.some.injEq] at hp'
      rw [← hp', decide_eq_false hlt] at heof'
      exact absurd hlaw
        (h.not_listingLaw_of_full hroot hi hdata hjunction hcounts (Nat.not_lt.mp hlt) hp₀ heof')
  · rintro ⟨hjunction, hlt, husable⟩
    obtain ⟨hgo, -⟩ := h.readdirPage_spec hroot hi hdata hjunction (hcounts 0) env 0
    rw [hzero, Nat.min_eq_right (Nat.le_of_lt hlt)] at hgo
    obtain ⟨p, hp, heof, hitems, -⟩ := hgo husable
    rw [decide_eq_true hlt] at heof
    rw [List.take_of_length_le (Nat.le_of_lt hlt)] at hitems
    refine ⟨1, [p], ?_, ?_, [], p, rfl, heof, fun p' hp' => absurd hp' List.not_mem_nil, fun hne hnil => ?_⟩
    · rw [List.range_one, List.map_singleton, run, hp, Option.bind_some, if_pos heof]
    · rw [List.flatMap_singleton, hitems]
    · rw [hnil, List.map_nil] at hitems
      exact hne (List.map_eq_nil_iff.mp hitems.symm)

/-! ## Every tree -/

lemma exists_node (hbuild : nfs4ExportToPseudoFs fuel exports = some fs) (hdir : Walk fs 0 q i)
    (hsons : SonsOf fs i l) : (treeOf [[]] exports)[i]? = some q ∧ l = sons (treeOf [[]] exports) q := by
  obtain ⟨-, h, -⟩ := exportLoop_built hbuild
  have hi := h.walk_iff.mp hdir
  exact ⟨hi, Chain.unique hsons (h.node i q hi).chain⟩

/-- `LOOKUP` and `LOOKUPP` are inverse in every directory of every tree, and `READDIR` lists the sons once
exactly when the directory is no junction, its sons fit into the first reply with room for another one,
and the bitmap of the first request can be used for all of them. -/
theorem navigationLaw_iff (env : Env H ε τ β) (hbuild : nfs4ExportToPseudoFs fuel exports = some fs)
    (hdir : Walk fs 0 q i) (hsons : SonsOf fs i l)
    (hdata : data.currentFH = nfs4PseudoToFhandle H (fs.mem i)) {requests : ℕ → ReaddirRequest}
    (hcounts : ∀ n, sizeofEntry4 ≤ (requests n).maxcount) :
    LookuppLaw env fs data l ∧ ListingLaw env fs data l requests ↔
      exports ≠ [] ∧ (fs.mem i).junctionExport = none ∧
        l.length < (requests 0).maxcount / sizeofEntry4 ∧ Usable (requests 0).attrRequest l.length := by
  obtain ⟨hwf, h, hroot⟩ := exportLoop_built hbuild
  obtain ⟨hi, rfl⟩ := exists_node hbuild hdir hsons
  by_cases hnil : exports = []
  · -- the table has no entry for the root
    refine iff_of_false (fun hlaw => ?_) fun hall => hall.1 hnil
    obtain ⟨p, hp⟩ := hlaw.2.first
    rw [if_pos hnil] at hroot
    rw [hnil] at hi
    obtain rfl : i = 0 := Nat.lt_one_iff.mp (lt_of_getElem? hi)
    have hfault : nfs4FhandleToPseudo fs data.currentFH = none := by
      rw [hdata, nfs4FhandleToPseudo, nfs4PseudoToFhandle, if_pos rfl, (h.node 0 [] h.tree.root).id]
      dsimp only
      rw [Nat.zero_mod, hroot]
      rfl
    rw [readdirPage, nfs4OpReaddirPseudo, hfault] at hp
    dsimp only at hp
    by_cases hsmall : (requests 0).maxcount < sizeofEntry4 ∨ (requests 0).maxcount / sizeofEntry4 = 0
    · rw [if_pos hsmall] at hp
      cases hp
    · rw [if_neg hsmall] at hp
      cases hp
  · rw [if_neg hnil] at hroot
    rw [h.listingLaw_iff hroot hi hdata hcounts, and_iff_right hnil]
    exact and_iff_right (h.lookuppLaw hroot (fun q a hq => name_of_node hwf hq) env hi hdata)

end Readdir

/-! ## An example -/

/-- Nothing is behind the junctions. -/
def bareEnv : Env Unit Unit Unit Unit where
  makeCred _ := false
  str2path _ := false
  lookupPath _ := none
  fsalToFhandle _ := false
  makeRoot _ := none
  getattr _ := none
  encode _ _ _ := ()

/-- An export that is seen as `/a`. -/
def oneSon : List ExportEntry := [{ options := 0x100, pseudopath := [47, 97] }]

/-- Requests for the types of the entries. -/
def typeRequest (maxcount : ℕ) : ReaddirRequest := ⟨maxcount, ⟨1, [2#32]⟩⟩

/-- The compound data after `PUTROOTFH`. -/
def atRoot : CompoundData Unit Unit Unit where
  currentFH := nfs4PseudoToFhandle Unit rootEntry
  mountedOnFH := nfs4PseudoToFhandle Unit rootEntry
  pexport := none
  mntPath := []
  currentEntry := none
  currentFiletype := some ()

/-- The tree with one son. -/
lemma oneSon_built : ∃ fs, nfs4ExportToPseudoFs 2 oneSon = some fs ∧ SonsOf fs 0 [1] ∧
    atRoot.currentFH = nfs4PseudoToFhandle Unit (fs.mem 0) := by
  obtain ⟨fs, hbuild⟩ : ∃ fs, nfs4ExportToPseudoFs 2 oneSon = some fs :=
    Option.isSome_iff_exists.mp (by decide)
  obtain ⟨-, h, -⟩ := exportLoop_built hbuild
  have hnode := h.node 0 [] h.tree.root
  refine ⟨fs, hbuild, ?_, ?_⟩
  · rw [show [1] = sons (treeOf [[]] oneSon) [] by decide]
    exact hnode.chain
  · rw [nfs4PseudoToFhandle, hnode.id]
    rfl

/-- A reply with room for two entries lists the root. -/
theorem navigationLaw_of_room : ∃ fs, nfs4ExportToPseudoFs 2 oneSon = some fs ∧
    LookuppLaw bareEnv fs atRoot [1] ∧ ListingLaw bareEnv fs atRoot [1] fun _ => typeRequest 128 := by
  obtain ⟨fs, hbuild, hsons, hdata⟩ := oneSon_built
  obtain ⟨hi, -⟩ := exists_node hbuild (Walk.here 0) hsons
  obtain ⟨-, h, -⟩ := exportLoop_built hbuild
  have hjunction : (fs.mem 0).junctionExport = none := h.junction 0 [] hi
  refine ⟨fs, hbuild, (navigationLaw_iff bareEnv hbuild (Walk.here 0) hsons hdata fun _ => ?_).mpr
    ⟨?_, hjunction, ?_, Or.inr ⟨?_, ?_, Or.inr rfl⟩⟩⟩
  · decide
  · exact List.cons_ne_nil _ _
  · decide
  · exact List.cons_ne_nil _ _
  · decide

/-- With room for one entry the only son of the root is returned without the end, and again by every
request that goes on from it. -/
theorem not_listingLaw_of_oneSon : ∃ fs, nfs4ExportToPseudoFs 2 oneSon = some fs ∧
    Walk fs 0 [] 0 ∧ SonsOf fs 0 [1] ∧ atRoot.currentFH = nfs4PseudoToFhandle Unit (fs.mem 0) ∧
    sizeofEntry4 ≤ (typeRequest 64).maxcount ∧
    ¬ ListingLaw bareEnv fs atRoot [1] fun _ => typeRequest 64 := by
  obtain ⟨fs, hbuild, hsons, hdata⟩ := oneSon_built
  obtain ⟨hi, hl⟩ := exists_node hbuild (Walk.here 0) hsons
  obtain ⟨-, h, hroot⟩ := exportLoop_built hbuild
  refine ⟨fs, hbuild, Walk.here 0, hsons, hdata, by decide, fun hlaw => ?_⟩
  rw [hl, h.listingLaw_iff hroot hi hdata fun _ => by decide, ← hl] at hlaw
  exact absurd hlaw.2.1 (by decide)

end Ganesha.Pseudo
