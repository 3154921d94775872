import Mathlib.Data.List.Nodup
import Mathlib.Data.List.Pairwise
import Mathlib.Data.List.Perm.Basic
import Mathlib.Tactic.Common
import Ganesha.Limits

/-!
# Iterating over the data cache

`cache_content_local_cache_opendir` and `cache_content_local_cache_dir_iter` of
`File_Content/cache_content_misc.c`. Several threads read a cache directory, each with a stream of its own;
a stream is the list of the names that it has not returned yet.
-/

namespace Ganesha.FileContent

abbrev Name := List UInt8

/-- `'/'`. -/
abbrev slash : UInt8 := 47

/-- The name is `.` or `..`. -/
def isDot (name : Name) : Bool := name = [46] || name = [46, 46]

/-- `%s/%s/%s`. -/
def joinPath (level1 level2 name : Name) : Name := level1 ++ slash :: level2 ++ slash :: name

/-- What `snprintf` puts of a path into the `MAXNAMLEN` bytes of a `dirent`. -/
def cut (path : Name) : Name := path.take (maxnamlen - 1)

/-- A cache directory. The contents of `.` and `..` are not looked at. The names of the directories fit
into `level1_name` and `level2_name` with their ends. -/
structure CacheTree where
  level0 : List (Name × List (Name × List Name))
  nodup0 : (level0.map Prod.fst).Nodup
  nodup1 : ∀ d ∈ level0, (d.2.map Prod.fst).Nodup
  nodup2 : ∀ d ∈ level0, ∀ e ∈ d.2, e.2.Nodup
  noSlash0 : ∀ d ∈ level0, slash ∉ d.1
  noSlash1 : ∀ d ∈ level0, ∀ e ∈ d.2, slash ∉ e.1
  short0 : ∀ d ∈ level0, d.1.length < maxnamlen
  short1 : ∀ d ∈ level0, ∀ e ∈ d.2, e.1.length < maxnamlen

/-- `cache_content_dirinfo_t`, once it has been opened. -/
structure Dirinfo where
  level0 : List Name
  level1 : Option (List Name)
  level2 : Option (List Name)
  level1Cnt : UInt32
  level1Name : Name
  level2Name : Name

/-- `cache_content_local_cache_opendir`. -/
def localCacheOpendir (tree : CacheTree) : Dirinfo where
  level0 := tree.level0.map Prod.fst
  level1 := none
  level2 := none
  level1Cnt := 0
  level1Name := []
  level2Name := []

/-- One turn of the loop goes on, or the call returns: `some` name with `TRUE`, or `FALSE`. -/
inductive Turn
  | again (d : Dirinfo)
  | ret (r : Option Name) (d : Dirinfo)

/-- `opendir` of a directory at level 1. -/
def CacheTree.opendir1 (tree : CacheTree) (level1Name : Name) : Option (List (Name × List Name)) :=
  tree.level0.lookup level1Name

/-- `opendir` of a directory at level 2. -/
def CacheTree.opendir2 (tree : CacheTree) (level1Name level2Name : Name) : Option (List Name) :=
  (tree.opendir1 level1Name).bind fun dirs => dirs.lookup level2Name

/-- `readdir` at level 2. -/
def turn2 (d : Dirinfo) : List Name → Turn
  | [] => .again { d with level2 := none }
  | name :: rest =>
    let d := { d with level2 := some rest }
    if isDot name then .again d
    else .ret (some (cut (joinPath d.level1Name d.level2Name name))) d

/-- `readdir` at level 1. The entries are counted, with the dots and the end, and those of other threads
are skipped. -/
def turn1 (tree : CacheTree) (index mod : UInt32) (d : Dirinfo) (entries : List Name) : Turn :=
  let d := { d with level1 := some entries.tail, level1Cnt := d.level1Cnt + 1 }
  if 1 < mod ∧ d.level1Cnt % mod ≠ index then .again d
  else match entries with
    | [] => .again { d with level1 := none }
    | name :: _ =>
      if isDot name then .again d
      else
        let d := { d with level2Name := name }
        match tree.opendir2 d.level1Name name with
        | none => .ret none d
        | some files => .again { d with level2 := some files }

/-- `readdir` at level 0. When the directory cannot be opened, the name in the `dirent` is its name. -/
def turn0 (tree : CacheTree) (d : Dirinfo) : List Name → Turn
  | [] => .ret none d
  | name :: rest =>
    let d := { d with level0 := rest }
    if isDot name then .again d
    else
      let d := { d with level1Name := name, level1Cnt := 0 }
      match tree.opendir1 name with
      | none => .ret (some name) d
      | some dirs => .again { d with level1 := some (dirs.map Prod.fst) }

/-- One turn of the loop, on the lowest directory that is open. -/
def turn (tree : CacheTree) (index mod : UInt32) (d : Dirinfo) : Turn :=
  match d.level2, d.level1 with
  | some files, _ => turn2 d files
  | none, some entries => turn1 tree index mod d entries
  | none, none => turn0 tree d d.level0

/-- `cache_content_local_cache_dir_iter`. -/
def localCacheDirIter (tree : CacheTree) (index mod : UInt32) :
    ℕ → Dirinfo → Option (Option Name × Dirinfo)
  | 0, _ => none
  | fuel + 1, d =>
    match turn tree index mod d with
    | .again d => localCacheDirIter tree index mod fuel d
    | .ret r d => some (r, d)

/-- The calls of one thread, until `FALSE` is returned. -/
def collect (tree : CacheTree) (index mod : UInt32) (fuel : ℕ) : ℕ → Dirinfo → Option (List Name)
  | 0, _ => none
  | calls + 1, d =>
    (localCacheDirIter tree index mod fuel d).bind fun (r, d) =>
      match r with
      | none => some []
      | some name => (collect tree index mod fuel calls d).map (name :: ·)

/-! ## What the calls return -/

/-- The calls return these names, and then `FALSE`. -/
inductive Returns (tree : CacheTree) (index mod : UInt32) : Dirinfo → List Name → Prop
  | again {d d' : Dirinfo} {l : List Name} (hturn : turn tree index mod d = .again d')
      (hrest : Returns tree index mod d' l) : Returns tree index mod d l
  | entry {d d' : Dirinfo} {name : Name} {l : List Name}
      (hturn : turn tree index mod d = .ret (some name) d') (hrest : Returns tree index mod d' l) :
      Returns tree index mod d (name :: l)
  | stop {d d' : Dirinfo} (hturn : turn tree index mod d = .ret none d') :
      Returns tree index mod d []

variable {tree : CacheTree} {index mod : UInt32} {d d' : Dirinfo} {l : List Name}

variable {n : ℕ}

/-- More fuel does not change a name that came out. -/
lemma localCacheDirIter_mono {m : ℕ} (hle : n ≤ m) {r : Option Name × Dirinfo}
    (hrun : localCacheDirIter tree index mod n d = some r) : localCacheDirIter tree index mod m d = some r := by
  induction n generalizing m d with
  | zero => cases hrun
  | succ n ih =>
    cases m with
    | zero => omega
    | succ m =>
      rw [localCacheDirIter] at hrun ⊢
      cases hturn : turn tree index mod d with
      | ret r d' =>
        rw [hturn] at hrun
        exact hrun
      | again d' =>
        rw [hturn] at hrun
        exact ih (by omega) hrun

/-- More fuel does not change the names that were collected. -/
lemma collect_mono {m calls : ℕ} (hle : n ≤ m) (hrun : collect tree index mod n calls d = some l) :
    collect tree index mod m calls d = some l := by
  induction calls generalizing d l with
  | zero => cases hrun
  | succ calls ih =>
    rw [collect] at hrun ⊢
    obtain ⟨⟨r, d'⟩, hiter, hrest⟩ := Option.bind_eq_some_iff.mp hrun
    rw [localCacheDirIter_mono hle hiter, Option.bind_some]
    cases r with
    | none => exact hrest
    | some name =>
      obtain ⟨l', hl', rfl⟩ := Option.map_eq_some_iff.mp hrest
      show (collect tree index mod m calls d').map (name :: ·) = some (name :: l')
      rw [ih hl']
      rfl

/-- A turn that gives no name costs one unit of fuel. -/
lemma collect_again (hturn : turn tree index mod d = .again d') {calls : ℕ}
    (hrun : collect tree index mod n calls d' = some l) : collect tree index mod (n + 1) calls d = some l := by
  cases calls with
  | zero => cases hrun
  | succ calls =>
    have hiter : localCacheDirIter tree index mod (n + 1) d = localCacheDirIter tree index mod n d' := by
      rw [localCacheDirIter, hturn]
    rw [collect] at hrun ⊢
    rw [hiter]
    obtain ⟨⟨r, d''⟩, hiter', hrest⟩ := Option.bind_eq_some_iff.mp hrun
    rw [hiter', Option.bind_some]
    cases r with
    | none => exact hrest
    | some name =>
      obtain ⟨l', hl', rfl⟩ := Option.map_eq_some_iff.mp hrest
      show (collect tree index mod (n + 1) calls d'').map (name :: ·) = some (name :: l')
      rw [collect_mono (Nat.le_succ n) hl']
      rfl

/-- Enough fuel gives the names. -/
theorem Returns.collect (h : Returns tree index mod d l) :
    ∃ n, ∀ fuel ≥ n, ∀ calls > l.length, collect tree index mod fuel calls d = some l := by
  induction h with
  | @again d d' l hturn hrest ih =>
    obtain ⟨n, hn⟩ := ih
    refine ⟨n + 1, fun fuel hfuel calls hcalls => ?_⟩
    obtain ⟨k, rfl⟩ : ∃ k, fuel = k + 1 := ⟨fuel - 1, by omega⟩
    exact collect_again hturn (hn k (by omega) calls hcalls)
  | @entry d d' name l hturn hrest ih =>
    obtain ⟨n, hn⟩ := ih
    refine ⟨n + 1, fun fuel hfuel calls hcalls => ?_⟩
    cases calls with
    | zero => omega
    | succ calls =>
      have hstep : localCacheDirIter tree index mod fuel d = some (some name, d') := by
        obtain ⟨k, rfl⟩ : ∃ k, fuel = k + 1 := ⟨fuel - 1, by omega⟩
        rw [localCacheDirIter, hturn]
      rw [FileContent.collect, hstep, Option.bind_some]
      show (FileContent.collect tree index mod fuel calls d').map (name :: ·) = some (name :: l)
      rw [hn fuel (by omega) calls (by simpa using hcalls)]
      rfl
  | @stop d d' hturn =>
    refine ⟨1, fun fuel hfuel calls hcalls => ?_⟩
    obtain ⟨k, rfl⟩ : ∃ k, fuel = k + 1 := ⟨fuel - 1, by omega⟩
    obtain ⟨c, rfl⟩ : ∃ c, calls = c + 1 := ⟨calls - 1, by omega⟩
    rw [FileContent.collect, localCacheDirIter, hturn]
    rfl

/-! ## One directory after the other -/

/-- The thread does not skip the entry that is counted as `c`. -/
def mine (index mod c : UInt32) : Prop := ¬ (1 < mod ∧ c % mod ≠ index)

instance (index mod c : UInt32) : Decidable (mine index mod c) :=
  inferInstanceAs (Decidable (¬ _))

/-- The paths of the files of a directory at level 2. -/
def filesOf (level1Name : Name) (e : Name × List Name) : List Name :=
  if isDot e.1 then []
  else (e.2.filter fun f => !isDot f).map (joinPath level1Name e.1)

/-- The paths that a thread returns of a directory at level 1, behind `c` entries. -/
def served (index mod : UInt32) (level1Name : Name) : UInt32 → List (Name × List Name) → List Name
  | _, [] => []
  | c, e :: rest =>
    (if mine index mod (c + 1) then filesOf level1Name e else []) ++
      served index mod level1Name (c + 1) rest

/-- The paths of all files. -/
def CacheTree.files (tree : CacheTree) : List Name :=
  tree.level0.flatMap fun d => if isDot d.1 then [] else d.2.flatMap (filesOf d.1)

/-- The paths that a thread returns. -/
def CacheTree.share (tree : CacheTree) (mod index : UInt32) : List Name :=
  tree.level0.flatMap fun d => if isDot d.1 then [] else served index mod d.1 0 d.2

variable {files : List Name}

/-- The files of an open bottom directory come out, cut to the buffer. -/
lemma returns_level2 (hrest : Returns tree index mod { d with level2 := none } l) :
    Returns tree index mod { d with level2 := some files }
      (((files.filter fun f => !isDot f).map (joinPath d.level1Name d.level2Name)).map cut ++ l) := by
  induction files with
  | nil => exact .again rfl hrest
  | cons f files ih =>
    by_cases hdot : isDot f = true
    · have hturn : turn tree index mod { d with level2 := some (f :: files) } =
          .again { d with level2 := some files } := by
        show turn2 _ (f :: files) = _
        rw [turn2, if_pos hdot]
      rw [List.filter_cons_of_neg (by simpa using hdot)]
      exact .again hturn ih
    · have hturn : turn tree index mod { d with level2 := some (f :: files) } =
          .ret (some (cut (joinPath d.level1Name d.level2Name f))) { d with level2 := some files } := by
        show turn2 _ (f :: files) = _
        rw [turn2, if_neg hdot]
      rw [List.filter_cons_of_pos (by simpa using hdot), List.map_cons, List.map_cons, List.cons_append]
      exact .entry hturn ih

variable {entries : List Name} {c : UInt32}

lemma turn_skip (hskip : ¬ mine index mod (c + 1)) :
    turn tree index mod { d with level1 := some entries, level2 := none, level1Cnt := c } =
      .again { d with level1 := some entries.tail, level2 := none, level1Cnt := c + 1 } := by
  show turn1 tree index mod _ entries = _
  unfold turn1
  exact if_pos (not_not.mp hskip)

lemma turn_end (hmine : mine index mod (c + 1)) :
    turn tree index mod { d with level1 := some [], level2 := none, level1Cnt := c } =
      .again { d with level1 := none, level2 := none, level1Cnt := c + 1 } := by
  show turn1 tree index mod _ [] = _
  unfold turn1
  exact if_neg hmine

variable {e : Name}

lemma turn_dot (hmine : mine index mod (c + 1)) (hdot : isDot e = true) :
    turn tree index mod { d with level1 := some (e :: entries), level2 := none, level1Cnt := c } =
      .again { d with level1 := some entries, level2 := none, level1Cnt := c + 1 } := by
  show turn1 tree index mod _ (e :: entries) = _
  unfold turn1
  rw [if_neg hmine]
  exact if_pos hdot

/-- A directory entry of this thread is opened. -/
lemma turn_open (hmine : mine index mod (c + 1)) (hdot : isDot e ≠ true)
    (hopen : tree.opendir2 d.level1Name e = some files) :
    turn tree index mod { d with level1 := some (e :: entries), level2 := none, level1Cnt := c } =
      .again { d with level1 := some entries, level2 := some files, level1Cnt := c + 1, level2Name := e } := by
  show turn1 tree index mod _ (e :: entries) = _
  unfold turn1
  rw [if_neg hmine]
  dsimp only
  rw [if_neg hdot, hopen]
  rfl

/-- The last entry of a level 1 directory: the scan goes back to level 0. -/
lemma returns_end (k : ℕ) (hmine : mine index mod (c + UInt32.ofNat (k + 1)))
    (hrest : ∀ c', Returns tree index mod { d with level1 := none, level2 := none, level1Cnt := c' } l) :
    Returns tree index mod { d with level1 := some [], level2 := none, level1Cnt := c } l := by
  induction k generalizing c with
  | zero => exact .again (turn_end hmine) (hrest _)
  | succ k ih =>
    by_cases hfirst : mine index mod (c + 1)
    · exact .again (turn_end hfirst) (hrest _)
    · have hcount : c + UInt32.ofNat (k + 1 + 1) = c + 1 + UInt32.ofNat (k + 1) := by
        rw [UInt32.ofNat_add (k + 1) 1, UInt32.add_assoc, UInt32.add_comm 1]
        rfl
      exact .again (turn_skip hfirst) (ih (hcount ▸ hmine))

/-- The entries of a thread, by the counter modulo the number of threads. -/
lemma mine_iff (hindex : index < mod) (c : UInt32) : mine index mod c ↔ c % mod = index := by
  have hi : index.toNat < mod.toNat := hindex
  constructor
  · intro h
    by_cases hone : 1 < mod
    · exact not_not.mp fun hne => h ⟨hone, hne⟩
    · -- there is one thread
      have hle : mod.toNat ≤ 1 := Nat.le_of_not_lt hone
      apply UInt32.toNat.inj
      rw [UInt32.toNat_mod, show mod.toNat = 1 by omega]
      omega
  · rintro h ⟨-, hne⟩
    exact hne h

/-- Each thread gets its turn after finitely many entries. -/
lemma exists_mine (hindex : index < mod) (c : UInt32) :
    ∃ k, mine index mod (c + UInt32.ofNat (k + 1)) := by
  have hi : index.toNat < mod.toNat := hindex
  have hindexed : c + UInt32.ofNat ((index - c - 1).toNat + 1) = index := by
    rw [UInt32.ofNat_add, UInt32.ofNat_toNat]
    show c + (index - c - 1 + 1) = index
    rw [UInt32.sub_add_cancel, UInt32.add_comm, UInt32.sub_add_cancel]
  refine ⟨(index - c - 1).toNat, (mine_iff hindex _).mpr ?_⟩
  rw [hindexed]
  apply UInt32.toNat.inj
  rw [UInt32.toNat_mod, Nat.mod_eq_of_lt hi]

/-- The entries of a level 1 directory, by induction on what is left of it. -/
lemma returns_level1 (hindex : index < mod) {entries : List (Name × List Name)}
    (hopen : ∀ e ∈ entries, tree.opendir2 d.level1Name e.1 = some e.2)
    (hrest : ∀ c name, Returns tree index mod
      { d with level1 := none, level2 := none, level1Cnt := c, level2Name := name } l)
    (c : UInt32) (name : Name) :
    Returns tree index mod
      { d with level1 := some (entries.map Prod.fst), level2 := none, level1Cnt := c, level2Name := name }
      ((served index mod d.level1Name c entries).map cut ++ l) := by
  induction entries generalizing c name with
  | nil =>
    obtain ⟨k, hk⟩ := exists_mine hindex c
    exact returns_end (d := { d with level2Name := name }) k hk fun c' => hrest c' name
  | cons e entries ih =>
    have hnext := ih (fun g hg => hopen g (List.mem_cons_of_mem e hg)) (c + 1)
    rw [served, List.map_append, List.append_assoc]
    by_cases hmine : mine index mod (c + 1)
    · rw [if_pos hmine, filesOf]
      by_cases hdot : isDot e.1 = true
      · rw [if_pos hdot, List.map_nil, List.nil_append]
        exact .again (turn_dot (d := { d with level2Name := name }) hmine hdot) (hnext name)
      · rw [if_neg hdot]
        apply Returns.again
        · exact turn_open (d := { d with level2Name := name }) hmine hdot (hopen e List.mem_cons_self)
        · show Returns tree index mod { d with
            level1 := some (entries.map Prod.fst), level2 := some e.2, level1Cnt := c + 1, level2Name := e.1 } _
          exact returns_level2 (d := { d with
            level1 := some (entries.map Prod.fst), level2 := none, level1Cnt := c + 1, level2Name := e.1 })
            (hnext e.1)
    · rw [if_neg hmine, List.map_nil, List.nil_append]
      exact .again (turn_skip (d := { d with level2Name := name }) hmine) (hnext name)

/-- A name that comes once is looked up. -/
lemma lookup_of_mem {α : Type*} {dirs : List (Name × α)} (hnodup : (dirs.map Prod.fst).Nodup) {e : Name × α}
    (he : e ∈ dirs) : dirs.lookup e.1 = some e.2 := by
  obtain ⟨pre, post, rfl⟩ := List.append_of_mem he
  apply List.lookup_eq_some_iff.mpr
  refine ⟨pre, post, rfl, fun p hp => ?_⟩
  rw [List.map_append, List.map_cons, List.nodup_append] at hnodup
  have hne := hnodup.2.2 p.1 (List.mem_map_of_mem hp) e.1 List.mem_cons_self
  exact bne_iff_ne.mpr hne.symm

lemma turn0_dot {dirs : List Name} (hdot : isDot e = true) :
    turn tree index mod { d with level0 := e :: dirs, level1 := none, level2 := none } =
      .again { d with level0 := dirs, level1 := none, level2 := none } := by
  show turn0 tree _ (e :: dirs) = _
  rw [turn0, if_pos hdot]

lemma turn0_open {dirs : List Name} {entries : List (Name × List Name)} (hdot : isDot e ≠ true)
    (hopen : tree.opendir1 e = some entries) :
    turn tree index mod { d with level0 := e :: dirs, level1 := none, level2 := none } = .again { d with
      level0 := dirs, level1 := some (entries.map Prod.fst), level2 := none, level1Cnt := 0, level1Name := e } := by
  show turn0 tree _ (e :: dirs) = _
  rw [turn0, if_neg hdot]
  dsimp only
  rw [hopen]

/-- The top directory: each level 1 directory starts with a counter of its own. -/
lemma returns_level0 (hindex : index < mod) {dirs : List (Name × List (Name × List Name))}
    (hdirs : ∀ e ∈ dirs, e ∈ tree.level0) (d : Dirinfo) :
    Returns tree index mod { d with level0 := dirs.map Prod.fst, level1 := none, level2 := none }
      ((dirs.flatMap fun e => if isDot e.1 then [] else served index mod e.1 0 e.2).map cut) := by
  induction dirs generalizing d with
  | nil => exact .stop rfl
  | cons e dirs ih =>
    have hnext := ih fun g hg => hdirs g (List.mem_cons_of_mem e hg)
    have he := hdirs e List.mem_cons_self
    rw [List.flatMap_cons, List.map_append]
    by_cases hdot : isDot e.1 = true
    · rw [if_pos hdot, List.map_nil, List.nil_append]
      exact .again (turn0_dot hdot) (hnext d)
    · have hopen : tree.opendir1 e.1 = some e.2 := lookup_of_mem tree.nodup0 he
      rw [if_neg hdot]
      apply Returns.again (turn0_open hdot hopen)
      refine returns_level1 (d := { d with level0 := dirs.map Prod.fst, level1Name := e.1 }) hindex ?_ ?_ 0 _
      swap
      · exact fun c name => hnext { d with level1Cnt := c, level1Name := e.1, level2Name := name }
      intro g hg
      show (tree.opendir1 e.1).bind (fun dirs => dirs.lookup g.1) = some g.2
      rw [hopen]
      exact lookup_of_mem (tree.nodup1 e he) hg

lemma returns_share (tree : CacheTree) (hindex : index < mod) :
    Returns tree index mod (localCacheOpendir tree) ((tree.share mod index).map cut) :=
  returns_level0 hindex (fun _ he => he) (localCacheOpendir tree)

/-! ## Sharing out the files -/

/-- The threads. -/
def indices (mod : UInt32) : List UInt32 := (List.range mod.toNat).map UInt32.ofNat

/-- The threads are numbered below their count. -/
lemma mem_indices : index ∈ indices mod ↔ index < mod := by
  have hlt := mod.toNat_lt
  constructor
  · intro h
    obtain ⟨k, hk, rfl⟩ := List.mem_map.mp h
    have hk' := List.mem_range.mp hk
    show (UInt32.ofNat k).toNat < mod.toNat
    rw [UInt32.toNat_ofNat_of_lt' (Nat.lt_trans hk' hlt)]
    exact hk'
  · intro h
    exact List.mem_map.mpr ⟨index.toNat, List.mem_range.mpr h, UInt32.ofNat_toNat⟩

/-- No thread number comes twice. -/
lemma indices_nodup (mod : UInt32) : (indices mod).Nodup := by
  have hlt := mod.toNat_lt
  apply List.Nodup.map_on
  · intro k hk k' hk' heq
    have hk := List.mem_range.mp hk
    have hk' := List.mem_range.mp hk'
    have htoNat := congrArg UInt32.toNat heq
    rw [UInt32.toNat_ofNat_of_lt' (Nat.lt_trans hk hlt), UInt32.toNat_ofNat_of_lt' (Nat.lt_trans hk' hlt)] at htoNat
    exact htoNat
  · exact List.nodup_range

/-- A part that one index alone contributes. -/
lemma flatMap_one {ι α : Type*} [DecidableEq ι] {is : List ι} (hnodup : is.Nodup) {i : ι} (hi : i ∈ is)
    (part : List α) : (is.flatMap fun j => if i = j then part else []) = part := by
  obtain ⟨pre, post, rfl⟩ := List.append_of_mem hi
  have hpre : (pre.flatMap fun j => if i = j then part else []) = [] := by
    apply List.flatMap_eq_nil_iff.mpr
    intro j hj
    have hne := (List.nodup_append.mp hnodup).2.2 j hj i List.mem_cons_self
    exact if_neg hne.symm
  have hpost : (post.flatMap fun j => if i = j then part else []) = [] := by
    apply List.flatMap_eq_nil_iff.mpr
    intro j hj
    refine if_neg ?_
    rintro rfl
    exact (List.nodup_cons.mp (List.nodup_append.mp hnodup).2.1).1 hj
  rw [List.flatMap_append, List.flatMap_cons, hpre, hpost, if_pos rfl, List.nil_append, List.append_nil]

/-- The shares of all threads in one level 1 directory make up the whole of it. -/
lemma served_perm (hmod : 0 < mod) (level1Name : Name) (entries : List (Name × List Name)) (c : UInt32) :
    ((indices mod).flatMap fun i => served i mod level1Name c entries).Perm
      (entries.flatMap (filesOf level1Name)) := by
  induction entries generalizing c with
  | nil =>
    have hnil : ((indices mod).flatMap fun i => served i mod level1Name c []) = [] :=
      List.flatMap_eq_nil_iff.mpr fun _ _ => rfl
    rw [hnil]
    rfl
  | cons e entries ih =>
    have hthread : (c + 1) % mod ∈ indices mod := by
      apply mem_indices.mpr
      show ((c + 1) % mod).toNat < mod.toNat
      rw [UInt32.toNat_mod]
      exact Nat.mod_lt _ hmod
    have hone : ((indices mod).flatMap fun i => if mine i mod (c + 1) then filesOf level1Name e else []) =
        filesOf level1Name e := by
      refine (List.flatMap_congr fun i hi => ?_).trans (flatMap_one (indices_nodup mod) hthread (filesOf level1Name e))
      exact if_congr (mine_iff (mem_indices.mp hi) (c + 1)) rfl rfl
    have hsplit := List.flatMap_append_perm (indices mod)
      (fun i => if mine i mod (c + 1) then filesOf level1Name e else [])
      fun i => served i mod level1Name (c + 1) entries
    rw [hone] at hsplit
    exact hsplit.symm.trans ((ih (c + 1)).append_left _)

/-- The shares of all threads make up the tree. -/
lemma share_perm (tree : CacheTree) (hmod : 0 < mod) :
    ((indices mod).flatMap (tree.share mod)).Perm tree.files := by
  unfold CacheTree.share CacheTree.files
  induction tree.level0 with
  | nil =>
    have hnil : ((indices mod).flatMap fun _ => ([] : List Name)) = [] :=
      List.flatMap_eq_nil_iff.mpr fun _ _ => rfl
    exact List.Perm.of_eq hnil
  | cons d level0 ih =>
    have hfirst : ((indices mod).flatMap fun i => if isDot d.1 then [] else served i mod d.1 0 d.2).Perm
        (if isDot d.1 then [] else d.2.flatMap (filesOf d.1)) := by
      by_cases hdot : isDot d.1 = true
      · simp only [if_pos hdot]
        rw [List.flatMap_eq_nil_iff.mpr fun _ _ => rfl]
      · simp only [if_neg hdot]
        exact served_perm hmod d.1 d.2 0
    exact (List.flatMap_append_perm _ _ _).symm.trans (hfirst.append ih)

variable {a : Name}

/-- A path splits at its first slash in one way only. -/
lemma append_slash_inj {a' rest rest' : Name} (ha : slash ∉ a) (ha' : slash ∉ a')
    (h : a ++ slash :: rest = a' ++ slash :: rest') : a = a' ∧ rest = rest' := by
  induction a generalizing a' with
  | nil =>
    cases a' with
    | nil => exact ⟨rfl, (List.cons.inj h).2⟩
    | cons x a' => exact absurd ((List.cons.inj h).1 ▸ List.mem_cons_self) ha'
  | cons x a ih =>
    cases a' with
    | nil => exact absurd ((List.cons.inj h).1 ▸ List.mem_cons_self) ha
    | cons x' a' =>
      obtain ⟨hx, h⟩ := List.cons.inj h
      obtain ⟨haa', hrest⟩ := ih (fun hmem => ha (List.mem_cons_of_mem x hmem))
        (fun hmem => ha' (List.mem_cons_of_mem x' hmem)) h
      exact ⟨by rw [hx, haa'], hrest⟩

lemma joinPath_inj {a' b b' f f' : Name} (ha : slash ∉ a) (ha' : slash ∉ a') (hb : slash ∉ b)
    (hb' : slash ∉ b') (h : joinPath a b f = joinPath a' b' f') : a = a' ∧ b = b' ∧ f = f' := by
  unfold joinPath at h
  rw [List.append_assoc, List.append_assoc] at h
  obtain ⟨haa', hrest⟩ := append_slash_inj ha ha' h
  exact ⟨haa', append_slash_inj hb hb' hrest⟩

/-- The paths of a level 1 directory. -/
lemma mem_filesOf {path : Name} {e : Name × List Name} (h : path ∈ filesOf a e) :
    ∃ f ∈ e.2, path = joinPath a e.1 f := by
  unfold filesOf at h
  by_cases hdot : isDot e.1 = true
  · rw [if_pos hdot] at h
    cases h
  · rw [if_neg hdot] at h
    obtain ⟨f, hf, rfl⟩ := List.mem_map.mp h
    exact ⟨f, (List.mem_filter.mp hf).1, rfl⟩

/-- No path comes twice in a tree. -/
lemma files_nodup (tree : CacheTree) : tree.files.Nodup := by
  apply List.nodup_flatMap.mpr
  constructor
  · intro d hd
    by_cases hdot : isDot d.1 = true
    · rw [if_pos hdot]
      exact List.nodup_nil
    rw [if_neg hdot]
    apply List.nodup_flatMap.mpr
    constructor
    · intro e he
      unfold filesOf
      by_cases hdot : isDot e.1 = true
      · rw [if_pos hdot]
        exact List.nodup_nil
      rw [if_neg hdot]
      apply ((tree.nodup2 d hd e he).filter _).map
      intro f f' h
      exact (List.cons.inj (List.append_cancel_left h)).2
    · -- paths of one level 1 directory differ below it
      apply List.Pairwise.imp_of_mem _ (List.pairwise_map.mp (tree.nodup1 d hd))
      intro e e' he he' hne path hpath hpath'
      obtain ⟨f, -, rfl⟩ := mem_filesOf hpath
      obtain ⟨f', -, heq⟩ := mem_filesOf hpath'
      exact hne (joinPath_inj (tree.noSlash0 d hd) (tree.noSlash0 d hd) (tree.noSlash1 d hd e he)
        (tree.noSlash1 d hd e' he') heq).2.1
  · -- paths of two of them differ in it
    apply List.Pairwise.imp_of_mem _ (List.pairwise_map.mp tree.nodup0)
    intro d d' hd hd' hne path hpath hpath'
    have hmem : ∀ d ∈ tree.level0, path ∈ (if isDot d.1 then [] else d.2.flatMap (filesOf d.1)) →
        ∃ e ∈ d.2, ∃ f, path = joinPath d.1 e.1 f := by
      intro d hd h
      by_cases hdot : isDot d.1 = true
      · rw [if_pos hdot] at h
        cases h
      · rw [if_neg hdot] at h
        obtain ⟨e, he, hpath⟩ := List.mem_flatMap.mp h
        obtain ⟨f, -, hf⟩ := mem_filesOf hpath
        exact ⟨e, he, f, hf⟩
    obtain ⟨e, he, f, rfl⟩ := hmem d hd hpath
    obtain ⟨e', he', f', heq⟩ := hmem d' hd' hpath'
    exact hne (joinPath_inj (tree.noSlash0 d hd) (tree.noSlash0 d' hd') (tree.noSlash1 d hd e he)
      (tree.noSlash1 d' hd' e' he') heq).1

/-- Each file is in the list of one thread, and there only once. -/
structure Partitioned (lists : UInt32 → List Name) (mod : UInt32) (files : List Name) : Prop where
  exactlyOne : ∀ path ∈ files, ∃! i, i < mod ∧ path ∈ lists i
  once : ∀ i < mod, (lists i).Nodup
  only : ∀ i < mod, ∀ path ∈ lists i, path ∈ files

/-- Lists that together are the files without repetition partition them. -/
lemma partitioned_of_perm {lists : UInt32 → List Name} (hperm : ((indices mod).flatMap lists).Perm files)
    (hnodup : files.Nodup) : Partitioned lists mod files := by
  obtain ⟨honce, hdisjoint⟩ := List.nodup_flatMap.mp (hperm.nodup_iff.mpr hnodup)
  refine ⟨fun path hpath => ?_, fun i hi => honce i (mem_indices.mpr hi), fun i hi path hpath => ?_⟩
  · obtain ⟨i, hi, hmem⟩ := List.mem_flatMap.mp (hperm.mem_iff.mpr hpath)
    refine ⟨i, ⟨mem_indices.mp hi, hmem⟩, ?_⟩
    rintro j ⟨hj, hmem'⟩
    by_contra hne
    have hsymm : Std.Symm (Function.onFun List.Disjoint lists) := ⟨fun _ _ h _ hy hx => h hx hy⟩
    exact hdisjoint.forall (mem_indices.mpr hj) hi hne hmem' hmem
  · exact hperm.mem_iff.mp (List.mem_flatMap.mpr ⟨i, mem_indices.mpr hi, hpath⟩)

/-- The calls of the threads come to an end, and each gives the names of its list. -/
def Collected (tree : CacheTree) (mod : UInt32) (lists : UInt32 → List Name) : Prop :=
  ∀ i < mod, ∃ n, ∀ fuel ≥ n, ∀ calls ≥ n,
    collect tree i mod fuel calls (localCacheOpendir tree) = some (lists i)

lemma collected_share (tree : CacheTree) (mod : UInt32) :
    Collected tree mod fun i => (tree.share mod i).map cut := by
  intro i hi
  obtain ⟨n, hn⟩ := (returns_share tree hi).collect
  refine ⟨n + ((tree.share mod i).map cut).length + 1, fun fuel hfuel calls hcalls => ?_⟩
  exact hn fuel (by omega) calls (by omega)

lemma Collected.unique {lists lists' : UInt32 → List Name} (h : Collected tree mod lists)
    (h' : Collected tree mod lists') (hi : index < mod) : lists index = lists' index := by
  obtain ⟨n, hn⟩ := h index hi
  obtain ⟨n', hn'⟩ := h' index hi
  have heq := hn (n + n') (by omega) (n + n') (by omega)
  rw [hn' (n + n') (by omega) (n + n') (by omega)] at heq
  exact (Option.some.inj heq).symm

/-- Paths that fit into a `dirent` are not cut. -/
lemma collected_of_fits (hmod : 0 < mod) (hfits : ∀ path ∈ tree.files, path.length < maxnamlen) :
    Collected tree mod (tree.share mod) := by
  intro i hi
  have hcut : ∀ path ∈ tree.share mod i, cut path = id path := by
    intro path hpath
    have hmem : path ∈ tree.files :=
      (share_perm tree hmod).mem_iff.mp (List.mem_flatMap.mpr ⟨i, mem_indices.mpr hi, hpath⟩)
    exact List.take_of_length_le (Nat.le_pred_of_lt (hfits path hmem))
  have hthread := collected_share tree mod i hi
  simp only [List.map_congr_left hcut, List.map_id] at hthread
  exact hthread

/-- The calls of each thread come to an end, and the threads share out the files. The path of a file
is cut to what a `dirent` holds. -/
theorem partitioned (tree : CacheTree) (mod : UInt32) (hmod : 1 ≤ mod) :
    ∃ lists : UInt32 → List Name, Partitioned lists mod tree.files ∧
      Collected tree mod (fun i => (lists i).map cut) ∧
      ((∀ path ∈ tree.files, path.length < maxnamlen) → Collected tree mod lists) := by
  have hpos : 0 < mod := hmod
  have hparts := partitioned_of_perm (share_perm tree hpos) (files_nodup tree)
  exact ⟨tree.share mod, hparts, collected_share tree mod, collected_of_fits hpos⟩

/-- An export with two directories, the second of which has two files. -/
def sampleTree : CacheTree where
  level0 := [([46], []), ([101], [([49], [[97]]), ([46, 46], []), ([50], [[98], [46], [99]])])]
  nodup0 := by decide
  nodup1 := by decide
  nodup2 := by decide
  noSlash0 := by decide
  noSlash1 := by decide
  short0 := by decide
  short1 := by decide

theorem partitioned_sampleTree : ∃ lists : UInt32 → List Name, Partitioned lists 2 sampleTree.files ∧
    Collected sampleTree 2 lists := by
  obtain ⟨lists, hparts, -, hwhole⟩ := partitioned sampleTree 2 (by decide)
  exact ⟨lists, hparts, hwhole (by decide)⟩

/-- A name of 100 bytes. -/
def longName : Name := List.replicate 100 97

/-- A file whose path has 302 bytes. -/
def longTree : CacheTree where
  level0 := [(longName, [(longName, [longName])])]
  nodup0 := List.nodup_singleton _
  nodup1 := by simp
  nodup2 := by simp
  noSlash0 := by decide
  noSlash1 := by decide
  short0 := by decide
  short1 := by decide

/-- The path that is returned for it leads to no file. -/
theorem not_partitioned_longTree :
    ¬ ∃ lists : UInt32 → List Name, Partitioned lists 1 longTree.files ∧ Collected longTree 1 lists := by
  rintro ⟨lists, hparts, hcollected⟩
  have heq := hcollected.unique (collected_share longTree 1) (show 0 < 1 by decide)
  have hshort : cut (joinPath longName longName longName) ∈ lists 0 := by
    rw [heq]
    exact List.mem_map_of_mem (by decide +kernel)
  exact absurd (hparts.only 0 (by decide) _ hshort) (by decide +kernel)

end Ganesha.FileContent
