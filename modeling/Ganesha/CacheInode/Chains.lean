import Mathlib.Data.List.Perm.Basic
import Mathlib.Tactic.Tauto
import Ganesha.CacheInode.Dirents

/-!
# The nodes of a directory
-/

namespace Ganesha.CacheInode.Dirents
open Readdir (childrenArraySize)

variable {nodes : List Node} {P Q : Dirent → Bool} {node pos pos' : ℕ} {i j : Slot} {n : Node} {d : Dirent}

/-- The dirent in the slot `i` of the node at `pos`. -/
def slotAt (nodes : List Node) (pos : ℕ) (i : Slot) : Option Dirent :=
  (nodes[pos]?).map fun n => n.dirEntries i

lemma slotAt_eq_some : slotAt nodes pos i = some d ↔
    ∃ n, nodes[pos]? = some n ∧ n.dirEntries i = d :=
  Option.map_eq_some_iff

/-- The last node says that it is the last one, no node before it but the first one does, and if the
first one does there are no dirents behind it. -/
structure Chained (nodes : List Node) : Prop where
  ne : nodes ≠ []
  single : nodes.length = 1 → ∀ n, nodes[0]? = some n → n.endOfDir = true
  conts : ∀ pos n, nodes[pos + 1]? = some n → (n.endOfDir = true ↔ pos + 2 = nodes.length)
  hidden : ∀ n₀, nodes[0]? = some n₀ → n₀.endOfDir = true →
    ∀ pos n, nodes[pos + 1]? = some n → ∀ i, (n.dirEntries i).active = false

/-! ## Loops over the nodes -/

lemma Node.findSlot_eq_some (h : n.findSlot P = some i) : P (n.dirEntries i) = true := by
  have hfound := List.find?_some h
  exact hfound

/-- No slot is found if none fits. -/
lemma Node.findSlot_eq_none : n.findSlot P = none ↔ ∀ i, P (n.dirEntries i) = false := by
  unfold Node.findSlot
  rw [List.find?_eq_none]
  constructor
  · intro h i
    simpa using h i (List.mem_finRange i)
  · intro h i _
    rw [h i]
    exact Bool.false_ne_true

/-- The scan stops at the first slot of the first node that has one, or at the end of the directory. -/
lemma scan_from (l : List Node) (pos : ℕ) (hend : ∃ n ∈ l, n.endOfDir = true) :
    (∃ (k : ℕ) (i : Slot) (n : Node), scan P pos l = some (some (pos + k, i)) ∧ l[k]? = some n ∧
      P (n.dirEntries i) = true) ∨
    (scan P pos l = some none ∧ ∃ (k : ℕ) (n : Node), l[k]? = some n ∧ n.endOfDir = true ∧
      ∀ k' ≤ k, ∀ n, l[k']? = some n → ∀ i, P (n.dirEntries i) = false) := by
  induction l generalizing pos with
  | nil =>
    obtain ⟨n, hn, -⟩ := hend
    cases hn
  | cons n l ih =>
    unfold scan
    cases hfind : n.findSlot P with
    | some i => exact .inl ⟨0, i, n, rfl, rfl, Node.findSlot_eq_some hfind⟩
    | none =>
      have hnone := Node.findSlot_eq_none.mp hfind
      by_cases hlast : n.endOfDir = true
      · refine .inr ⟨by simp only [hlast, if_true], 0, n, rfl, hlast, fun k' hk' n' hn' => ?_⟩
        rw [Nat.le_zero.mp hk'] at hn'
        cases hn'
        exact hnone
      · have hend' : ∃ n ∈ l, n.endOfDir = true := by
          obtain ⟨n', hn', hend'⟩ := hend
          rcases List.mem_cons.mp hn' with rfl | hn'
          · exact absurd hend' hlast
          · exact ⟨n', hn', hend'⟩
        simp only [hlast, Bool.false_eq_true, if_false]
        rcases ih (pos + 1) hend' with ⟨k, i, n', hscan, hk, hP⟩ | ⟨hscan, k, n', hk, hend', hall⟩
        · refine .inl ⟨k + 1, i, n', ?_, hk, hP⟩
          rw [hscan, Nat.add_assoc, Nat.add_comm 1 k]
        · refine .inr ⟨hscan, k + 1, n', hk, hend', fun k' hk' n'' hn'' => ?_⟩
          cases k' with
          | zero =>
            cases hn''
            exact hnone
          | succ k' => exact hall k' (by omega) n'' hn''

/-- From every node on, the end of the directory is met. -/
lemma Chained.exists_end_drop (h : Chained nodes) (hlt : node < nodes.length) :
    ∃ n ∈ nodes.drop node, n.endOfDir = true := by
  obtain ⟨n, hlast⟩ : ∃ n, nodes[nodes.length - 1]? = some n :=
    ⟨_, List.getElem?_eq_getElem (by omega)⟩
  have hmem : n ∈ nodes.drop node := by
    refine List.mem_iff_getElem?.mpr ⟨nodes.length - 1 - node, ?_⟩
    rw [List.getElem?_drop]
    rw [show node + (nodes.length - 1 - node) = nodes.length - 1 by omega]
    exact hlast
  refine ⟨n, hmem, ?_⟩
  by_cases hone : nodes.length = 1
  · rw [hone] at hlast
    exact h.single hone n hlast
  · have hsucc : nodes.length - 1 = nodes.length - 2 + 1 := by omega
    rw [hsucc] at hlast
    exact (h.conts (nodes.length - 2) n hlast).mpr (by omega)

lemma Chained.exists_end (h : Chained nodes) : ∃ n ∈ nodes, n.endOfDir = true :=
  h.exists_end_drop (List.length_pos_of_ne_nil h.ne)

/-- A loop that looks for an active dirent finds one if there is one. -/
theorem scan_spec (h : Chained nodes) (hP : ∀ d, P d = true → d.active = true) :
    (∃ pos i d, scan P 0 nodes = some (some (pos, i)) ∧ slotAt nodes pos i = some d ∧ P d = true) ∨
      (scan P 0 nodes = some none ∧ ∀ pos i d, slotAt nodes pos i = some d → P d = false) := by
  rcases scan_from nodes 0 h.exists_end with ⟨k, i, n, hscan, hk, hPn⟩ | ⟨hscan, k, n, hk, hend, hall⟩
  · rw [Nat.zero_add] at hscan
    exact .inl ⟨k, i, _, hscan, slotAt_eq_some.mpr ⟨n, hk, rfl⟩, hPn⟩
  · refine .inr ⟨hscan, fun pos i d hd => ?_⟩
    obtain ⟨n', hn', rfl⟩ := slotAt_eq_some.mp hd
    by_cases hle : pos ≤ k
    · exact hall pos hle n' hn' i
    · -- the node lies behind one that says it is the last one, which is the first one
      have hlt : pos < nodes.length := (List.getElem?_eq_some_iff.mp hn').1
      cases k with
      | zero =>
        obtain ⟨pos, rfl⟩ : ∃ m, pos = m + 1 := ⟨pos - 1, by omega⟩
        have hinactive := h.hidden n hk hend pos n' hn' i
        by_contra hPn
        rw [hP _ (by simpa using hPn)] at hinactive
        cases hinactive
      | succ k =>
        have hlast := (h.conts k n hk).mp hend
        omega

/-- The scan depends on the test of the slots alone. -/
lemma scan_congr (h : ∀ n ∈ nodes, ∀ i, P (n.dirEntries i) = Q (n.dirEntries i)) :
    scan P pos nodes = scan Q pos nodes := by
  induction nodes generalizing pos with
  | nil => rfl
  | cons n l ih =>
    have hslot : n.findSlot P = n.findSlot Q := by
      unfold Node.findSlot
      simp only [h n List.mem_cons_self]
    unfold scan
    rw [hslot, ih fun n' hn' => h n' (List.mem_cons_of_mem n hn')]

/-! ## Changes of the nodes -/

variable {f : Node → Node}

lemma getElem?_modify_of_ne (h : pos ≠ pos') : (nodes.modify pos f)[pos']? = nodes[pos']? := by
  rw [List.getElem?_modify]
  simp [h]

lemma getElem?_modify_self : (nodes.modify pos f)[pos]? = (nodes[pos]?).map f := by
  rw [List.getElem?_modify]
  simp

/-- The node at `pos` changes, but not whether it is the last one; it gets a dirent only where the
loops see it. -/
lemma Chained.modify (h : Chained nodes) (hend : ∀ n, (f n).endOfDir = n.endOfDir)
    (hactive : ∀ n₀, nodes[0]? = some n₀ → n₀.endOfDir = true → 0 < pos →
      ∀ n i, ((f n).dirEntries i).active = true → (n.dirEntries i).active = true) :
    Chained (nodes.modify pos f) := by
  have hget : ∀ k n', (nodes.modify pos f)[k]? = some n' →
      ∃ n, nodes[k]? = some n ∧ n'.endOfDir = n.endOfDir ∧ (n' = n ∨ k = pos ∧ n' = f n) := by
    intro k n' hn'
    rcases eq_or_ne pos k with rfl | hne
    · rw [getElem?_modify_self] at hn'
      obtain ⟨n, hn, rfl⟩ := Option.map_eq_some_iff.mp hn'
      exact ⟨n, hn, hend n, .inr ⟨rfl, rfl⟩⟩
    · rw [getElem?_modify_of_ne hne] at hn'
      exact ⟨n', hn', rfl, .inl rfl⟩
  refine ⟨fun hnil => h.ne ?_, fun hone n' hn' => ?_, fun k n' hn' => ?_, fun n₀' hn₀' hlast k n' hn' i => ?_⟩
  · rw [← List.length_eq_zero_iff, List.length_modify] at hnil
    exact List.length_eq_zero_iff.mp hnil
  · obtain ⟨n, hn, heq, -⟩ := hget 0 n' hn'
    rw [heq]
    rw [List.length_modify] at hone
    exact h.single hone n hn
  · obtain ⟨n, hn, heq, -⟩ := hget (k + 1) n' hn'
    rw [heq, List.length_modify]
    exact h.conts k n hn
  · obtain ⟨n₀, hn₀, heq₀, -⟩ := hget 0 n₀' hn₀'
    rw [heq₀] at hlast
    obtain ⟨n, hn, -, hcases⟩ := hget (k + 1) n' hn'
    have hinactive := h.hidden n₀ hn₀ hlast k n hn i
    rcases hcases with rfl | ⟨rfl, rfl⟩
    · exact hinactive
    · by_contra hact
      rw [hactive n₀ hn₀ hlast (Nat.succ_pos k) n i (by simpa using hact)] at hinactive
      cases hinactive

/-- A node that the loops over the chain come to. -/
def Visible (nodes : List Node) (pos : ℕ) : Prop :=
  pos = 0 ∨ ∀ n₀, nodes[0]? = some n₀ → n₀.endOfDir = false

/-- A node is seen as before if the ends stay where they are. -/
lemma Visible.modify (h : Visible nodes pos') (hend : ∀ n, (f n).endOfDir = n.endOfDir) :
    Visible (nodes.modify pos f) pos' := by
  rcases h with hzero | hfirst
  · exact .inl hzero
  · refine .inr fun n₀ hn₀ => ?_
    rcases eq_or_ne pos 0 with rfl | hne
    · rw [getElem?_modify_self] at hn₀
      obtain ⟨n, hn, rfl⟩ := Option.map_eq_some_iff.mp hn₀
      rw [hend n]
      exact hfirst n hn
    · rw [getElem?_modify_of_ne hne] at hn₀
      exact hfirst n₀ hn₀

/-- The node at `pos` says no longer that it is the last one. -/
def unend (nodes : List Node) (pos : ℕ) : List Node :=
  nodes.modify pos fun n => { n with endOfDir := false }

/-- Only a directory that was emptied has its end before the last node. -/
lemma Chained.unend_of_lt (h : Chained nodes) (hn : nodes[pos]? = some n) (hend : n.endOfDir = true)
    (hlt : pos + 1 < nodes.length) : pos = 0 ∧ Chained (unend nodes pos) := by
  have hpos : pos = 0 := by
    cases pos with
    | zero => rfl
    | succ pos =>
      have hlast := (h.conts pos n hn).mp hend
      omega
  subst hpos
  refine ⟨rfl, ?_, fun hone => ?_, fun k n' hn' => ?_, fun n₀' hn₀' hlast => ?_⟩
  · exact fun hnil => h.ne (List.length_eq_zero_iff.mp
      (by rw [← List.length_modify, ← unend, hnil]; rfl))
  · rw [unend, List.length_modify] at hone
    omega
  · rw [unend, getElem?_modify_of_ne (Nat.succ_ne_zero k).symm] at hn'
    rw [unend, List.length_modify]
    exact h.conts k n' hn'
  · rw [unend, getElem?_modify_self, hn, Option.map_some] at hn₀'
    cases hn₀'
    cases hlast

/-- A new node is put behind the last one, which is the end no more. -/
lemma Chained.unend_append {new : Node} (h : Chained nodes) (hend : new.endOfDir = true)
    (hnew : ∀ i, (new.dirEntries i).active = false) (hlast : pos + 1 = nodes.length) :
    Chained (unend (nodes ++ [new]) pos) := by
  have hlen : (unend (nodes ++ [new]) pos).length = nodes.length + 1 := by
    rw [unend, List.length_modify, List.length_append, List.length_singleton]
  have hget : ∀ k n', (unend (nodes ++ [new]) pos)[k]? = some n' →
      k ≠ pos ∧ nodes[k]? = some n' ∨ k = nodes.length ∧ n' = new ∨
        k = pos ∧ n'.endOfDir = false ∧ ∃ n, nodes[k]? = some n ∧ n'.dirEntries = n.dirEntries := by
    intro k n' hn'
    rcases eq_or_ne pos k with rfl | hne
    · rw [unend, getElem?_modify_self, List.getElem?_append_left (by omega)] at hn'
      obtain ⟨n, hn, rfl⟩ := Option.map_eq_some_iff.mp hn'
      exact .inr (.inr ⟨rfl, rfl, n, hn, rfl⟩)
    · rw [unend, getElem?_modify_of_ne hne] at hn'
      by_cases hk : k < nodes.length
      · rw [List.getElem?_append_left hk] at hn'
        exact .inl ⟨hne.symm, hn'⟩
      · -- the new node is the last one
        have hk' := (List.getElem?_eq_some_iff.mp hn').1
        rw [List.length_append, List.length_singleton] at hk'
        obtain rfl : k = nodes.length := by omega
        rw [List.getElem?_append_right le_rfl, Nat.sub_self] at hn'
        cases hn'
        exact .inr (.inl ⟨rfl, rfl⟩)
  refine ⟨?_, fun hone => ?_, fun k n' hn' => ?_, fun n₀' hn₀' hfirst k n' hn' i => ?_⟩
  · intro hnil
    rw [hnil, List.length_nil] at hlen
    omega
  · rw [hlen] at hone
    omega
  · rw [hlen]
    rcases hget (k + 1) n' hn' with ⟨hne, hn⟩ | ⟨hk, rfl⟩ | ⟨hk, hfalse, -⟩
    · have hiff := h.conts k n' hn
      constructor
      · intro htrue
        have := hiff.mp htrue
        omega
      · intro hk
        have := (List.getElem?_eq_some_iff.mp hn).1
        omega
    · rw [hend]
      exact ⟨fun _ => by omega, fun _ => rfl⟩
    · rw [hfalse]
      exact ⟨nofun, fun hk' => by omega⟩
  · have hn₀ : nodes[0]? = some n₀' := by
      rcases hget 0 n₀' hn₀' with ⟨-, hn⟩ | ⟨hk, -⟩ | ⟨-, hfalse, -⟩
      · exact hn
      · omega
      · rw [hfirst] at hfalse
        cases hfalse
    rcases hget (k + 1) n' hn' with ⟨-, hn⟩ | ⟨-, rfl⟩ | ⟨-, -, n, hn, heq⟩
    · exact h.hidden n₀' hn₀ hfirst k n' hn i
    · exact hnew i
    · rw [heq]
      exact h.hidden n₀' hn₀ hfirst k n hn i

/-! ## The place of a new dirent -/

/-- No node from `node` up to the one before `pos` has an empty slot or is the last one. -/
def Passed (nodes : List Node) (node pos : ℕ) : Prop :=
  ∀ k, node ≤ k → k < pos → ∀ n, nodes[k]? = some n → n.emptySlot = none ∧ n.endOfDir = false

/-- The place that `cache_inode_add_cached_dirent` takes from the node `node` on, with the nodes that
it makes for that: an empty slot, or the first slot of the node behind the last one, which may be
there already or is new. -/
inductive AddPlace (nodes : List Node) (node : ℕ) : List Node → ℕ → Slot → Prop
  | slot {pos : ℕ} {i : Slot} {n : Node} : node ≤ pos → nodes[pos]? = some n →
      n.emptySlot = some i → Passed nodes node pos → AddPlace nodes node nodes pos i
  | next {pos : ℕ} {n : Node} : node ≤ pos → nodes[pos]? = some n → n.emptySlot = none →
      n.endOfDir = true → pos + 1 < nodes.length → Passed nodes node pos →
      AddPlace nodes node (unend nodes pos) (pos + 1) 0
  | new {pos : ℕ} {n : Node} (contPos : ℕ) : node ≤ pos → nodes[pos]? = some n →
      n.emptySlot = none → n.endOfDir = true → pos + 1 = nodes.length → Passed nodes node pos →
      AddPlace nodes node (unend (nodes ++ [Node.new contPos]) pos) (pos + 1) 0

/-- The search for a place stops at the first free slot, or at the end. -/
lemma addScan_from (l : List Node) (pos : ℕ) (hend : ∃ n ∈ l, n.endOfDir = true) :
    ∃ (k : ℕ) (n : Node), l[k]? = some n ∧
      (∀ k' < k, ∀ n', l[k']? = some n' → n'.emptySlot = none ∧ n'.endOfDir = false) ∧
      ((∃ i, addScan pos l = some (.slot (pos + k) i) ∧ n.emptySlot = some i) ∨
        addScan pos l = some (.full (pos + k)) ∧ n.emptySlot = none ∧ n.endOfDir = true) := by
  induction l generalizing pos with
  | nil =>
    obtain ⟨n, hn, -⟩ := hend
    cases hn
  | cons n l ih =>
    unfold addScan
    cases hfind : n.emptySlot with
    | some i => exact ⟨0, n, rfl, fun k' hk' => absurd hk' (Nat.not_lt_zero k'), .inl ⟨i, rfl, hfind⟩⟩
    | none =>
      by_cases hlast : n.endOfDir = true
      · refine ⟨0, n, rfl, fun k' hk' => absurd hk' (Nat.not_lt_zero k'), .inr ⟨?_, hfind, hlast⟩⟩
        simp only [hlast, if_true, Nat.add_zero]
      · have hend' : ∃ n ∈ l, n.endOfDir = true := by
          obtain ⟨n', hn', hend'⟩ := hend
          rcases List.mem_cons.mp hn' with rfl | hn'
          · exact absurd hend' hlast
          · exact ⟨n', hn', hend'⟩
        obtain ⟨k, n', hk, hbefore, hres⟩ := ih (pos + 1) hend'
        have hadd : pos + 1 + k = pos + (k + 1) := by omega
        rw [hadd] at hres
        simp only [hlast, Bool.false_eq_true, if_false]
        refine ⟨k + 1, n', hk, fun k' hk' n'' hn'' => ?_, hres⟩
        cases k' with
        | zero =>
          cases hn''
          exact ⟨hfind, by simpa using hlast⟩
        | succ k' => exact hbefore k' (by omega) n'' hn''

/-- Every active dirent has an entry. -/
def Named (nodes : List Node) : Prop :=
  ∀ pos i d, slotAt nodes pos i = some d → d.active = true → d.pentry ≠ none

lemma slotAt_unend : slotAt (unend nodes pos) pos' i = slotAt nodes pos' i := by
  unfold slotAt unend
  rcases eq_or_ne pos pos' with rfl | hne
  · rw [getElem?_modify_self, Option.map_map]
    rfl
  · rw [getElem?_modify_of_ne hne]

/-- The slots after one more node. -/
lemma slotAt_append {new : Node} : slotAt (nodes ++ [new]) pos i =
    if pos = nodes.length then some (new.dirEntries i) else slotAt nodes pos i := by
  unfold slotAt
  by_cases hlt : pos < nodes.length
  · rw [List.getElem?_append_left hlt, if_neg (by omega)]
  · by_cases heq : pos = nodes.length
    · rw [if_pos heq, heq, List.getElem?_append_right le_rfl, Nat.sub_self]
      rfl
    · rw [if_neg heq, List.getElem?_eq_none (by simp; omega), List.getElem?_eq_none (by omega)]

lemma emptySlot_free (h : n.emptySlot = some i) :
    (n.dirEntries i).active = false ∨ (n.dirEntries i).pentry = none := by
  unfold Node.emptySlot at h
  split at h
  · have htest := Node.findSlot_eq_some h
    simpa using htest
  · cases h

/-- Nodes passed over keep those behind them visible. -/
lemma Passed.visible (hpassed : Passed nodes node pos) (hvisible : Visible nodes node)
    (hle : node ≤ pos) : Visible nodes pos := by
  rcases Nat.eq_zero_or_pos pos with hzero | hpos
  · exact .inl hzero
  · refine .inr fun n₀ hn₀ => ?_
    rcases hvisible with rfl | hfirst
    · exact (hpassed 0 le_rfl hpos n₀ hn₀).2
    · exact hfirst n₀ hn₀

/-- The place that is found is free, is seen from the parent on, and nothing else moves. -/
lemma AddPlace.spec {nodes' : List Node} (hplace : AddPlace nodes node nodes' pos i)
    (h : Chained nodes) (hnamed : Named nodes) (hvisible : Visible nodes node) :
    Chained nodes' ∧ Visible nodes' pos ∧ (∃ d, slotAt nodes' pos i = some d ∧ d.active = false) ∧
      (∀ pos j d, slotAt nodes pos j = some d → slotAt nodes' pos j = some d) ∧
      ∀ pos j d, slotAt nodes' pos j = some d → d.active = true → slotAt nodes pos j = some d := by
  cases hplace with
  | @slot pos i n hle hn hempty hpassed =>
    refine ⟨h, hpassed.visible hvisible hle, ?_, fun _ _ _ hd => hd, fun _ _ _ hd _ => hd⟩
    have hslot : slotAt nodes pos i = some (n.dirEntries i) := slotAt_eq_some.mpr ⟨n, hn, rfl⟩
    refine ⟨_, hslot, ?_⟩
    -- the slot was empty in one of two ways
    rcases emptySlot_free hempty with hactive | hpentry
    · exact hactive
    · by_contra hactive
      exact hnamed pos i _ hslot (by simpa using hactive) hpentry
  | @next pos n hle hn hempty hlast hlt hpassed =>
    obtain ⟨rfl, hchained⟩ := h.unend_of_lt hn hlast hlt
    refine ⟨hchained, .inr fun n₀ hn₀ => ?_, ?_, fun _ _ _ hd => ?_, fun _ _ _ hd _ => ?_⟩
    · rw [unend, getElem?_modify_self] at hn₀
      obtain ⟨_, -, rfl⟩ := Option.map_eq_some_iff.mp hn₀
      rfl
    · have hget := List.getElem?_eq_getElem hlt
      refine ⟨_, by rw [slotAt_unend]; exact slotAt_eq_some.mpr ⟨_, hget, rfl⟩, ?_⟩
      exact h.hidden n hn hlast 0 _ hget 0
    · rw [slotAt_unend]
      exact hd
    · rw [slotAt_unend] at hd
      exact hd
  | @new pos n contPos hle hn hempty hlast hlen hpassed =>
    have hchained : Chained (unend (nodes ++ [Node.new contPos]) pos) :=
      h.unend_append rfl (fun _ => rfl) hlen
    refine ⟨hchained, .inr fun n₀ hn₀ => ?_, ?_, fun p j d hd => ?_, fun p j d hd hactive => ?_⟩
    · rw [unend] at hn₀
      rcases Nat.eq_zero_or_pos pos with rfl | hpos
      · rw [getElem?_modify_self] at hn₀
        obtain ⟨_, -, rfl⟩ := Option.map_eq_some_iff.mp hn₀
        rfl
      · rw [getElem?_modify_of_ne hpos.ne', List.getElem?_append_left (by omega)] at hn₀
        rcases hpassed.visible hvisible hle with hzero | hfirst
        · omega
        · exact hfirst n₀ hn₀
    · rw [slotAt_unend, slotAt_append, if_pos hlen]
      exact ⟨_, rfl, rfl⟩
    · obtain ⟨n', hn', -⟩ := slotAt_eq_some.mp hd
      have hlt := (List.getElem?_eq_some_iff.mp hn').1
      rw [slotAt_unend, slotAt_append, if_neg hlt.ne]
      exact hd
    · rw [slotAt_unend, slotAt_append] at hd
      split at hd
      · cases hd
        cases hactive
      · exact hd

/-- No node gets out of sight when a place is found. -/
lemma AddPlace.grows {nodes' : List Node} (hplace : AddPlace nodes node nodes' pos i) :
    nodes.length ≤ nodes'.length ∧ ∀ k < nodes.length, Visible nodes k → Visible nodes' k := by
  have hunend : ∀ (l : List Node) (p : ℕ) n₀, (unend l p)[0]? = some n₀ →
      (∀ n, l[0]? = some n → n.endOfDir = false) → n₀.endOfDir = false := by
    intro l p n₀ hn₀ hfirst
    unfold unend at hn₀
    rcases eq_or_ne p 0 with rfl | hne
    · rw [getElem?_modify_self] at hn₀
      obtain ⟨_, -, rfl⟩ := Option.map_eq_some_iff.mp hn₀
      rfl
    · rw [getElem?_modify_of_ne hne] at hn₀
      exact hfirst n₀ hn₀
  cases hplace with
  | slot => exact ⟨le_rfl, fun _ _ h => h⟩
  | next =>
    refine ⟨?_, fun k _ hvisible => ?_⟩
    · rw [unend, List.length_modify]
    · exact hvisible.imp_right fun hfirst n₀ hn₀ => hunend _ _ n₀ hn₀ hfirst
  | new =>
    refine ⟨?_, fun k hk hvisible => ?_⟩
    · rw [unend, List.length_modify, List.length_append]
      omega
    · refine hvisible.imp_right fun hfirst n₀ hn₀ => hunend _ _ n₀ hn₀ fun n hn => ?_
      rw [List.getElem?_append_left (by omega)] at hn
      exact hfirst n hn

section Add
variable {c c' : Cache} {dir added : ℕ} {name : Name} {env : AddEnv}

/-- A dirent is refused before anything is changed, or it gets a place. -/
lemma cacheInodeAddCachedDirent_place (htype : (c dir).type = .dirBeginning)
    (hend : ∃ n ∈ (c dir).nodes.drop node, n.endOfDir = true) (name : Name) (added : ℕ)
    (env : AddEnv) :
    (∃ status, cacheInodeAddCachedDirent c dir node name added env = some (status, none, c) ∧
      status ≠ .success ∧ status ≠ .entryExists) ∨
    ∃ nodes pos i last conts, AddPlace (c dir).nodes node nodes pos i ∧
      cacheInodeAddCachedDirent c dir node name added env =
        some (addAt (Function.update c dir
          { c dir with nodes := nodes, pdirLast := last, nbdircont := conts })
          dir pos i name added env) := by
  obtain ⟨k, n, hk, hbefore, hres⟩ := addScan_from _ node hend
  rw [List.getElem?_drop] at hk
  have hpassed : Passed (c dir).nodes node (node + k) := by
    intro k' hle hlt n' hn'
    refine hbefore (k' - node) (by omega) n' ?_
    rw [List.getElem?_drop]
    rw [show node + (k' - node) = k' by omega]
    exact hn'
  have hlt := (List.getElem?_eq_some_iff.mp hk).1
  unfold cacheInodeAddCachedDirent
  rw [if_neg (not_not_intro htype)]
  rcases hres with ⟨i, hscan, hempty⟩ | ⟨hscan, hempty, hlast⟩
  · refine .inr ⟨(c dir).nodes, node + k, i, (c dir).pdirLast, (c dir).nbdircont,
      .slot (Nat.le_add_right node k) hk hempty hpassed, ?_⟩
    rw [hscan, Option.map_some]
    show some (addAt c dir (node + k) i name added env) = some (addAt (Function.update c dir (c dir))
      dir (node + k) i name added env)
    rw [Function.update_eq_self]
  · rw [hscan, Option.map_some]
    dsimp only
    unfold chainDirCont
    by_cases hnext : node + k + 1 < (c dir).nodes.length
    · refine .inr ⟨unend (c dir).nodes (node + k), node + k + 1, 0, node + k + 1,
        (c dir).nbdircont + 1, .next (Nat.le_add_right node k) hk hempty hlast hnext hpassed, ?_⟩
      simp only [if_pos hnext]
      rfl
    · simp only [if_neg hnext]
      -- a node has to be added to the chain
      cases hnew : env.newDirCont with
      | some err => exact .inl ⟨err.1, rfl, err.2.1, err.2.2⟩
      | none =>
        refine .inr ⟨_, node + k + 1, 0, node + k + 1, (c dir).nbdircont + 1,
          .new (((c dir).nodes[node + k]?.map Node.dirContPos).getD 0 + 1)
            (Nat.le_add_right node k) hk hempty hlast (by omega) hpassed, ?_⟩
        simp only [Cache.modify, Function.update_self, Function.update_idem]
        rfl

/-- What is written at the slot `i` of a node for the entry `added`. -/
structure Writes (f : Node → Node) (i : Slot) (added : ℕ) : Prop where
  endOfDir : ∀ n, (f n).endOfDir = n.endOfDir
  slot : ∀ n, (f n).dirEntries i = n.dirEntries i ∨ ((f n).dirEntries i).pentry = some added
  others : ∀ n j, j ≠ i → (f n).dirEntries j = n.dirEntries j

/-- The slot of the new dirent, and the count of its node. -/
def Node.write (i : Slot) (added : ℕ) (name : Name) (n : Node) : Node :=
  { n.modifySlot i fun _ => ⟨true, some added, name⟩ with nbactive := n.nbactive + 1 }

lemma Node.writes_write (i : Slot) (added : ℕ) (name : Name) :
    Writes (Node.write i added name) i added where
  endOfDir _ := rfl
  slot n := .inr (by simp [Node.write, Node.modifySlot])
  others n j hj := by simp [Node.write, Node.modifySlot, hj]

/-- The nodes of `dir` are `nodes` now. Beside that only links to parents have changed. -/
structure OnlyNodes (c c' : Cache) (dir : ℕ) (nodes : List Node) : Prop where
  nodes : (c' dir).nodes = nodes
  others : ∀ e ≠ dir, (c' e).nodes = (c e).nodes
  type : ∀ e, (c' e).type = (c e).type
  validState : ∀ e, (c' e).validState = (c e).validState
  hasBeenReaddir : ∀ e, (c' e).hasBeenReaddir = (c e).hasBeenReaddir
  allocated : ∀ e, (c' e).allocated = (c e).allocated

/-- A directory whose nodes alone change. -/
lemma OnlyNodes.of_update (c : Cache) (dir : ℕ) (nodes : List Node) (last : ℕ) (conts : UInt32) :
    OnlyNodes c (Function.update c dir
      { c dir with nodes := nodes, pdirLast := last, nbdircont := conts }) dir nodes := by
  refine ⟨by rw [Function.update_self], fun e he => by rw [Function.update_of_ne he],
    fun e => ?_, fun e => ?_, fun e => ?_, fun e => ?_⟩
  all_goals
    rcases eq_or_ne e dir with rfl | he
    · rw [Function.update_self]
    · rw [Function.update_of_ne he]

/-- A change of a node changes the nodes of its directory only. -/
lemma OnlyNodes.modifyNode {nodes : List Node} (h : OnlyNodes c c' dir nodes) (pos : ℕ)
    (f : Node → Node) : OnlyNodes c (c'.modifyNode dir pos f) dir (nodes.modify pos f) := by
  unfold Cache.modifyNode Cache.modify
  refine ⟨?_, fun e he => by rw [Function.update_of_ne he, h.others e he],
    fun e => ?_, fun e => ?_, fun e => ?_, fun e => ?_⟩
  · rw [Function.update_self, ← h.nodes]
  all_goals
    rcases eq_or_ne e dir with rfl | he
    · rw [Function.update_self]
      simp only [h.type, h.validState, h.hasBeenReaddir, h.allocated]
    · rw [Function.update_of_ne he]
      simp only [h.type, h.validState, h.hasBeenReaddir, h.allocated]

/-- A change of a `parent_list` changes no nodes. -/
lemma OnlyNodes.modifyLinks {nodes : List Node} (h : OnlyNodes c c' dir nodes) (e : ℕ)
    (f : Entry → List ParentEntry) :
    OnlyNodes c (c'.modify e fun entry => { entry with parentList := f entry }) dir nodes := by
  have hsame : ∀ e', ∃ links, (c'.modify e fun entry => { entry with parentList := f entry }) e' =
      { c' e' with parentList := links } := by
    intro e'
    unfold Cache.modify
    rcases eq_or_ne e' e with rfl | he
    · exact ⟨_, Function.update_self ..⟩
    · exact ⟨_, Function.update_of_ne he ..⟩
  refine ⟨?_, fun e' he' => ?_, fun e' => ?_, fun e' => ?_, fun e' => ?_, fun e' => ?_⟩
  · obtain ⟨links, heq⟩ := hsame dir
    rw [heq, ← h.nodes]
  all_goals
    obtain ⟨links, heq⟩ := hsame e'
    rw [heq]
  · exact h.others e' he'
  · exact h.type e'
  · exact h.validState e'
  · exact h.hasBeenReaddir e'
  · exact h.allocated e'

/-- What is written at the place, and that the status says so. -/
lemma addAt_result {nodes : List Node} (h : OnlyNodes c c' dir nodes) (pos : ℕ) (i : Slot)
    (name : Name) (added : ℕ) (env : AddEnv) :
    ∃ (f : Node → Node) (status : Status) (next : Option ℕ) (c'' : Cache),
      addAt c' dir pos i name added env = (status, next, c'') ∧ Writes f i added ∧
      OnlyNodes c c'' dir (nodes.modify pos f) ∧
      (status = .success ∧ next = some pos ∧ f = Node.write i added name ∨
        status ≠ .success ∧ status ≠ .entryExists ∧ next = none) := by
  unfold addAt
  by_cases hparent : env.parentEntry = true
  swap
  · -- the parent entry could not be made
    rw [if_pos hparent]
    refine ⟨id, _, _, _, rfl, ⟨fun _ => rfl, fun _ => .inl rfl, fun _ _ _ => rfl⟩, ?_,
      .inr ⟨by decide, by decide, rfl⟩⟩
    rw [List.modify_id]
    exact h
  rw [if_neg (not_not_intro hparent)]
  by_cases hname : env.namecpy = true
  · -- the name is written
    rw [if_neg (not_not_intro hname)]
    refine ⟨Node.write i added name, _, _, _, rfl, Node.writes_write i added name, ?_,
      .inl ⟨rfl, rfl, rfl⟩⟩
    refine OnlyNodes.modifyLinks ?_ added _
    have hboth := (h.modifyNode pos fun n =>
      { n.modifySlot i fun d => { d with active := true, pentry := some added } with
        nbactive := n.nbactive + 1 }).modifyNode pos fun n =>
          n.modifySlot i fun d => { d with name := name }
    rw [List.modify_modify_eq] at hboth
    convert hboth using 2
    funext n
    simp [Node.write, Node.modifySlot]
  · -- the name could not be copied: the count goes back
    rw [if_pos hname]
    have hboth := (h.modifyNode pos fun n =>
      { n.modifySlot i fun d => { d with active := true, pentry := some added } with
        nbactive := n.nbactive + 1 }).modifyNode pos fun n => { n with nbactive := n.nbactive - 1 }
    rw [List.modify_modify_eq] at hboth
    refine ⟨_, _, _, _, rfl, ?_, hboth, .inr ⟨by decide, by decide, rfl⟩⟩
    refine ⟨fun _ => rfl, fun n => .inr ?_, fun n j hj => ?_⟩
    · simp [Node.modifySlot]
    · simp [Node.modifySlot, hj]

/-- The name `name` is in the active slot `p`. -/
def Holds (nodes : List Node) (p : ℕ × Slot) (name : Name) : Prop :=
  ∃ d, slotAt nodes p.1 p.2 = some d ∧ d.active = true ∧ d.name = name

variable {f : Node → Node}

lemma slotAt_modify_of_ne (h : pos ≠ pos') : slotAt (nodes.modify pos f) pos' i = slotAt nodes pos' i := by
  unfold slotAt
  rw [getElem?_modify_of_ne h]

/-- The other slots stay. -/
lemma Writes.slotAt (hf : Writes f i added) (h : pos' ≠ pos ∨ j ≠ i) :
    slotAt (nodes.modify pos f) pos' j = slotAt nodes pos' j := by
  rcases eq_or_ne pos pos' with rfl | hne
  · unfold Dirents.slotAt
    rw [getElem?_modify_self, Option.map_map]
    congr 1
    funext n
    exact hf.others n j (h.resolve_left (not_not_intro rfl))
  · exact slotAt_modify_of_ne hne

/-- The slot of another dirent is as it was. -/
lemma Writes.active (hf : Writes f i added) (hd : Dirents.slotAt (nodes.modify pos f) pos' j = some d) :
    Dirents.slotAt nodes pos' j = some d ∨ d.pentry = some added := by
  by_cases hplace : pos' ≠ pos ∨ j ≠ i
  · rw [hf.slotAt hplace] at hd
    exact .inl hd
  · push Not at hplace
    obtain ⟨rfl, rfl⟩ := hplace
    obtain ⟨n', hn', rfl⟩ := slotAt_eq_some.mp hd
    rw [getElem?_modify_self] at hn'
    obtain ⟨n, hn, rfl⟩ := Option.map_eq_some_iff.mp hn'
    rcases hf.slot n with hsame | hadded
    · exact .inl (slotAt_eq_some.mpr ⟨n, hn, hsame.symm⟩)
    · exact .inr hadded

/-- The name written is held by its slot, and the others as before. -/
lemma holds_write (hd : slotAt nodes pos i = some d) (hfree : d.active = false) (p : ℕ × Slot)
    (name' : Name) : Holds (nodes.modify pos (Node.write i added name)) p name' ↔
      p = (pos, i) ∧ name' = name ∨ Holds nodes p name' := by
  unfold Holds
  by_cases hplace : p = (pos, i)
  · rw [hplace]
    obtain ⟨n, hn, rfl⟩ := slotAt_eq_some.mp hd
    have hnew : slotAt (nodes.modify pos (Node.write i added name)) pos i =
        some ⟨true, some added, name⟩ := by
      refine slotAt_eq_some.mpr ⟨_, by rw [getElem?_modify_self, hn]; rfl, ?_⟩
      simp [Node.write, Node.modifySlot]
    simp only [hnew, hd, Option.some.injEq]
    constructor
    · intro ⟨d, heq, _, hname⟩
      rw [← heq] at hname
      exact .inl ⟨trivial, hname.symm⟩
    · intro hor
      rcases hor with ⟨-, heq⟩ | ⟨d, heq, hactive, -⟩
      · exact ⟨_, rfl, rfl, heq.symm⟩
      · rw [← heq, hfree] at hactive
        cases hactive
  · have hne : p.1 ≠ pos ∨ p.2 ≠ i := by
      by_contra hboth
      push Not at hboth
      exact hplace (Prod.ext hboth.1 hboth.2)
    rw [(Node.writes_write i added name).slotAt hne]
    constructor
    · exact fun h => .inr h
    · exact fun h => h.resolve_left fun h => hplace h.1

/-- The directory after `cache_inode_add_cached_dirent`, whatever it answers. -/
structure Added (c c' : Cache) (dir added : ℕ) : Prop where
  chained : Chained (c' dir).nodes
  active : ∀ pos i d, slotAt (c' dir).nodes pos i = some d → d.active = true →
    slotAt (c dir).nodes pos i = some d ∨ d.pentry = some added
  only : OnlyNodes c c' dir (c' dir).nodes
  grows : (c dir).nodes.length ≤ (c' dir).nodes.length
  visible : ∀ pos < (c dir).nodes.length, Visible (c dir).nodes pos → Visible (c' dir).nodes pos

/-- The name is put into one free slot of the node at `pos`. -/
def Put (nodes nodes' : List Node) (pos : ℕ) (name : Name) : Prop :=
  ∃ i : Slot, (∀ name', ¬ Holds nodes (pos, i) name') ∧
    ∀ p name', Holds nodes' p name' ↔ p = (pos, i) ∧ name' = name ∨ Holds nodes p name'

/-- A dirent that is added is in one slot; one that is refused leaves the names as they are. -/
theorem cacheInodeAddCachedDirent_spec (htype : (c dir).type = .dirBeginning)
    (h : Chained (c dir).nodes) (hnamed : Named (c dir).nodes) (hvisible : Visible (c dir).nodes node)
    (hlt : node < (c dir).nodes.length) (name : Name) (added : ℕ) (env : AddEnv) :
    ∃ status next c', cacheInodeAddCachedDirent c dir node name added env = some (status, next, c') ∧
      Added c c' dir added ∧
      (status = .success ∧ (∃ pos, next = some pos ∧ pos < (c' dir).nodes.length ∧
          Visible (c' dir).nodes pos ∧ Put (c dir).nodes (c' dir).nodes pos name) ∨
        status ≠ .success ∧ status ≠ .entryExists ∧ next = none) := by
  rcases cacheInodeAddCachedDirent_place htype (h.exists_end_drop hlt) name added env with
    ⟨status, hadd, herr⟩ | ⟨nodes, pos, i, last, conts, hplace, hadd⟩
  · refine ⟨status, none, c, hadd, ⟨h, fun _ _ _ hd _ => .inl hd, ?_, le_rfl, fun _ _ h => h⟩,
      .inr ⟨herr.1, herr.2, rfl⟩⟩
    exact ⟨rfl, fun _ _ => rfl, fun _ => rfl, fun _ => rfl, fun _ => rfl, fun _ => rfl⟩
  · obtain ⟨f, status, next, c', hat, hf, honly, hcase⟩ :=
      addAt_result (OnlyNodes.of_update c dir nodes last conts) pos i name added env
    obtain ⟨hchained, hpos, ⟨d, hd, hfree⟩, hkept, hback⟩ := hplace.spec h hnamed hvisible
    have hchained' : Chained (nodes.modify pos f) := by
      refine hchained.modify hf.endOfDir fun n₀ hn₀ hend hpos' => ?_
      rcases hpos with hzero | hfirst
      · omega
      · rw [hfirst n₀ hn₀] at hend
        cases hend
    rw [hat] at hadd
    refine ⟨status, next, c', hadd, ⟨?_, fun p j d' hd' hactive => ?_, ?_, ?_, fun k hk hv => ?_⟩, ?_⟩
    · rw [honly.nodes]
      exact hchained'
    · rw [honly.nodes] at hd'
      rcases hf.active hd' with hold | hnew
      · exact .inl (hback p j d' hold hactive)
      · exact .inr hnew
    · rw [honly.nodes]
      exact honly
    · rw [honly.nodes, List.length_modify]
      exact hplace.grows.1
    · rw [honly.nodes]
      exact (hplace.grows.2 k hk hv).modify hf.endOfDir
    · rcases hcase with ⟨hstatus, hnext, rfl⟩ | herr
      · refine .inl ⟨hstatus, pos, hnext, ?_, ?_, i, ?_, fun p name' => ?_⟩
        · obtain ⟨n, hn, -⟩ := slotAt_eq_some.mp hd
          rw [honly.nodes, List.length_modify]
          exact (List.getElem?_eq_some_iff.mp hn).1
        · rw [honly.nodes]
          exact hpos.modify hf.endOfDir
        · rintro name' ⟨d', hd', hactive, -⟩
          cases (hkept pos i d' hd').symm.trans hd
          rw [hfree] at hactive
          cases hactive
        · have hsame : Holds nodes p name' ↔ Holds (c dir).nodes p name' := by
            constructor
            · intro ⟨d, hd, hactive, hname⟩
              exact ⟨d, hback p.1 p.2 d hd hactive, hactive, hname⟩
            · intro ⟨d, hd, hrest⟩
              exact ⟨d, hkept p.1 p.2 d hd, hrest⟩
          rw [honly.nodes, holds_write hd hfree p name', hsame]
      · exact .inr herr

end Add

end Ganesha.CacheInode.Dirents
