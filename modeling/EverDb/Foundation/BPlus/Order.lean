import EverDb.Foundation.BPlus.Basic
import Mathlib.Order.Lattice

/-!
# Ordered trees

A separator is at least every key under its own child and below every key under
the children after it. `Bounded` leaves open which keys count as being under a
child: for searching, those of the leaves are enough (`Searchable`); insertion
and removal copy separators upwards and rely on every key below (`Ordered`).
-/

namespace EverDb.Foundation.BPlus

variable {κ ν : Type} [LinearOrder κ]

/-- Keys ascend in each node, and separators bound the keys under their children. -/
def Bounded (under : (h : Nat) → BPlus κ ν h → List κ) : (h : Nat) → BPlus κ ν h → Prop
  | 0, leaf => leaf.Pairwise fun left right => left.1 < right.1
  | h + 1, node =>
      (node.Pairwise fun left right =>
        left.1 < right.1 ∧ ∀ key ∈ under h right.2, left.1 < key) ∧
      ∀ entry ∈ node, (∀ key ∈ under h entry.2, key ≤ entry.1) ∧ Bounded under h entry.2

instance Bounded.decidable (under : (h : Nat) → BPlus κ ν h → List κ) :
    (h : Nat) → (node : BPlus κ ν h) → Decidable (Bounded under h node)
  | 0, leaf => inferInstanceAs (Decidable (leaf.Pairwise fun left right => left.1 < right.1))
  | h + 1, node =>
      have := Bounded.decidable under h
      inferInstanceAs (Decidable ((node.Pairwise fun left right =>
        left.1 < right.1 ∧ ∀ key ∈ under h right.2, left.1 < key) ∧
        ∀ entry ∈ node, (∀ key ∈ under h entry.2, key ≤ entry.1) ∧ Bounded under h entry.2))

/-- Separators bound the keys stored in the leaves. -/
abbrev Searchable (h : Nat) (node : BPlus κ ν h) : Prop := Bounded leafKeys h node

/-- Separators bound every key below them, inner separators included. -/
abbrev Ordered (h : Nat) (node : BPlus κ ν h) : Prop := Bounded keys h node

/-- The value found by following the first entry that is not below the key. -/
def get : (h : Nat) → BPlus κ ν h → κ → Option ν
  | 0, leaf, k => (leaf.find? fun entry => k ≤ entry.1).bind fun entry =>
      if entry.1 = k then some entry.2 else none
  | h + 1, node, k => (node.find? fun entry => k ≤ entry.1).bind fun entry => get h entry.2 k

/-- Bounding more keys is the stronger condition. -/
theorem Bounded.weaken {more less : (h : Nat) → BPlus κ ν h → List κ}
    (fewer : ∀ h node, ∀ key ∈ less h node, key ∈ more h node) :
    ∀ {h : Nat} {node : BPlus κ ν h}, Bounded more h node → Bounded less h node := by
  intro h
  induction h with
  | zero => exact id
  | succ h ih =>
      rintro node ⟨apart, inner⟩
      refine ⟨apart.imp fun ⟨less, above⟩ =>
        ⟨less, fun key member => above key (fewer _ _ _ member)⟩,
        fun entry member => ⟨fun key under => ?_, ih (inner entry member).2⟩⟩
      exact (inner entry member).1 key (fewer _ _ _ under)

theorem Bounded.searchable {h : Nat} {node : BPlus κ ν h} (ordered : Ordered h node) :
    Searchable h node :=
  ordered.weaken fun h node key member => by
    obtain ⟨value, stored⟩ := mem_leafKeys.mp member
    exact mem_keys_of_pair stored

/-- Keys ascend from entry to entry. -/
theorem Bounded.ascending {under : (h : Nat) → BPlus κ ν h → List κ} {h : Nat}
    {node : BPlus κ ν h} (bounded : Bounded under h node) :
    node.Pairwise fun left right => left.1 < right.1 := by
  cases h with
  | zero => exact bounded
  | succ h => exact bounded.1.imp And.left

/-- The stored pairs ascend. -/
theorem pairs_ascending {h : Nat} {node : BPlus κ ν h} (bounded : Searchable h node) :
    (pairs h node).Pairwise fun left right => left.1 < right.1 := by
  induction h with
  | zero => exact bounded
  | succ h ih =>
      rw [pairs, List.pairwise_flatMap]
      refine ⟨fun entry member => ih (bounded.2 entry member).2, ?_⟩
      refine bounded.1.imp_of_mem
        fun {left right} leftMember _ apart lower inLeft upper inRight => ?_
      have atMost := (bounded.2 left leftMember).1 lower.1 (mem_leafKeys.mpr ⟨lower.2, inLeft⟩)
      exact lt_of_le_of_lt atMost (apart.2 upper.1 (mem_leafKeys.mpr ⟨upper.2, inRight⟩))

/-- Searching cuts a node before the first entry that is not below the key. -/
theorem find_cut {α : Type} {entries : List (κ × α)} {k : κ} {entry : κ × α}
    (found : (entries.find? fun other => k ≤ other.1) = some entry) :
    k ≤ entry.1 ∧ ∃ front back, entries = front ++ entry :: back ∧
    ∀ other ∈ front, other.1 < k := by
  obtain ⟨reached, front, back, shape, skipped⟩ := List.find?_eq_some_iff_append.mp found
  exact ⟨by simpa using reached, front, back, shape, fun other member => by
    simpa using skipped other member⟩

/-- Searching an ascending list of pairs finds exactly its pairs. -/
theorem find_eq_some {leaf : List (κ × ν)}
    (ascending : leaf.Pairwise fun left right => left.1 < right.1) {k : κ} {value : ν} :
    ((leaf.find? fun entry => k ≤ entry.1).bind fun entry =>
      if entry.1 = k then some entry.2 else none) = some value ↔ (k, value) ∈ leaf := by
  cases found : leaf.find? fun entry => decide (k ≤ entry.1) with
  | none =>
      have absent : (k, value) ∉ leaf := fun member => by
        simpa using List.find?_eq_none.mp found _ member
      simp [absent]
  | some entry =>
      obtain ⟨reached, front, back, rfl, skipped⟩ := find_cut found
      simp only [Option.bind_some]
      constructor
      · intro result
        split at result
        · rename_i same
          cases result
          rw [← same]
          simp
        · cases result
      · intro member
        rcases List.mem_append.mp member with before | here
        · exact absurd (skipped _ before) (lt_irrefl k)
        · rcases List.mem_cons.mp here with rfl | after
          · simp
          · have apart := (List.pairwise_cons.mp (List.pairwise_append.mp ascending).2.1).1 _ after
            exact absurd apart (not_lt_of_ge reached)

/-- An ascending list falls into the entries below a key and the others. -/
theorem exists_split {α : Type} {entries : List (κ × α)}
    (ascending : entries.Pairwise fun left right => left.1 < right.1) (k : κ) :
    ∃ front back, entries = front ++ back ∧ (∀ other ∈ front, other.1 < k) ∧
      ∀ other ∈ back, k ≤ other.1 := by
  induction entries with
  | nil => exact ⟨[], [], rfl, by simp, by simp⟩
  | cons entry rest ih =>
      rw [List.pairwise_cons] at ascending
      by_cases less : entry.1 < k
      · obtain ⟨front, back, rfl, skipped, reached⟩ := ih ascending.2
        refine ⟨entry :: front, back, rfl, ?_, reached⟩
        intro other member
        rcases List.mem_cons.mp member with rfl | inFront
        · exact less
        · exact skipped other inFront
      · refine ⟨[], entry :: rest, rfl, by simp, ?_⟩
        intro other member
        rcases List.mem_cons.mp member with rfl | later
        · exact le_of_not_gt less
        · exact le_trans (le_of_not_gt less) (le_of_lt (ascending.1 other later))

/-- A pair whose key the search has routed to `entry` is stored under it. -/
theorem Bounded.routed {h : Nat} {front back : List (κ × Below κ ν (h + 1))}
    {entry : κ × Below κ ν (h + 1)} {k : κ} {value : ν}
    (bounded : Searchable (h + 1) (front ++ entry :: back)) (skipped : ∀ other ∈ front, other.1 < k)
    (reached : k ≤ entry.1) (stored : (k, value) ∈ pairs (h + 1) (front ++ entry :: back)) :
    (k, value) ∈ pairs h entry.2 := by
  obtain ⟨other, member, inside⟩ := mem_pairs_succ.mp stored
  have key : k ∈ leafKeys h other.2 := mem_leafKeys.mpr ⟨value, inside⟩
  rcases List.mem_append.mp member with before | here
  · exact absurd ((bounded.2 other member).1 k key) (not_le_of_gt (skipped other before))
  · rcases List.mem_cons.mp here with rfl | after
    · exact inside
    · have apart := (List.pairwise_cons.mp (List.pairwise_append.mp bounded.1).2.1).1 other after
      exact absurd (apart.2 k key) (not_lt_of_ge reached)

/-- Searching a tree finds exactly the stored pairs. -/
theorem get_eq_some {h : Nat} {node : BPlus κ ν h} (bounded : Searchable h node)
    {k : κ} {value : ν} :
    get h node k = some value ↔ (k, value) ∈ pairs h node := by
  induction h with
  | zero => exact find_eq_some bounded
  | succ h ih =>
      cases found : List.find? (fun entry => decide (k ≤ entry.1)) node with
      | none =>
          simp only [get, found, Option.bind_none]
          constructor
          · intro impossible
            cases impossible
          · intro stored
            obtain ⟨entry, member, inside⟩ := mem_pairs_succ.mp stored
            have atMost := (bounded.2 entry member).1 k (mem_leafKeys.mpr ⟨value, inside⟩)
            exact absurd atMost (by simpa using List.find?_eq_none.mp found _ member)
      | some entry =>
          obtain ⟨reached, front, back, rfl, skipped⟩ := find_cut found
          simp only [get, found, Option.bind_some]
          rw [ih (bounded.2 entry (by simp)).2]
          exact ⟨fun stored => mem_pairs_succ.mpr ⟨entry, by simp, stored⟩,
            bounded.routed skipped reached⟩

/-- Searching fails exactly for the keys that are not stored. -/
theorem get_eq_none {h : Nat} {node : BPlus κ ν h} (bounded : Searchable h node) {k : κ} :
    get h node k = none ↔ k ∉ leafKeys h node := by
  rw [mem_leafKeys, Option.eq_none_iff_forall_ne_some]
  simp only [ne_eq, get_eq_some bounded, not_exists]

/-- Two trees with the same pairs answer alike. -/
theorem get_congr {h other : Nat} {node : BPlus κ ν h} {next : BPlus κ ν other}
    (bounded : Searchable h node) (boundedNext : Searchable other next) {k : κ}
    (same : ∀ value, (k, value) ∈ pairs other next ↔ (k, value) ∈ pairs h node) :
    get other next k = get h node k := by
  ext value
  rw [get_eq_some bounded, get_eq_some boundedNext]
  exact same value

section Window

variable {h : Nat} {front back window middle : BPlus κ ν (h + 1)} {key : κ}

/-- A key that fits between the entries `front` and `back` of a node. -/
structure Between (front back : BPlus κ ν (h + 1)) (key : κ) : Prop where
  above : ∀ other ∈ front, other.1 < key
  below : ∀ other ∈ back, key < other.1 ∧ ∀ lower ∈ keys h other.2, key < lower

/-- The keys of a window of entries fit between the entries around it. -/
theorem Bounded.between (ordered : Ordered (h + 1) (front ++ window ++ back))
    (member : key ∈ keys (h + 1) window) : Between front back key := by
  obtain ⟨entry, inWindow, place⟩ := mem_keys_succ.mp member
  obtain ⟨apart, inner⟩ := ordered
  rw [List.append_assoc, List.pairwise_append, List.pairwise_append] at apart
  obtain ⟨_, ⟨_, _, windowBack⟩, frontRest⟩ := apart
  have atMost : key ≤ entry.1 := by
    rcases place with rfl | under
    · exact le_refl _
    · exact (inner entry (by simp [inWindow])).1 key under
  constructor
  · intro other inFront
    have less := frontRest other inFront entry (by simp [inWindow])
    rcases place with rfl | under
    · exact less.1
    · exact less.2 key under
  · intro other inBack
    have less := windowBack entry inWindow other inBack
    exact ⟨lt_of_le_of_lt atMost less.1, fun lower under =>
      lt_of_le_of_lt atMost (less.2 lower under)⟩

/-- A window of a node may be replaced by any ordered entries whose keys fit there. -/
theorem Bounded.swap (ordered : Ordered (h + 1) (front ++ window ++ back))
    (fits : ∀ key ∈ keys (h + 1) middle, Between front back key) :
    Ordered (h + 1) (front ++ middle ++ back) ↔ Ordered (h + 1) middle := by
  obtain ⟨apart, inner⟩ := ordered
  simp only [List.append_assoc, List.pairwise_append, List.mem_append] at apart
  obtain ⟨frontApart, ⟨_, backApart, _⟩, frontRest⟩ := apart
  constructor
  · rintro ⟨middleApart, middleInner⟩
    simp only [List.append_assoc, List.pairwise_append] at middleApart
    exact ⟨middleApart.2.1.1, fun entry member => middleInner entry (by simp [member])⟩
  · rintro ⟨middleApart, middleInner⟩
    have separatorMem : ∀ entry ∈ middle, entry.1 ∈ keys (h + 1) middle := fun entry member =>
      mem_keys_succ.mpr ⟨entry, member, .inl rfl⟩
    have underMem : ∀ entry ∈ middle, ∀ key ∈ keys h entry.2, key ∈ keys (h + 1) middle :=
      fun entry member key under => mem_keys_succ.mpr ⟨entry, member, .inr under⟩
    constructor
    · rw [List.append_assoc, List.pairwise_append, List.pairwise_append]
      refine ⟨frontApart, ⟨middleApart, backApart, ?_⟩, ?_⟩
      · exact fun left leftMember right rightMember =>
          (fits left.1 (separatorMem left leftMember)).below right rightMember
      · intro left leftMember right rightMember
        rcases List.mem_append.mp rightMember with inMiddle | inBack
        · exact ⟨(fits _ (separatorMem right inMiddle)).above left leftMember, fun key under =>
            (fits key (underMem right inMiddle key under)).above left leftMember⟩
        · exact frontRest left leftMember right (.inr inBack)
    · intro entry member
      rcases List.mem_append.mp member with rest | inBack
      · rcases List.mem_append.mp rest with inFront | inMiddle
        · exact inner entry (by simp [inFront])
        · exact middleInner entry inMiddle
      · exact inner entry (by simp [inBack])

/-- Some consecutive entries of a node. -/
theorem Bounded.part (ordered : Ordered (h + 1) (front ++ window ++ back)) :
    Ordered (h + 1) window :=
  (ordered.swap fun _ member => ordered.between member).mp ordered

end Window

section LastKey

variable {h : Nat} {node : BPlus κ ν h} {default key : κ}

/-- In a bounded node no key is above the last one. -/
theorem le_lastKey {under : (h : Nat) → BPlus κ ν h → List κ}
    (reading : Reading under) (default : κ)
    (bounded : Bounded under h node) (member : key ∈ under h node) :
    key ≤ lastKey default node := by
  rcases List.eq_nil_or_concat node with rfl | ⟨front, entry, rfl⟩
  · cases h with
    | zero =>
        obtain ⟨_, inside, _⟩ := reading.leaf _ _ member
        cases inside
    | succ h =>
        obtain ⟨_, inside, _⟩ := reading.node _ _ _ member
        cases inside
  · rw [List.concat_eq_append] at bounded member ⊢
    rw [lastKey_append]
    have ascending := bounded.ascending
    have atMost : ∀ other ∈ front ++ [entry], other.1 ≤ entry.1 := by
      intro other inside
      rcases List.mem_append.mp inside with before | here
      · exact le_of_lt ((List.pairwise_append.mp ascending).2.2 other before entry (by simp))
      · rw [List.mem_singleton.mp here]
    cases h with
    | zero =>
        obtain ⟨other, inside, rfl⟩ := reading.leaf _ _ member
        exact atMost other inside
    | succ h =>
        obtain ⟨other, inside, place⟩ := reading.node _ _ _ member
        rcases place with rfl | below
        · exact atMost other inside
        · exact le_trans ((bounded.2 other inside).1 key below) (atMost other inside)

/-- Part of a bounded node is bounded. -/
theorem Bounded.sublist {under : (h : Nat) → BPlus κ ν h → List κ} {part : BPlus κ ν h}
    (bounded : Bounded under h node) (kept : part.Sublist node) : Bounded under h part := by
  cases h with
  | zero => exact List.Pairwise.sublist kept bounded
  | succ h =>
      exact ⟨bounded.1.sublist kept, fun entry member => bounded.2 entry (kept.subset member)⟩

/-- The keys of the front entries are below those of the entries behind them. -/
theorem Bounded.append_lt {left right : BPlus κ ν h} (ordered : Ordered h (left ++ right)) :
    ∀ low ∈ keys h left, ∀ high ∈ keys h right, low < high := by
  intro low inLow high inHigh
  cases h with
  | zero =>
      obtain ⟨lower, lowerMember, rfl⟩ := List.mem_map.mp inLow
      obtain ⟨upper, upperMember, rfl⟩ := List.mem_map.mp inHigh
      exact (List.pairwise_append.mp ordered).2.2 lower lowerMember upper upperMember
  | succ h =>
      obtain ⟨lower, lowerMember, lowerPlace⟩ := mem_keys_succ.mp inLow
      obtain ⟨upper, upperMember, upperPlace⟩ := mem_keys_succ.mp inHigh
      have apart := (List.pairwise_append.mp ordered.1).2.2 lower lowerMember upper upperMember
      have atMost : low ≤ lower.1 := by
        rcases lowerPlace with rfl | under
        · exact le_refl _
        · exact (ordered.2 lower (List.mem_append_left _ lowerMember)).1 low under
      rcases upperPlace with rfl | under
      · exact lt_of_le_of_lt atMost apart.1
      · exact lt_of_le_of_lt atMost (apart.2 high under)

/-- Two nodes in order, put together. -/
theorem Bounded.append {left right : BPlus κ ν h} (low : Ordered h left) (high : Ordered h right)
    (apart : ∀ lower ∈ keys h left, ∀ upper ∈ keys h right, lower < upper) :
    Ordered h (left ++ right : BPlus κ ν h) := by
  cases h with
  | zero =>
      exact List.pairwise_append.mpr ⟨low, high, fun lower inLow upper inHigh =>
        apart lower.1 (List.mem_map_of_mem inLow) upper.1 (List.mem_map_of_mem inHigh)⟩
  | succ h =>
      refine ⟨List.pairwise_append.mpr ⟨low.1, high.1, fun lower inLow upper inHigh => ?_⟩,
        fun entry member => (List.mem_append.mp member).elim (low.2 entry) (high.2 entry)⟩
      have lowerKey := mem_keys_succ.mpr ⟨lower, inLow, .inl rfl⟩
      exact ⟨apart _ lowerKey _ (mem_keys_succ.mpr ⟨upper, inHigh, .inl rfl⟩), fun key under =>
        apart _ lowerKey _ (mem_keys_succ.mpr ⟨upper, inHigh, .inr under⟩)⟩

/-- An entry under its last key bounds the node below it. -/
theorem ordered_labelled (ordered : Ordered h node) :
    Ordered (h + 1) ([labelled default node] : BPlus κ ν (h + 1)) := by
  refine ⟨List.pairwise_singleton _ _, ?_⟩
  intro entry member
  rw [List.mem_singleton] at member
  subst member
  exact ⟨fun key under => le_lastKey readingKeys default ordered under, ordered⟩

/-- Two adjacent entries under their last keys. -/
theorem ordered_pair {left right : BPlus κ ν h} {other : κ} (filled : right ≠ []) :
    Ordered (h + 1) ([labelled default left, labelled other right] : BPlus κ ν (h + 1)) ↔
      Ordered h left ∧ Ordered h right ∧ ∀ key ∈ keys h right, lastKey default left < key := by
  constructor
  · rintro ⟨apart, inner⟩
    have between := (List.pairwise_cons.mp apart).1 _ (List.mem_singleton.mpr rfl)
    exact ⟨(inner _ List.mem_cons_self).2, (inner (labelled other right) (by simp)).2, between.2⟩
  · rintro ⟨leftOrdered, rightOrdered, between⟩
    constructor
    · rw [List.pairwise_pair]
      exact ⟨between _ (lastKey_mem _ filled), between⟩
    · intro entry member
      rcases List.mem_cons.mp member with rfl | member
      · exact ⟨fun key under => le_lastKey readingKeys _ leftOrdered under, leftOrdered⟩
      · rw [List.mem_singleton] at member
        subst member
        exact ⟨fun key under => le_lastKey readingKeys _ rightOrdered under, rightOrdered⟩

end LastKey

end EverDb.Foundation.BPlus
