import EverDb.Btree.Layout
import EverDb.Foundation.BPlus.Order

/-!
# Looking up keys

`btree_get` follows the same entries as the search of the tree it is stored for,
and `btree_first` and `btree_last` lead to the ends of its leaves.
-/

namespace EverDb

open Foundation BPlus

variable {ρ : Type} {db : Db ρ} {h depth k : Nat} {node : Placed h}

/-- A well-formed tree: bounded separators, at most `EDB_BTREE_SIZE` entries per node,
and no empty node except a leaf that is the root. -/
structure WellFormed (under : (h : Nat) → BPlus Nat Nat h → List Nat) (h : Nat)
    (tree : BPlus Nat Nat h) : Prop where
  bounded : Bounded under h tree
  sized : Every (· ≤ edbBtreeSize) h tree
  filled : Filled h tree

namespace Placed

theorem row_zero (leaf : Placed 0) : leaf.row = leaf.entries := by
  simp [row, rows, Ref.number]

/-- The keys of the entries ascend. -/
theorem ascending {under : (h : Nat) → BPlus Nat Nat h → List Nat}
    (bounded : Bounded under h (tree h node)) :
    node.entries.Pairwise fun left right => left.1 < right.1 := by
  have ordered := bounded.ascending
  cases h with
  | zero => exact ordered
  | succ h =>
      rw [tree, List.pairwise_map] at ordered
      exact ordered

theorem row_ascending {under : (h : Nat) → BPlus Nat Nat h → List Nat}
    (bounded : Bounded under h (tree h node)) :
    node.row.Pairwise fun left right => left.1 < right.1 := by
  rw [row, rows, List.pairwise_map]
  exact ascending bounded

end Placed

/-- A stored node passes the check of the magic number. -/
theorem NodeAt.isBtree {bt : Image} {row : List (Nat × Nat)} (nodeAt : NodeAt bt h row) :
    isBtree bt = true := by
  rw [EverDb.isBtree, nodeAt.magic]
  cases h <;> rfl

theorem NodeAt.selfSize {bt : Image} {row : List (Nat × Nat)} (nodeAt : NodeAt bt h row) :
    Bt.selfSize bt = row.length := by
  rw [← nodeAt.entries, Bt.entries_length]

/-- The entry at a place of a node. -/
theorem NodeAt.entry {bt : Image} {front back : List (Nat × Nat)} {middle : Nat × Nat}
    (nodeAt : NodeAt bt h (front ++ middle :: back)) : Bt.entry bt front.length = middle := by
  have inside : front.length < (Bt.entries bt).length := by
    rw [nodeAt.entries]
    simp
  rw [← Bt.entries_getElem bt front.length inside]
  simp [nodeAt.entries]

theorem NodeAt.first {bt : Image} {middle : Nat × Nat} {back : List (Nat × Nat)}
    (nodeAt : NodeAt bt h (middle :: back)) : Bt.entry bt 0 = middle := by
  have split : NodeAt bt h ([] ++ middle :: back) := nodeAt
  exact split.entry

/-- The place of the last entry. -/
theorem NodeAt.last {bt : Image} {front : List (Nat × Nat)} {middle : Nat × Nat}
    (nodeAt : NodeAt bt h (front ++ [middle])) :
    sub32 (Bt.selfSize bt) 1 = front.length ∧ Bt.entry bt front.length = middle := by
  have size : Bt.selfSize bt = front.length + 1 := by
    rw [nodeAt.selfSize]
    simp
  refine ⟨?_, nodeAt.entry⟩
  have small : Bt.selfSize bt < 4294967296 := Image.word_lt _ _
  rw [sub32_of_le (by omega) small, size]
  omega

/-- `list_find` in a stored node whose row is split at the key. -/
theorem NodeAt.listFind_split {bt : Image} {front back : List (Nat × Nat)}
    (nodeAt : NodeAt bt h (front ++ back))
    (ascending : (front ++ back).Pairwise fun left right => left.1 < right.1)
    (skipped : ∀ other ∈ front, other.1 < k) (reached : ∀ other ∈ back, k ≤ other.1) :
    listFind bt k = front.length := by
  obtain ⟨counted, below, above⟩ := Bt.listFind_spec (nodeAt.entries.symm ▸ ascending) k
  have size : Bt.selfSize bt = front.length + back.length := by
    rw [nodeAt.selfSize]
    simp
  have entryAt : ∀ i (inside : i < (front ++ back).length), Bt.entry bt i = (front ++ back)[i] := by
    intro i inside
    rw [← Bt.entries_getElem bt i (by rw [nodeAt.entries]; exact inside)]
    simp [nodeAt.entries]
  rcases Nat.lt_trichotomy (listFind bt k) front.length with less | same | more
  · have here : Bt.entry bt (listFind bt k) ∈ front := by
      rw [entryAt _ (by simp; omega), List.getElem_append_left less]
      exact List.getElem_mem less
    exact absurd (above _ (Nat.le_refl _) (by omega)) (Nat.not_le_of_lt (skipped _ here))
  · exact same
  · have here : Bt.entry bt front.length ∈ back := by
      have nonempty : 0 < back.length := by omega
      rw [entryAt _ (by simp; omega), List.getElem_append_right (Nat.le_refl _)]
      exact List.getElem_mem _
    exact absurd (below _ more) (Nat.not_lt_of_le (reached _ here))

/-- `list_find` in a stored node whose row is cut at the key. -/
theorem NodeAt.listFind {bt : Image} {front back : List (Nat × Nat)} {middle : Nat × Nat}
    (nodeAt : NodeAt bt h (front ++ middle :: back))
    (ascending : (front ++ middle :: back).Pairwise fun left right => left.1 < right.1)
    (skipped : ∀ other ∈ front, other.1 < k) (reached : k ≤ middle.1) :
    EverDb.listFind bt k = front.length := by
  refine nodeAt.listFind_split ascending skipped fun other member => ?_
  rcases List.mem_cons.mp member with rfl | later
  · exact reached
  · have apart := (List.pairwise_cons.mp (List.pairwise_append.mp ascending).2.1).1 other later
    exact Nat.le_trans reached (Nat.le_of_lt apart)

/-- `list_find` when every key is below the one sought. -/
theorem NodeAt.listFind_end {bt : Image} {row : List (Nat × Nat)} (nodeAt : NodeAt bt h row)
    (ascending : row.Pairwise fun left right => left.1 < right.1)
    (below : ∀ entry ∈ row, entry.1 < k) :
    EverDb.listFind bt k = Bt.selfSize bt := by
  rw [nodeAt.selfSize]
  have split : NodeAt bt h (row ++ []) := by rwa [List.append_nil]
  exact split.listFind_split (by rwa [List.append_nil]) below (by simp)

/-- The answer of `btree_get` for the value found. -/
def getAnswer : Option Nat → Int × Nat
  | some value => (0, value)
  | none => (edbErrorBtreeInvalidKey, 0)

/-- `btree_get` searches the tree. -/
theorem btreeGet_eq (stored : Placed.Stored db h node)
    (bounded : Searchable h (Placed.tree h node)) (deep : h < depth) :
    btreeGet db depth node.block k = some (getAnswer (BPlus.get h (Placed.tree h node) k)) := by
  induction h generalizing depth with
  | zero =>
      obtain ⟨depth, rfl⟩ := Nat.exists_eq_succ_of_ne_zero (Nat.ne_of_gt deep)
      have nodeAt : NodeAt (db.data node.block) 0 node.entries := Placed.row_zero node ▸ stored
      have ascending : node.entries.Pairwise fun left right => left.1 < right.1 := bounded
      simp only [btreeGet, nodeAt.isBtree, nodeAt.magic, nodeMagic, Bool.not_true,
        Bool.false_eq_true, if_false, if_true, BPlus.get, Placed.tree]
      cases found : node.entries.find? fun entry => decide (k ≤ entry.1) with
      | none =>
          have below : ∀ entry ∈ node.entries, entry.1 < k := fun entry member => by
            simpa using List.find?_eq_none.mp found entry member
          rw [if_neg (by rw [nodeAt.listFind_end ascending below]; exact Nat.lt_irrefl _)]
          rfl
      | some entry =>
          obtain ⟨reached, front, back, shape, skipped⟩ := find_cut found
          rw [shape] at nodeAt ascending
          have place := nodeAt.listFind ascending skipped reached
          have here := nodeAt.entry
          rw [place, if_pos (by rw [nodeAt.selfSize]; simp)]
          rw [← here, Option.bind_some]
          by_cases same : Bt.key (db.data node.block) front.length = k
          · simp [Bt.entry, same, getAnswer]
          · simp [Bt.entry, same, getAnswer]
  | succ h ih =>
      obtain ⟨depth, rfl⟩ := Nat.exists_eq_succ_of_ne_zero
        (Nat.ne_of_gt (Nat.lt_of_le_of_lt (Nat.zero_le _) deep))
      obtain ⟨nodeAt, inner⟩ := stored
      have ascending := Placed.row_ascending bounded
      have other : edbMagicBtree ≠ edbMagicBtreeLeaf := by decide
      simp only [btreeGet, nodeAt.isBtree, nodeAt.magic, nodeMagic, Bool.not_true,
        Bool.false_eq_true,
        if_false, if_neg other, BPlus.get, Placed.tree, List.find?_map, Function.comp_def]
      cases found : node.entries.find? fun entry => decide (k ≤ entry.1) with
      | none =>
          have below : ∀ entry ∈ node.row, entry.1 < k := by
            intro entry member
            obtain ⟨source, inside, rfl⟩ := List.mem_map.mp member
            simpa using List.find?_eq_none.mp found source inside
          rw [if_neg (by rw [nodeAt.listFind_end ascending below]; exact Nat.lt_irrefl _)]
          rfl
      | some entry =>
          obtain ⟨reached, front, back, shape, skipped⟩ := find_cut found
          have member : entry ∈ node.entries := by simp [shape]
          have row : node.row = Placed.rows (h + 1) front ++
              (entry.1, entry.2.block) :: Placed.rows (h + 1) back := by
            simp [Placed.row, Placed.rows, shape, Ref.number]
          rw [row] at nodeAt ascending
          have place := nodeAt.listFind ascending (by
            rintro other inside
            obtain ⟨source, inFront, rfl⟩ := List.mem_map.mp inside
            exact skipped source inFront) reached
          have here := nodeAt.entry
          rw [place, if_pos (by rw [nodeAt.selfSize]; simp)]
          have child : Bt.data (db.data node.block) (Placed.rows (h + 1) front).length =
              entry.2.block := congrArg Prod.snd here
          rw [child, Option.map_some, Option.bind_some]
          have childBounded : Searchable h (Placed.tree h entry.2) :=
            (bounded.2 (entry.1, Placed.tree h entry.2) (List.mem_map.mpr ⟨entry, member, rfl⟩)).2
          exact ih (inner entry member) childBounded (by omega)

/-- The answer of `btree_first` and `btree_last` for the pair found. -/
def pairAnswer : Option (Nat × Nat) → Int × Nat × Nat
  | some (k, value) => (0, k, value)
  | none => (edbErrorBtreeInvalidKey, 0, 0)

/-- The answers of `btree_first` and `btree_last` pass through the levels unchanged. -/
theorem pairAnswer_passed (found : Option (Nat × Nat)) :
    (if (pairAnswer found).1 = 0 then (0, (pairAnswer found).2.1, (pairAnswer found).2.2)
      else ((pairAnswer found).1, 0, 0)) = pairAnswer found := by
  cases found with
  | none => rfl
  | some pair => rfl

/-- `btree_first` follows the first entries. -/
theorem btreeFirst_eq (stored : Placed.Stored db h node) (filled : Filled h (Placed.tree h node))
    (deep : h < depth) :
    btreeFirst db depth node.block = some (pairAnswer (first h (Placed.tree h node))) := by
  induction h generalizing depth with
  | zero =>
      obtain ⟨depth, rfl⟩ := Nat.exists_eq_succ_of_ne_zero (Nat.ne_of_gt deep)
      have nodeAt : NodeAt (db.data node.block) 0 node.entries := Placed.row_zero node ▸ stored
      simp only [btreeFirst, nodeAt.isBtree, nodeAt.magic, nodeMagic, Bool.not_true,
        Bool.false_eq_true, if_false, if_true, first, Placed.tree]
      cases shape : node.entries with
      | nil =>
          rw [shape] at nodeAt
          have empty : Bt.selfSize (db.data node.block) = 0 := nodeAt.selfSize
          rw [if_pos empty]
          rfl
      | cons entry rest =>
          rw [shape] at nodeAt
          have here := nodeAt.first
          rw [if_neg (by rw [nodeAt.selfSize]; simp), List.head?_cons, ← here]
          rfl
  | succ h ih =>
      obtain ⟨depth, rfl⟩ := Nat.exists_eq_succ_of_ne_zero
        (Nat.ne_of_gt (Nat.lt_of_le_of_lt (Nat.zero_le _) deep))
      obtain ⟨nodeAt, inner⟩ := stored
      obtain ⟨positive, below⟩ := filled.all
      have other : edbMagicBtree ≠ edbMagicBtreeLeaf := by decide
      simp only [btreeFirst, nodeAt.isBtree, nodeAt.magic, nodeMagic, Bool.not_true,
        Bool.false_eq_true, if_false, if_neg other, first, Placed.tree]
      cases shape : node.entries with
      | nil => simp [Placed.tree, shape] at positive
      | cons entry rest =>
          have member : entry ∈ node.entries := by simp [shape]
          rw [Placed.row, Placed.rows, shape, List.map_cons] at nodeAt
          have here := nodeAt.first
          have child : Bt.data (db.data node.block) 0 = entry.2.block := congrArg Prod.snd here
          have childFilled : Filled h (Placed.tree h entry.2) :=
            (below (entry.1, Placed.tree h entry.2) (List.mem_map.mpr ⟨entry, member, rfl⟩)).filled
          rw [if_neg (by rw [nodeAt.selfSize]; simp), child,
            ih (inner entry member) childFilled (by omega)]
          simp only [Option.map_some, List.map_cons, List.head?_cons, Option.bind_some,
            pairAnswer_passed]

/-- `btree_last` follows the last entries. -/
theorem btreeLast_eq (stored : Placed.Stored db h node) (filled : Filled h (Placed.tree h node))
    (deep : h < depth) :
    btreeLast db depth node.block = some (pairAnswer (BPlus.last h (Placed.tree h node))) := by
  induction h generalizing depth with
  | zero =>
      obtain ⟨depth, rfl⟩ := Nat.exists_eq_succ_of_ne_zero (Nat.ne_of_gt deep)
      have nodeAt : NodeAt (db.data node.block) 0 node.entries := Placed.row_zero node ▸ stored
      simp only [btreeLast, nodeAt.isBtree, nodeAt.magic, nodeMagic, Bool.not_true,
        Bool.false_eq_true, if_false, if_true, BPlus.last, Placed.tree, Bt.lastKey]
      rcases List.eq_nil_or_concat node.entries with shape | ⟨front, entry, shape⟩
      · rw [shape] at nodeAt
        have empty : Bt.selfSize (db.data node.block) = 0 := nodeAt.selfSize
        rw [if_pos empty, shape]
        rfl
      · rw [shape, List.concat_eq_append] at nodeAt
        obtain ⟨place, here⟩ := nodeAt.last
        rw [if_neg (by rw [nodeAt.selfSize]; simp), shape, List.concat_eq_append,
          List.getLast?_concat, place, ← here]
        rfl
  | succ h ih =>
      obtain ⟨depth, rfl⟩ := Nat.exists_eq_succ_of_ne_zero
        (Nat.ne_of_gt (Nat.lt_of_le_of_lt (Nat.zero_le _) deep))
      obtain ⟨nodeAt, inner⟩ := stored
      obtain ⟨positive, below⟩ := filled.all
      have other : edbMagicBtree ≠ edbMagicBtreeLeaf := by decide
      simp only [btreeLast, nodeAt.isBtree, nodeAt.magic, nodeMagic, Bool.not_true,
        Bool.false_eq_true, if_false, if_neg other, BPlus.last, Placed.tree]
      rcases List.eq_nil_or_concat node.entries with shape | ⟨front, entry, shape⟩
      · simp [Placed.tree, shape] at positive
      · have member : entry ∈ node.entries := by simp [shape]
        rw [Placed.row, shape, List.concat_eq_append, Placed.rows_append, Placed.rows,
          Placed.rows, List.map_singleton] at nodeAt
        obtain ⟨place, here⟩ := nodeAt.last
        have childFilled : Filled h (Placed.tree h entry.2) :=
          (below (entry.1, Placed.tree h entry.2) (List.mem_map.mpr ⟨entry, member, rfl⟩)).filled
        have child : Bt.data (db.data node.block) (front.map fun entry =>
            (entry.1, Ref.number (h + 1) entry.2)).length = entry.2.block := congrArg Prod.snd here
        rw [if_neg (by rw [nodeAt.selfSize]; simp), place, child,
          ih (inner entry member) childFilled (by omega)]
        simp only [Option.map_some, shape, List.concat_eq_append, List.map_append,
          List.map_singleton, List.getLast?_concat, Option.bind_some, pairAnswer_passed]

/-- Lookups are right at every height: with `M` the pairs listed by the leaves,
`btree_get` answers for the keys of `M` and refuses the others, and `btree_first` and
`btree_last` return the pairs of `M` with the least and the greatest key. -/
theorem btree_lookups (stored : Placed.Stored db h node)
    (wellFormed : WellFormed leafKeys h (Placed.tree h node)) (deep : h < depth) :
    (∀ k value, (k, value) ∈ pairs h (Placed.tree h node) →
      btreeGet db depth node.block k = some (0, value)) ∧
    (∀ k, (∀ value, (k, value) ∉ pairs h (Placed.tree h node)) →
      btreeGet db depth node.block k = some (edbErrorBtreeInvalidKey, 0)) ∧
    (∀ k value, (k, value) ∈ pairs h (Placed.tree h node) →
      (∀ pair ∈ pairs h (Placed.tree h node), k ≤ pair.1) →
      btreeFirst db depth node.block = some (0, k, value)) ∧
    (∀ k value, (k, value) ∈ pairs h (Placed.tree h node) →
      (∀ pair ∈ pairs h (Placed.tree h node), pair.1 ≤ k) →
      btreeLast db depth node.block = some (0, k, value)) ∧
    (pairs h (Placed.tree h node) = [] →
      btreeFirst db depth node.block = some (edbErrorBtreeInvalidKey, 0, 0) ∧
      btreeLast db depth node.block = some (edbErrorBtreeInvalidKey, 0, 0)) := by
  obtain ⟨bounded, _, filled⟩ := wellFormed
  have ascending := pairs_ascending bounded
  refine ⟨?_, ?_, ?_, ?_, ?_⟩
  · intro k value member
    rw [btreeGet_eq stored bounded deep, (get_eq_some bounded).mpr member]
    rfl
  · intro k absent
    have missing : k ∉ leafKeys h (Placed.tree h node) := fun member => by
      obtain ⟨value, inside⟩ := mem_leafKeys.mp member
      exact absent value inside
    rw [btreeGet_eq stored bounded deep, (get_eq_none bounded).mpr missing]
    rfl
  · intro k value member least
    rw [btreeFirst_eq stored filled deep, Filled.first_eq filled]
    cases shape : pairs h (Placed.tree h node) with
    | nil => simp [shape] at member
    | cons pair rest =>
        rw [shape] at ascending member least
        rcases List.mem_cons.mp member with rfl | later
        · rfl
        · exact absurd ((List.pairwise_cons.mp ascending).1 _ later)
            (Nat.not_lt.mpr (least pair List.mem_cons_self))
  · intro k value member greatest
    rw [btreeLast_eq stored filled deep, Filled.last_eq filled]
    rcases List.eq_nil_or_concat (pairs h (Placed.tree h node)) with shape | ⟨front, pair, shape⟩
    · simp [shape] at member
    · rw [shape, List.concat_eq_append] at ascending member greatest
      rw [shape, List.concat_eq_append, List.getLast?_concat]
      rcases List.mem_append.mp member with before | here
      · exact absurd ((List.pairwise_append.mp ascending).2.2 _ before pair (by simp))
          (Nat.not_lt.mpr (greatest pair (by simp)))
      · rw [← List.mem_singleton.mp here]
        rfl
  · intro empty
    rw [btreeFirst_eq stored filled deep, btreeLast_eq stored filled deep, Filled.first_eq filled,
      Filled.last_eq filled, empty]
    exact ⟨rfl, rfl⟩

/-- Two leaves under one root; the separator of the first is looser than its keys, and
the keys 0 and 4294967295 are stored. -/
def pairedLeaves : Placed 1 :=
  ⟨1, [(9, (⟨2, [(0, 7), (5, 8)]⟩ : Placed 0)), (4294967295, (⟨3, [(4294967295, 6)]⟩ : Placed 0))]⟩

/-- The memory that holds the two leaves. -/
def pairedMemory : Db Unit := ⟨Placed.memory (Placed.images 1 pairedLeaves), ()⟩

theorem btree_lookups_paired :
    btreeGet pairedMemory 2 1 0 = some (0, 7) ∧
      btreeGet pairedMemory 2 1 9 = some (edbErrorBtreeInvalidKey, 0) ∧
      btreeFirst pairedMemory 2 1 = some (0, 0, 7) ∧
      btreeLast pairedMemory 2 1 = some (0, 4294967295, 6) := by
  have stored : Placed.Stored pairedMemory 1 pairedLeaves :=
    Placed.stored_memory (by decide) (by decide)
  have wellFormed : WellFormed leafKeys 1 (Placed.tree 1 pairedLeaves) :=
    ⟨by decide, by decide, by decide⟩
  have deep : 1 < 2 := by decide
  have listed : pairs 1 (Placed.tree 1 pairedLeaves) = [(0, 7), (5, 8), (4294967295, 6)] := rfl
  obtain ⟨found, missing, first, last, _⟩ :=
    btree_lookups stored wellFormed deep
  rw [listed] at found missing first last
  exact ⟨found 0 7 (by decide), missing 9 (by simp), first 0 7 (by decide) (by decide),
    last 4294967295 6 (by decide) (by decide)⟩

end EverDb
