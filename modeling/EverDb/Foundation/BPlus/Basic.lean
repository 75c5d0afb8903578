import Mathlib.Order.Basic
import Mathlib.Data.List.Basic

/-!
# B+ trees

A node is the list of its entries. At height zero an entry pairs a key with a
value; above, it pairs a separator with a node one level lower. All leaves of a
tree therefore lie at one depth by construction, and a tree of height `h` is a
node with `h` levels below it.
-/

namespace EverDb.Foundation

/-- What an entry refers to: a value in a leaf, a node one level lower above. -/
@[reducible] def Below (κ ν : Type) : Nat → Type
  | 0 => ν
  | h + 1 => List (κ × Below κ ν h)

/-- A node with `h` levels below it. -/
abbrev BPlus (κ ν : Type) (h : Nat) : Type := List (κ × Below κ ν h)

namespace BPlus

variable {κ ν : Type}

/-- The pairs stored in the leaves, from left to right. -/
def pairs : (h : Nat) → BPlus κ ν h → List (κ × ν)
  | 0, leaf => leaf
  | h + 1, node => node.flatMap fun entry => pairs h entry.2

/-- The keys stored in the leaves. -/
def leafKeys (h : Nat) (node : BPlus κ ν h) : List κ := (pairs h node).map Prod.fst

/-- Every key of every node, the separators included. -/
def keys : (h : Nat) → BPlus κ ν h → List κ
  | 0, leaf => leaf.map Prod.fst
  | h + 1, node => node.flatMap fun entry => entry.1 :: keys h entry.2

/-- A number of entries that every node has. -/
def Every (size : Nat → Prop) : (h : Nat) → BPlus κ ν h → Prop
  | 0, leaf => size leaf.length
  | h + 1, node => size node.length ∧ ∀ entry ∈ node, Every size h entry.2

/-- A number of entries that every node below the root has. -/
def Under (size : Nat → Prop) : (h : Nat) → BPlus κ ν h → Prop
  | 0, _ => True
  | h + 1, node => ∀ entry ∈ node, Every size h entry.2

/-- The root of a tree, and what lies below it. -/
theorem every_iff {size : Nat → Prop} {h : Nat} {node : BPlus κ ν h} :
    Every size h node ↔ size node.length ∧ Under size h node := by
  cases h with
  | zero => exact ⟨fun all => ⟨all, trivial⟩, And.left⟩
  | succ h => exact Iff.rfl

/-- A part of a node has fewer nodes below it. -/
theorem Under.subset {size : Nat → Prop} {h : Nat} {whole part : BPlus κ ν h}
    (under : Under size h whole) (kept : ∀ entry ∈ part, entry ∈ whole) : Under size h part := by
  cases h with
  | zero => trivial
  | succ h => exact fun entry member => under entry (kept entry member)

/-- Below two nodes put together lies what was below each. -/
theorem Under.append {size : Nat → Prop} {h : Nat} {left right : BPlus κ ν h}
    (low : Under size h left)
    (high : Under size h right) : Under size h (left ++ right : BPlus κ ν h) := by
  cases h with
  | zero => trivial
  | succ h => exact fun entry member => (List.mem_append.mp member).elim (low entry) (high entry)

/-- Every node has at least `split` entries, except the root and an only child of it. -/
def Spread (split : Nat) : (h : Nat) → BPlus κ ν h → Prop
  | 0, _ => True
  | h + 1, node =>
      ∀ entry ∈ node, (1 < node.length → split ≤ entry.2.length) ∧ Under (split ≤ ·) h entry.2

/-- When every node below the root has `split` entries, only the root may be small. -/
theorem Under.spread {split h : Nat} {node : BPlus κ ν h} (under : Under (split ≤ ·) h node) :
    Spread split h node := by
  cases h with
  | zero => trivial
  | succ h =>
      intro entry member
      obtain ⟨size, below⟩ := every_iff.mp (under entry member)
      exact ⟨fun _ => size, below⟩

/-- A spread node has small nodes below it only as an only child. -/
theorem Spread.cases {split h : Nat} {node : BPlus κ ν (h + 1)}
    (spread : Spread split (h + 1) node) :
    Under (split ≤ ·) (h + 1) node ∨ node.length ≤ 1 := by
  by_cases many : 1 < node.length
  · exact .inl fun entry member =>
      every_iff.mpr ⟨(spread entry member).1 many, (spread entry member).2⟩
  · exact .inr (Nat.le_of_not_lt many)

/-- The sizes of a tree can be checked. -/
instance Every.decidable (size : Nat → Prop) [DecidablePred size] :
    (h : Nat) → (node : BPlus κ ν h) → Decidable (Every size h node)
  | 0, leaf => inferInstanceAs (Decidable (size leaf.length))
  | h + 1, node =>
      have := Every.decidable size h
      inferInstanceAs (Decidable (size node.length ∧ ∀ entry ∈ node, Every size h entry.2))

/-- The first entry of a node. -/
def first : (h : Nat) → BPlus κ ν h → Option (κ × ν)
  | 0, leaf => leaf.head?
  | h + 1, node => node.head?.bind fun entry => first h entry.2

/-- The last entry of a node. -/
def last : (h : Nat) → BPlus κ ν h → Option (κ × ν)
  | 0, leaf => leaf.getLast?
  | h + 1, node => node.getLast?.bind fun entry => last h entry.2

/-- The last key of a node. -/
def lastKey {α : Type} (default : κ) (entries : List (κ × α)) : κ :=
  ((entries.getLast?).map Prod.fst).getD default

/-- An entry for `child` under its own last key. -/
def labelled {α : Type} (default : κ) (child : List (κ × α)) : κ × List (κ × α) :=
  (lastKey default child, child)

/-- A pair of an inner node is a pair of one of its children. -/
theorem mem_pairs_succ {h : Nat} {node : BPlus κ ν (h + 1)} {pair : κ × ν} :
    pair ∈ pairs (h + 1) node ↔ ∃ entry ∈ node, pair ∈ pairs h entry.2 := List.mem_flatMap

/-- A key of an inner node is a separator or a key of a child. -/
theorem mem_keys_succ {h : Nat} {node : BPlus κ ν (h + 1)} {key : κ} :
    key ∈ keys (h + 1) node ↔ ∃ entry ∈ node, key = entry.1 ∨ key ∈ keys h entry.2 := by
  simp only [keys, List.mem_flatMap, List.mem_cons]

/-- The keys of the leaves are those with a value. -/
theorem mem_leafKeys {h : Nat} {node : BPlus κ ν h} {key : κ} :
    key ∈ leafKeys h node ↔ ∃ value, (key, value) ∈ pairs h node := by
  simp [leafKeys]

/-- The keys of the leaves are among all keys. -/
theorem mem_keys_of_pair {h : Nat} {node : BPlus κ ν h} {key : κ} {value : ν}
    (member : (key, value) ∈ pairs h node) : key ∈ keys h node := by
  induction h with
  | zero => exact List.mem_map.mpr ⟨(key, value), member, rfl⟩
  | succ h ih =>
      obtain ⟨entry, inside, below⟩ := mem_pairs_succ.mp member
      exact mem_keys_succ.mpr ⟨entry, inside, .inr (ih below)⟩

/-- A reading of what is under a node: keys of its own entries or under its children. -/
structure Reading (under : (h : Nat) → BPlus κ ν h → List κ) : Prop where
  leaf : ∀ leaf, ∀ key ∈ under 0 leaf, ∃ entry ∈ leaf, key = entry.1
  node : ∀ h node, ∀ key ∈ under (h + 1) node,
    ∃ entry ∈ node, key = entry.1 ∨ key ∈ under h entry.2

/-- All keys are a reading. -/
theorem readingKeys : Reading (keys : (h : Nat) → BPlus κ ν h → List κ) where
  leaf := fun leaf key member => by
    obtain ⟨entry, inside, rfl⟩ := List.mem_map.mp member
    exact ⟨entry, inside, rfl⟩
  node := fun _ _ _ member => mem_keys_succ.mp member

/-- The keys of the leaves are a reading. -/
theorem readingLeafKeys : Reading (leafKeys : (h : Nat) → BPlus κ ν h → List κ) where
  leaf := fun leaf key member => by
    obtain ⟨entry, inside, rfl⟩ := List.mem_map.mp member
    exact ⟨entry, inside, rfl⟩
  node := fun h node key member => by
    obtain ⟨value, stored⟩ := mem_leafKeys.mp member
    obtain ⟨entry, inside, below⟩ := mem_pairs_succ.mp stored
    exact ⟨entry, inside, .inr (mem_leafKeys.mpr ⟨value, below⟩)⟩

/-- The root is one of the nodes. -/
theorem Every.root {size : Nat → Prop} {h : Nat} {node : BPlus κ ν h} (all : Every size h node) :
    size node.length := by
  cases h with
  | zero => exact all
  | succ h => exact all.1

/-- Two bounds on the sizes hold together. -/
theorem Every.and {left right : Nat → Prop} : ∀ {h : Nat} {node : BPlus κ ν h},
    Every left h node → Every right h node →
    Every (fun count => left count ∧ right count) h node := by
  intro h
  induction h with
  | zero => exact fun first second => ⟨first, second⟩
  | succ h ih =>
      exact fun first second => ⟨⟨first.1, second.1⟩, fun entry member =>
        ih (first.2 entry member) (second.2 entry member)⟩

/-- A weaker bound on the sizes holds too. -/
theorem Every.imp {small large : Nat → Prop} (weaker : ∀ count, small count → large count) :
    ∀ {h : Nat} {node : BPlus κ ν h}, Every small h node → Every large h node := by
  intro h
  induction h with
  | zero => exact fun all => weaker _ all
  | succ h ih => exact fun all => ⟨weaker _ all.1, fun entry member => ih (all.2 entry member)⟩

/-- Only a leaf that is the root may be empty. -/
def Filled (h : Nat) (node : BPlus κ ν h) : Prop := h ≠ 0 → Every (0 < ·) h node

/-- Whether a tree is filled can be checked. -/
instance Filled.decidable (h : Nat) (node : BPlus κ ν h) : Decidable (Filled h node) :=
  inferInstanceAs (Decidable (h ≠ 0 → Every (0 < ·) h node))

/-- A tree without empty nodes is filled. -/
theorem Every.filled {h : Nat} {node : BPlus κ ν h} (all : Every (0 < ·) h node) : Filled h node :=
  fun _ => all

/-- Above the leaves, a filled tree has no empty node at all. -/
theorem Filled.all {h : Nat} {node : BPlus κ ν (h + 1)} (filled : Filled (h + 1) node) :
    Every (0 < ·) (h + 1) node := filled (Nat.succ_ne_zero h)

/-- In a tree without empty nodes the root has an entry. -/
theorem ne_nil {h : Nat} {node : BPlus κ ν h} (filled : Every (0 < ·) h node) : node ≠ [] :=
  List.length_pos_iff.mp filled.root

/-- A tree without empty nodes stores something. -/
theorem pairs_ne_nil {h : Nat} {node : BPlus κ ν h} (filled : Every (0 < ·) h node) :
    pairs h node ≠ [] := by
  induction h with
  | zero => exact List.ne_nil_of_length_pos filled
  | succ h ih =>
      obtain ⟨entry, member⟩ := List.exists_mem_of_length_pos filled.1
      intro empty
      exact ih (filled.2 entry member) (List.flatMap_eq_nil_iff.mp empty entry member)

/-- In a tree without empty nodes, the first entries lead to the first pair. -/
theorem first_eq {h : Nat} {node : BPlus κ ν h} (filled : Every (0 < ·) h node) :
    first h node = (pairs h node).head? := by
  induction h with
  | zero => rfl
  | succ h ih =>
      cases node with
      | nil => exact absurd filled.1 (Nat.lt_irrefl 0)
      | cons entry rest =>
          have below := filled.2 entry List.mem_cons_self
          have shape : pairs (h + 1) (entry :: rest) =
              pairs h entry.2 ++ pairs (h + 1) (rest : BPlus κ ν (h + 1)) := List.flatMap_cons
          rw [shape, List.head?_append_of_ne_nil _ (pairs_ne_nil below), ← ih below]
          rfl

/-- In a tree without empty nodes, the last entries lead to the last pair. -/
theorem last_eq {h : Nat} {node : BPlus κ ν h} (filled : Every (0 < ·) h node) :
    last h node = (pairs h node).getLast? := by
  induction h with
  | zero => rfl
  | succ h ih =>
      rcases List.eq_nil_or_concat node with rfl | ⟨front, entry, rfl⟩
      · exact absurd filled.1 (Nat.lt_irrefl 0)
      · have below := filled.2 entry (by simp)
        have shape : pairs (h + 1) (front.concat entry : BPlus κ ν (h + 1)) =
            pairs (h + 1) (front : BPlus κ ν (h + 1)) ++ pairs h entry.2 := by
          simp [pairs]
        rw [shape, List.getLast?_append_of_ne_nil _ (pairs_ne_nil below), ← ih below]
        simp [last]

/-- The first pair of a filled tree, be it an empty leaf. -/
theorem Filled.first_eq {h : Nat} {node : BPlus κ ν h} (filled : Filled h node) :
    first h node = (pairs h node).head? := by
  cases h with
  | zero => rfl
  | succ h => exact BPlus.first_eq filled.all

/-- The last pair of a filled tree, be it an empty leaf. -/
theorem Filled.last_eq {h : Nat} {node : BPlus κ ν h} (filled : Filled h node) :
    last h node = (pairs h node).getLast? := by
  cases h with
  | zero => rfl
  | succ h => exact BPlus.last_eq filled.all

section Parts

variable {h : Nat} {node : BPlus κ ν h} {default key : κ}

/-- The keys of two nodes put together. -/
theorem keys_append (left right : BPlus κ ν h) :
    keys h (left ++ right) = keys h left ++ keys h right := by
  cases h with
  | zero => exact List.map_append
  | succ h => exact List.flatMap_append

/-- The pairs of two nodes put together. -/
theorem pairs_append (left right : BPlus κ ν h) :
    pairs h (left ++ right) = pairs h left ++ pairs h right := by
  cases h with
  | zero => rfl
  | succ h => exact List.flatMap_append

/-- The pairs of a node, its first child apart. -/
theorem pairs_cons (entry : κ × BPlus κ ν h) (rest : BPlus κ ν (h + 1)) :
    pairs (h + 1) (entry :: rest : BPlus κ ν (h + 1)) = pairs h entry.2 ++ pairs (h + 1) rest :=
  List.flatMap_cons

/-- Cutting a node in two keeps the keys. -/
theorem keys_cut (node : BPlus κ ν h) (split : Nat) :
    keys h (node.take split) ++ keys h (node.drop split) = keys h node := by
  rw [← keys_append, List.take_append_drop]

/-- Cutting a node in two keeps the pairs. -/
theorem pairs_cut (node : BPlus κ ν h) (split : Nat) :
    pairs h (node.take split) ++ pairs h (node.drop split) = pairs h node := by
  rw [← pairs_append, List.take_append_drop]

/-- Sizes of a node put together from entries of another. -/
theorem Every.of_entries {size : Nat → Prop} {whole part : BPlus κ ν h} (all : Every size h whole)
    (kept : ∀ entry ∈ part, entry ∈ whole) (counted : size part.length) : Every size h part := by
  cases h with
  | zero => exact counted
  | succ h => exact ⟨counted, fun entry member => all.2 entry (kept entry member)⟩

/-- The last key is the key of the last entry. -/
theorem lastKey_append {α : Type} {front : List (κ × α)} {entry : κ × α} :
    lastKey default (front ++ [entry]) = entry.1 := by simp [lastKey]

/-- The last key of a node is one of its keys. -/
theorem lastKey_mem (default : κ) (filled : node ≠ []) : lastKey default node ∈ keys h node := by
  rcases List.eq_nil_or_concat node with rfl | ⟨front, entry, rfl⟩
  · exact absurd rfl filled
  · rw [List.concat_eq_append, lastKey_append]
    cases h with
    | zero => simp [keys]
    | succ h => exact mem_keys_succ.mpr ⟨entry, by simp, .inl rfl⟩

/-- An entry for a child that is not empty adds no key. -/
theorem keys_labelled {child : BPlus κ ν h} (filled : child ≠ [])
    (member : key ∈ keys (h + 1) ([labelled default child] : BPlus κ ν (h + 1))) :
    key ∈ keys h child := by
  obtain ⟨entry, inside, place⟩ := mem_keys_succ.mp member
  rw [List.mem_singleton] at inside
  subst inside
  rcases place with rfl | under
  · exact lastKey_mem default filled
  · exact under

/-- An entry for a child adds no pair. -/
theorem pairs_labelled (default : κ) (child : BPlus κ ν h) :
    pairs (h + 1) ([labelled default child] : BPlus κ ν (h + 1)) = pairs h child := by
  simp [pairs, labelled]

/-- An entry for any child adds the default key at most. -/
theorem keys_labelled_or {child : BPlus κ ν h}
    (member : key ∈ keys (h + 1) ([labelled default child] : BPlus κ ν (h + 1))) :
    key = default ∨ key ∈ keys h child := by
  by_cases filled : child = []
  · subst filled
    obtain ⟨entry, inside, place⟩ := mem_keys_succ.mp member
    rw [List.mem_singleton] at inside
    subst inside
    exact place.imp id id
  · exact .inr (keys_labelled filled member)

/-- The pairs of a node with one child. -/
theorem mem_pairs_single {child : BPlus κ ν h} {pair : κ × ν} :
    pair ∈ pairs (h + 1) ([labelled default child] : BPlus κ ν (h + 1)) ↔ pair ∈ pairs h child := by
  simp [pairs, labelled]

/-- The pairs of a node with two children. -/
theorem mem_pairs_pair {left right : BPlus κ ν h} {other : κ} {pair : κ × ν} :
    pair ∈ pairs (h + 1) ([labelled default left, labelled other right] : BPlus κ ν (h + 1)) ↔
      pair ∈ pairs h left ∨ pair ∈ pairs h right := by
  simp [pairs, labelled]

/-- The keys of a node with two children under their own last keys. -/
theorem keys_pair {left right : BPlus κ ν h} {other : κ} (leftFilled : left ≠ [])
    (rightFilled : right ≠ [])
    (member : key ∈ keys (h + 1)
      ([labelled default left, labelled other right] : BPlus κ ν (h + 1))) :
    key ∈ keys h left ∨ key ∈ keys h right := by
  change key ∈ keys (h + 1) ([labelled default left] ++ [labelled other right] :
    BPlus κ ν (h + 1)) at member
  rw [keys_append, List.mem_append] at member
  exact member.imp (keys_labelled leftFilled) (keys_labelled rightFilled)

end Parts

end BPlus

end EverDb.Foundation
