import EverDb.Foundation.BPlus.InsertSpec

/-!
# Growing a tree by a level

A root is cut in the middle, and a new root of two entries is put above the
halves. The stored pairs stay as they are, in their order.
-/

namespace EverDb.Foundation.BPlus

variable {κ ν : Type} {h : Nat}

/-- A root of two entries over the halves of a node. -/
def grow (default : κ) (node : BPlus κ ν h) : BPlus κ ν (h + 1) :=
  [labelled default (node.take (node.length / 2)), labelled default (node.drop (node.length / 2))]

variable {node : BPlus κ ν h} {default : κ}

theorem pairs_grow : pairs (h + 1) (grow default node) = pairs h node := by
  simp [grow, pairs, labelled, pairs_cut]

theorem every_grow {size : Nat → Prop} (all : Every size h node) (two : size 2)
    (halves : size (node.length / 2) ∧ size (node.length - node.length / 2)) :
    Every size (h + 1) (grow default node) := by
  refine ⟨two, ?_⟩
  rw [grow, List.forall_mem_cons, List.forall_mem_singleton]
  refine ⟨all.of_entries (fun _ => List.mem_of_mem_take) ?_,
    all.of_entries (fun _ => List.mem_of_mem_drop) ?_⟩
  · have counted : (node.take (node.length / 2)).length = node.length / 2 := by
      rw [List.length_take, Nat.min_eq_left (Nat.div_le_self _ _)]
    change size (node.take (node.length / 2)).length
    rw [counted]
    exact halves.1
  · have counted : (node.drop (node.length / 2)).length = node.length - node.length / 2 :=
      List.length_drop
    change size (node.drop (node.length / 2)).length
    rw [counted]
    exact halves.2

variable [LinearOrder κ]

/-- What follows a part of a node is above the part's last key. -/
theorem Bounded.lastKey_lt {under : (h : Nat) → BPlus κ ν h → List κ} (reading : Reading under)
    (default : κ) {left right : BPlus κ ν h} (bounded : Bounded under h (left ++ right))
    (filled : left ≠ []) :
    (∀ entry ∈ right, lastKey default left < entry.1) ∧
      ∀ key ∈ under h right, lastKey default left < key := by
  rcases List.eq_nil_or_concat left with rfl | ⟨front, entry, rfl⟩
  · exact absurd rfl filled
  · rw [List.concat_eq_append] at bounded ⊢
    rw [lastKey_append]
    have ascending : ∀ other ∈ right, entry.1 < other.1 := fun other member =>
      (List.pairwise_append.mp bounded.ascending).2.2 entry (by simp) other member
    refine ⟨ascending, fun key member => ?_⟩
    cases h with
    | zero =>
        obtain ⟨other, inside, rfl⟩ := reading.leaf _ _ member
        exact ascending other inside
    | succ h =>
        obtain ⟨other, inside, place⟩ := reading.node _ _ _ member
        rcases place with rfl | below
        · exact ascending other inside
        · exact ((List.pairwise_append.mp bounded.1).2.2 entry (by simp) other inside).2 key below

/-- Growing keeps the order, in either reading of the bounds. -/
theorem Bounded.grow {under : (h : Nat) → BPlus κ ν h → List κ} (reading : Reading under)
    (bounded : Bounded under h node) (two : 2 ≤ node.length) :
    Bounded under (h + 1) (BPlus.grow default node) := by
  have lowFilled : node.take (node.length / 2) ≠ [] := by
    rw [ne_eq, ← List.length_eq_zero_iff, List.length_take]
    omega
  have highFilled : node.drop (node.length / 2) ≠ [] := by
    rw [ne_eq, ← List.length_eq_zero_iff, List.length_drop]
    omega
  have low := bounded.sublist (List.take_sublist (node.length / 2) node)
  have high := bounded.sublist (List.drop_sublist (node.length / 2) node)
  rw [← List.take_append_drop (node.length / 2) node] at bounded
  obtain ⟨entries, inside⟩ := bounded.lastKey_lt reading default lowFilled
  obtain ⟨front, last, shape⟩ := (List.eq_nil_or_concat _).resolve_left highFilled
  have lastLess : lastKey default (node.take (node.length / 2)) <
      lastKey default (node.drop (node.length / 2)) := by
    rw [shape, List.concat_eq_append, lastKey_append]
    exact entries last (by simp [shape])
  refine ⟨List.pairwise_pair.mpr ⟨lastLess, inside⟩, ?_⟩
  rw [BPlus.grow, List.forall_mem_cons, List.forall_mem_singleton]
  exact ⟨⟨fun key member => le_lastKey reading default low member, low⟩,
    fun key member => le_lastKey reading default high member, high⟩

end EverDb.Foundation.BPlus
