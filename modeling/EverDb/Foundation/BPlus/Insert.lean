import EverDb.Foundation.BPlus.Order

/-!
# Insertion

A key is inserted along its route: at each node the first entry that is not
below it, or the last entry. A full child, one whose whole route is full, is cut
in two before the insertion is repeated in the half that the separator of the
child, as it was before the cut, selects. `Safe` says when that half is right.
-/

namespace EverDb.Foundation.BPlus

variable {κ ν α : Type} [LinearOrder κ]

/-- The entry a change at `k` goes through, with the entries around it. -/
structure Cut (k : κ) (entries front : List (κ × α)) (entry : κ × α)
    (back : List (κ × α)) : Prop where
  shape : entries = front ++ entry :: back
  skipped : ∀ other ∈ front, other.1 < k
  reached : k ≤ entry.1 ∨ back = []

/-- Compute the cut. -/
def route (k : κ) : List (κ × α) → Option (List (κ × α) × (κ × α) × List (κ × α))
  | [] => none
  | entry :: rest =>
      if k ≤ entry.1 ∨ rest.isEmpty then some ([], entry, rest)
      else (route k rest).map fun found => (entry :: found.1, found.2)

/-- The search goes where the node is cut. -/
theorem Cut.route_eq {k : κ} {entries front back : List (κ × α)} {entry : κ × α}
    (cut : Cut k entries front entry back) : route k entries = some (front, entry, back) := by
  obtain ⟨rfl, skipped, reached⟩ := cut
  induction front with
  | nil =>
      have stop : k ≤ entry.1 ∨ back.isEmpty = true := reached.imp id (by simp)
      simp only [List.nil_append, route, if_pos stop]
  | cons head front ih =>
      have before := skipped head (by simp)
      have goes : ¬(k ≤ head.1 ∨ (front ++ entry :: back).isEmpty = true) := by
        simp [not_le_of_gt before]
      rw [List.cons_append, route, if_neg goes,
        ih fun other member => skipped other (List.mem_cons_of_mem _ member)]
      rfl

/-- A node with entries can be cut. -/
theorem Cut.exists {k : κ} {entries : List (κ × α)} (filled : 0 < entries.length) :
    ∃ front entry back, Cut k entries front entry back := by
  induction entries with
  | nil => simp at filled
  | cons entry rest ih =>
      by_cases stop : k ≤ entry.1 ∨ rest = []
      · exact ⟨[], entry, rest, rfl, by simp, stop⟩
      · rw [not_or, not_le] at stop
        obtain ⟨front, found, back, rfl, skipped, reached⟩ := ih (List.length_pos_iff.mpr stop.2)
        refine ⟨entry :: front, found, back, rfl, ?_, reached⟩
        rintro other member
        rcases List.mem_cons.mp member with rfl | inFront
        · exact stop.1
        · exact skipped other inFront

/-- The entry at the cut is one of the node's. -/
theorem Cut.mem {k : κ} {entries front back : List (κ × α)} {entry : κ × α}
    (cut : Cut k entries front entry back) : entry ∈ entries := by
  rw [cut.shape]
  simp

/-- Whether the key is absent from the leaf its route ends in and every node on the
route has `cap` entries. -/
def pathFull (cap : Nat) : (h : Nat) → BPlus κ ν h → κ → Bool
  | 0, leaf, k => leaf.length = cap && !leaf.any fun entry => entry.1 = k
  | h + 1, node, k =>
      node.length = cap && match route k node with
        | none => false
        | some (_, entry, _) => pathFull cap h entry.2 k

/-- Insert or overwrite. -/
def set (cap split : Nat) : (h : Nat) → BPlus κ ν h → κ → ν → BPlus κ ν h
  | 0, leaf, k, value =>
      leaf.filter (fun entry => entry.1 < k) ++ (k, value) :: leaf.filter fun entry => k < entry.1
  | h + 1, node, k, value =>
      match route k node with
      | none => node
      | some (front, (separator, child), back) =>
          if pathFull cap h child k then
            let low := child.take split
            let high := child.drop split
            if k ≤ separator then
              front ++ labelled separator (set cap split h low k value) ::
                labelled separator high :: back
            else
              front ++ labelled separator low ::
                labelled separator (set cap split h high k value) :: back
          else front ++ labelled separator (set cap split h child k value) :: back

/-- Wherever the insertion cuts a full child, the key is either beyond the child's
separator or below everything in the child's upper part. -/
def Safe (cap split : Nat) : (h : Nat) → BPlus κ ν h → κ → Prop
  | 0, _, _ => True
  | h + 1, node, k =>
      match route k node with
      | none => True
      | some (_, (separator, child), _) =>
          if pathFull cap h child k then
            if k ≤ separator then
              (∀ key ∈ keys h (child.drop split), k < key) ∧ Safe cap split h (child.take split) k
            else Safe cap split h (child.drop split) k
          else Safe cap split h child k

/-- How many nodes an insertion cuts, in a tree whose route is not full. -/
def cuts (cap split : Nat) : (h : Nat) → BPlus κ ν h → κ → Nat
  | 0, _, _ => 0
  | h + 1, node, k =>
      match route k node with
      | none => 0
      | some (_, (separator, child), _) =>
          if pathFull cap h child k then
            cuts cap split h (if k ≤ separator then child.take split else child.drop split) k + 1
          else cuts cap split h child k

/-- Inserting an absent key into an ascending leaf. -/
theorem set_absent {cap split : Nat} {front back : List (κ × ν)} {k : κ} {value : ν}
    (skipped : ∀ other ∈ front, other.1 < k) (above : ∀ other ∈ back, k < other.1) :
    set cap split 0 (front ++ back : BPlus κ ν 0) k value = front ++ (k, value) :: back := by
  have low : (front ++ back).filter (fun entry => decide (entry.1 < k)) = front := by
    rw [List.filter_append, List.filter_eq_self.mpr (by simpa using skipped),
      List.filter_eq_nil_iff.mpr (by simpa using fun a b member => le_of_lt (above (a, b) member)),
      List.append_nil]
  have high : (front ++ back).filter (fun entry => decide (k < entry.1)) = back := by
    rw [List.filter_append, List.filter_eq_nil_iff.mpr
      (by simpa using fun a b member => le_of_lt (skipped (a, b) member)),
      List.filter_eq_self.mpr (by simpa using above), List.nil_append]
  rw [set, low, high]

/-- Overwriting the value of a key in an ascending leaf. -/
theorem set_present {cap split : Nat} {front back : List (κ × ν)} {k : κ} {value old : ν}
    (skipped : ∀ other ∈ front, other.1 < k) (above : ∀ other ∈ back, k < other.1) :
    set cap split 0 (front ++ (k, old) :: back : BPlus κ ν 0) k value =
      front ++ (k, value) :: back := by
  have dropped : set cap split 0 (front ++ (k, old) :: back : BPlus κ ν 0) k value =
      set cap split 0 (front ++ back : BPlus κ ν 0) k value := by
    simp only [set, List.filter_append, List.filter_cons, lt_irrefl, decide_false,
      Bool.false_eq_true, if_false]
  rw [dropped, set_absent skipped above]

section Equations

variable {cap split h : Nat} {front back : BPlus κ ν (h + 1)} {separator k : κ}
  {child : BPlus κ ν h}
  {node : BPlus κ ν (h + 1)} {value : ν}

/-- A path is full when the node is and the path below the cut is. -/
theorem pathFull_succ (cut : Cut k node front (separator, child) back) :
    pathFull cap (h + 1) node k = (decide (node.length = cap) && pathFull cap h child k) := by
  rw [pathFull, cut.route_eq]

/-- With room below, the new pair goes into the child. -/
theorem set_inside (cut : Cut k node front (separator, child) back)
    (room : pathFull cap h child k = false) :
    set cap split (h + 1) node k value =
      front ++ labelled separator (set cap split h child k value) :: back := by
  rw [set, cut.route_eq]
  simp only [room]
  rfl

/-- With no room below, the child is cut in two; a low key goes into the lower half. -/
theorem set_low (cut : Cut k node front (separator, child) back)
    (full : pathFull cap h child k = true) (low : k ≤ separator) :
    set cap split (h + 1) node k value =
      front ++ labelled separator (set cap split h (child.take split) k value) ::
        labelled separator (child.drop split) :: back := by
  rw [set, cut.route_eq]
  simp only [full, if_pos low, if_true]

/-- With no room below, the child is cut in two; a high key goes into the upper half. -/
theorem set_high (cut : Cut k node front (separator, child) back)
    (full : pathFull cap h child k = true) (high : ¬k ≤ separator) :
    set cap split (h + 1) node k value =
      front ++ labelled separator (child.take split) ::
        labelled separator (set cap split h (child.drop split) k value) :: back := by
  rw [set, cut.route_eq]
  simp only [full, if_neg high, if_true]

/-- With room below, a set is safe when it is in the child. -/
theorem safe_inside (cut : Cut k node front (separator, child) back)
    (room : pathFull cap h child k = false) :
    Safe cap split (h + 1) node k ↔ Safe cap split h child k := by
  rw [Safe, cut.route_eq]
  simp [room]

/-- A set into the lower half is safe when the key lies below all of the upper half. -/
theorem safe_low (cut : Cut k node front (separator, child) back)
    (full : pathFull cap h child k = true) (low : k ≤ separator) :
    Safe cap split (h + 1) node k ↔
      (∀ key ∈ keys h (child.drop split), k < key) ∧ Safe cap split h (child.take split) k := by
  rw [Safe, cut.route_eq]
  simp [full, low]

/-- A set into the upper half is safe when it is so there. -/
theorem safe_high (cut : Cut k node front (separator, child) back)
    (full : pathFull cap h child k = true) (high : ¬k ≤ separator) :
    Safe cap split (h + 1) node k ↔ Safe cap split h (child.drop split) k := by
  rw [Safe, cut.route_eq]
  simp [full, high]

/-- With room below, the node itself cuts nothing. -/
theorem cuts_inside (cut : Cut k node front (separator, child) back)
    (room : pathFull cap h child k = false) :
    cuts cap split (h + 1) node k = cuts cap split h child k := by
  rw [cuts, cut.route_eq]
  simp [room]

/-- With no room below, it makes one cut more than the half that the key goes into. -/
theorem cuts_full (cut : Cut k node front (separator, child) back)
    (full : pathFull cap h child k = true) : cuts cap split (h + 1) node k =
      cuts cap split h (if k ≤ separator then child.take split else child.drop split) k + 1 := by
  rw [cuts, cut.route_eq]
  simp only [full, if_true]

end Equations

end EverDb.Foundation.BPlus
