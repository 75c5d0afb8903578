import EverDb.Foundation.BPlus.InsertSpec

/-!
# Removal

A key is removed from its leaf. A node that has become too small is repaired by
its parent: it takes the nearest entry of the child beside it when that one has
more than `split` entries, and is joined with it otherwise. `repairs` lists the
repairs from the lowest level up; only a joint makes the next level up repair too.
-/

namespace EverDb.Foundation.BPlus

variable {κ ν α : Type} [LinearOrder κ]

/-- The first entry that is not below the key, with the entries around it. -/
structure Enters (k : κ) (entries front : List (κ × α)) (entry : κ × α)
    (back : List (κ × α)) : Prop where
  shape : entries = front ++ entry :: back
  skipped : ∀ other ∈ front, other.1 < k
  reached : k ≤ entry.1

/-- Compute the entry. -/
def enter (k : κ) : List (κ × α) → Option (List (κ × α) × (κ × α) × List (κ × α))
  | [] => none
  | entry :: rest =>
      if k ≤ entry.1 then some ([], entry, rest)
      else (enter k rest).map fun found => (entry :: found.1, found.2)

/-- The search enters the entry at which the node is cut. -/
theorem Enters.enter_eq {k : κ} {entries front back : List (κ × α)} {entry : κ × α}
    (enters : Enters k entries front entry back) : enter k entries = some (front, entry, back) := by
  obtain ⟨rfl, skipped, reached⟩ := enters
  induction front with
  | nil => rw [List.nil_append, enter, if_pos reached]
  | cons head front ih =>
      have before := skipped head List.mem_cons_self
      rw [List.cons_append, enter, if_neg (not_le_of_gt before),
        ih fun other member => skipped other (List.mem_cons_of_mem _ member)]
      rfl

/-- Where a removal enters, a set would cut. -/
theorem Enters.cut {k : κ} {entries front back : List (κ × α)} {entry : κ × α}
    (enters : Enters k entries front entry back) : Cut k entries front entry back :=
  ⟨enters.shape, enters.skipped, .inl enters.reached⟩

/-- A key above all separators enters nowhere. -/
theorem enter_none {k : κ} {entries : List (κ × α)} (below : ∀ other ∈ entries, other.1 < k) :
    enter k entries = none := by
  induction entries with
  | nil => rfl
  | cons entry rest ih =>
      have before := below entry List.mem_cons_self
      rw [enter, if_neg (not_le_of_gt before), ih fun other member =>
        below other (List.mem_cons_of_mem _ member)]
      rfl

/-- Either an entry is entered, or every key is below the one sought. -/
theorem enters_or_below (k : κ) (entries : List (κ × α)) :
    (∃ front entry back, Enters k entries front entry back) ∨ ∀ other ∈ entries, other.1 < k := by
  induction entries with
  | nil => exact .inr (by simp)
  | cons entry rest ih =>
      by_cases reached : k ≤ entry.1
      · exact .inl ⟨[], entry, rest, rfl, by simp, reached⟩
      · have before := lt_of_not_ge reached
        rcases ih with ⟨front, found, back, rfl, skipped, reached⟩ | below
        · refine .inl ⟨entry :: front, found, back, rfl, fun other member => ?_, reached⟩
          rcases List.mem_cons.mp member with rfl | inFront
          · exact before
          · exact skipped other inFront
        · refine .inr fun other member => ?_
          rcases List.mem_cons.mp member with rfl | inRest
          · exact before
          · exact below other inRest

/-- The entry beside the entered one: the next, or the previous for the last entry. -/
inductive Beside (ε : Type) where
  | alone
  | next (other : ε) (after : List ε)
  | previous (before : List ε) (other : ε)

/-- Find the entry beside. -/
def beside {ε : Type} (front : List ε) : List ε → Beside ε
  | other :: after => .next other after
  | [] =>
      match front.getLast? with
      | some other => .previous front.dropLast other
      | none => .alone

/-- What is done about a node that has become too small: nothing can be done, an entry is
taken from the node beside it, or the two are joined. A joint leads to `merged` entries and
leaves `left` in the parent. -/
inductive Repair where
  | alone
  | steal
  | merge (merged left : Nat)
  deriving DecidableEq

/-- Whether a repair makes the parent too small. -/
def Repair.again : Repair → Bool
  | .merge _ _ => true
  | _ => false

/-- The repair of a child of `width` entries in a node of `total`. -/
def repairOf {β : Type} (split width total : Nat) : Beside (κ × List β) → Repair
  | .alone => .alone
  | .next other _ | .previous _ other =>
      if split < other.2.length then .steal else .merge (width + other.2.length) (total - 1)

/-- Whether removing a key makes a node report that it is too small. -/
def short (split : Nat) : (h : Nat) → BPlus κ ν h → κ → Bool
  | 0, leaf, _ => leaf.length ≤ split
  | h + 1, node, k =>
      match enter k node with
      | none => false
      | some (front, (_, child), back) =>
          short split h child k &&
            (repairOf split (child.length - 1) node.length (beside front back)).again

/-- The repairs of a removal, from the lowest level up. -/
def repairs (split : Nat) : (h : Nat) → BPlus κ ν h → κ → List Repair
  | 0, _, _ => []
  | h + 1, node, k =>
      match enter k node with
      | none => []
      | some (front, (_, child), back) =>
          repairs split h child k ++
            if short split h child k then
              [repairOf split (child.length - 1) node.length (beside front back)]
            else []

/-- Put a changed child back, with the help of the child beside it. -/
def rebalance (split : Nat) {h : Nat} (front : BPlus κ ν (h + 1)) (separator : κ)
    (rest : BPlus κ ν h) (back : BPlus κ ν (h + 1)) : BPlus κ ν (h + 1) :=
  match beside front back with
  | .alone => [(separator, rest)]
  | .next (label, other) after =>
      let both := rest ++ other
      front ++ (if split < other.length then
        [labelled separator (both.take (rest.length + 1)),
          labelled label (both.drop (rest.length + 1))]
      else [labelled separator both]) ++ after
  | .previous before (label, other) =>
      let both := other ++ rest
      before ++ if split < other.length then
        [labelled label (both.take (other.length - 1)),
          labelled separator (both.drop (other.length - 1))]
      else [labelled label both]

/-- Remove a key. -/
def remove (split : Nat) : (h : Nat) → BPlus κ ν h → κ → BPlus κ ν h
  | 0, leaf, k => leaf.filter fun entry => entry.1 ≠ k
  | h + 1, node, k =>
      match enter k node with
      | none => node
      | some (front, (separator, child), back) =>
          let rest := remove split h child k
          if short split h child k then rebalance split front separator rest back
          else front ++ labelled separator rest :: back

section Equations

variable {split h : Nat} {node front back : BPlus κ ν (h + 1)} {separator k : κ}
  {child : BPlus κ ν h}

/-- A node is short when its child is and the repair leaves too few entries. -/
theorem short_succ (enters : Enters k node front (separator, child) back) :
    short split (h + 1) node k = (short split h child k &&
      (repairOf split (child.length - 1) node.length (beside front back)).again) := by
  rw [short, enters.enter_eq]

/-- The repairs of a removal are those below, then the node's own if the child is short. -/
theorem repairs_succ (enters : Enters k node front (separator, child) back) :
    repairs split (h + 1) node k = repairs split h child k ++
      if short split h child k then
        [repairOf split (child.length - 1) node.length (beside front back)]
      else [] := by
  rw [repairs, enters.enter_eq]

/-- With enough entries left, the child stands where it stood. -/
theorem remove_kept (enters : Enters k node front (separator, child) back)
    (kept : short split h child k = false) :
    remove split (h + 1) node k = front ++ labelled separator (remove split h child k) :: back := by
  rw [remove, enters.enter_eq]
  simp only [kept]
  rfl

/-- With too few entries left, the child is balanced with the one beside it. -/
theorem remove_short (enters : Enters k node front (separator, child) back)
    (few : short split h child k = true) :
    remove split (h + 1) node k =
      rebalance split front separator (remove split h child k) back := by
  rw [remove, enters.enter_eq]
  simp only [few, if_true]

end Equations

/-- Beside a child is the next one, when there is a next one. -/
theorem beside_next {ε : Type} (front : List ε) (other : ε) (after : List ε) :
    beside front (other :: after) = .next other after := rfl

/-- Beside the last child is the previous one. -/
theorem beside_previous {ε : Type} (before : List ε) (other : ε) :
    beside (before ++ [other]) [] = .previous before other := by
  simp [beside]

/-- An entry stands alone, or beside the next one, or beside the one before it. -/
theorem beside_cases {ε : Type} (front back : List ε) :
    (front = [] ∧ back = []) ∨ (∃ other after, back = other :: after) ∨
      ∃ before other, front = before ++ [other] ∧ back = [] := by
  cases back with
  | cons other after => exact .inr (.inl ⟨other, after, rfl⟩)
  | nil =>
      rcases List.eq_nil_or_concat front with rfl | ⟨before, other, rfl⟩
      · exact .inl ⟨rfl, rfl⟩
      · exact .inr (.inr ⟨before, other, List.concat_eq_append, rfl⟩)

/-- How a repair changes a node: two adjacent children, one of them with the key removed, are
cut anew or joined. -/
structure Repaired (split : Nat) {h : Nat} (front : BPlus κ ν (h + 1)) (separator : κ)
    (child rest : BPlus κ ν h) (back outer : BPlus κ ν (h + 1)) (lower upper : κ × BPlus κ ν h)
    (inner : BPlus κ ν (h + 1)) (other both : BPlus κ ν h) (cut : Nat)
    (next : BPlus κ ν (h + 1)) : Prop where
  sides : (front = outer ∧ (separator, child) = lower ∧ back = upper :: inner ∧ other = upper.2 ∧
      both = rest ++ other ∧ cut = rest.length + 1) ∨
    (front = outer ++ [lower] ∧ (separator, child) = upper ∧ back = [] ∧
      inner = [] ∧ other = lower.2 ∧
      both = other ++ rest ∧ cut = other.length - 1)
  result : next = outer ++ (if split < other.length then
      [labelled lower.1 (both.take cut), labelled upper.1 (both.drop cut)]
    else [labelled lower.1 both]) ++ inner

section Steps

variable {split h : Nat} {node front back : BPlus κ ν (h + 1)} {separator k : κ}
  {child : BPlus κ ν h}

/-- Removal in a node whose child has become too small. -/
theorem remove_repaired (enters : Enters k node front (separator, child) back)
    (few : short split h child k = true) :
    (front = [] ∧ back = [] ∧ remove split (h + 1) node k = [(separator, remove split h child k)] ∧
      repairOf split (child.length - 1) node.length (beside front back) = .alone) ∨
    ∃ outer lower upper inner other both cut,
      Repaired split front separator child (remove split h child k) back outer lower
        upper inner other
        both cut (remove split (h + 1) node k) ∧
      repairOf split (child.length - 1) node.length (beside front back) =
        if split < other.length then .steal
        else .merge (child.length - 1 + other.length) (node.length - 1) := by
  rw [remove_short enters few]
  rcases beside_cases front back with ⟨rfl, rfl⟩ |
    ⟨⟨label, other⟩, after, rfl⟩ | ⟨before, ⟨label, other⟩, rfl, rfl⟩
  · exact .inl ⟨rfl, rfl, rfl, rfl⟩
  · refine .inr ⟨front, (separator, child), (label, other), after, other,
      remove split h child k ++ other, (remove split h child k).length + 1, ⟨?_, ?_⟩, ?_⟩
    · exact .inl ⟨rfl, rfl, rfl, rfl, rfl, rfl⟩
    · rw [rebalance, beside_next]
    · rw [beside_next, repairOf]
  · refine .inr ⟨before, (label, other), (separator, child), [], other,
      other ++ remove split h child k, List.length other - 1, ⟨?_, ?_⟩, ?_⟩
    · exact .inr ⟨rfl, rfl, rfl, rfl, rfl, rfl, rfl⟩
    · rw [rebalance, beside_previous]
      simp
    · rw [beside_previous, repairOf]

/-- A stored key is entered, and is stored below the entry. -/
theorem Bounded.enters (bounded : Searchable (h + 1) node) (stored : k ∈ leafKeys (h + 1) node) :
    ∃ front separator child back, Enters k node front (separator, child) back ∧
      k ∈ leafKeys h child := by
  obtain ⟨value, member⟩ := mem_leafKeys.mp stored
  rcases enters_or_below k node with ⟨front, ⟨separator, child⟩, back, enters⟩ | below
  · refine ⟨front, separator, child, back, enters, mem_leafKeys.mpr ⟨value, ?_⟩⟩
    obtain ⟨rfl, skipped, reached⟩ := enters
    exact bounded.routed skipped reached member
  · obtain ⟨entry, inside, under⟩ := mem_pairs_succ.mp member
    have atMost := (bounded.2 entry inside).1 k (mem_leafKeys.mpr ⟨value, under⟩)
    exact absurd (below entry inside) (not_lt_of_ge atMost)

end Steps

end EverDb.Foundation.BPlus
