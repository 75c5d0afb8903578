import EverDb.Foundation.BPlus.Insert

/-!
# What insertion keeps

The stored pairs change at the inserted key only, whichever half of a cut child
receives it. The order of the tree survives exactly when the insertion is `Safe`.
-/

namespace EverDb.Foundation.BPlus

variable {κ ν : Type} [LinearOrder κ] {cap split : Nat}

section Route

variable {h : Nat} {node front back : BPlus κ ν (h + 1)} {separator k : κ} {child : BPlus κ ν h}

/-- A cut node, with the child and what is behind it taken together. -/
theorem Cut.shape' (cut : Cut k node front (separator, child) back) :
    node = front ++ ([(separator, child)] ++ back) := cut.shape

/-- Nothing around the route is stored under the key. -/
theorem Cut.apart (cut : Cut k node front (separator, child) back)
    (bounded : Searchable (h + 1) node) :
    (∀ pair ∈ pairs (h + 1) front, pair.1 ≠ k) ∧ ∀ pair ∈ pairs (h + 1) back, pair.1 ≠ k := by
  obtain ⟨rfl, skipped, reached⟩ := cut
  constructor
  · intro pair stored same
    obtain ⟨other, member, inside⟩ := mem_pairs_succ.mp stored
    have atMost := (bounded.2 other (by simp [member])).1 pair.1 (mem_leafKeys.mpr ⟨pair.2, inside⟩)
    exact absurd (same ▸ atMost) (not_le_of_gt (skipped other member))
  · intro pair stored same
    obtain ⟨other, member, inside⟩ := mem_pairs_succ.mp stored
    rcases reached with reached | rfl
    · have apart := (List.pairwise_cons.mp (List.pairwise_append.mp bounded.1).2.1).1 other member
      have above := apart.2 pair.1 (mem_leafKeys.mpr ⟨pair.2, inside⟩)
      exact absurd (same ▸ above) (not_lt_of_ge reached)
    · cases member

/-- The pairs of a node, around the route. -/
theorem Cut.mem_pairs (cut : Cut k node front (separator, child) back) {pair : κ × ν} :
    pair ∈ pairs (h + 1) node ↔
      pair ∈ pairs (h + 1) front ∨ pair ∈ pairs h child ∨ pair ∈ pairs (h + 1) back := by
  rw [cut.shape', pairs_append, pairs_append, List.mem_append, List.mem_append]
  simp [pairs]

/-- The child at the cut is one of the node's. -/
theorem Cut.mem_child (cut : Cut k node front (separator, child) back) :
    (separator, child) ∈ node :=
  cut.mem

end Route

/-- A node on a full path is full. -/
theorem pathFull_length {h : Nat} {node : BPlus κ ν h} {k : κ}
    (full : pathFull cap h node k = true) : node.length = cap := by
  cases h with
  | zero =>
      rw [pathFull, Bool.and_eq_true] at full
      exact of_decide_eq_true full.1
  | succ h =>
      rw [pathFull, Bool.and_eq_true] at full
      exact of_decide_eq_true full.1

/-- A full route ends in a leaf without the key. -/
theorem pathFull_absent {h : Nat} {node : BPlus κ ν h} {k : κ} (bounded : Searchable h node)
    (full : pathFull cap h node k = true) : ∀ pair ∈ pairs h node, pair.1 ≠ k := by
  induction h with
  | zero =>
      intro pair member same
      rw [pathFull, Bool.and_eq_true] at full
      have present : (List.any node fun entry => decide (entry.1 = k)) = true :=
        List.any_eq_true.mpr ⟨pair, member, by simpa using same⟩
      rw [present] at full
      exact absurd full.2 (by simp)
  | succ h ih =>
      by_cases filled : 0 < node.length
      · obtain ⟨front, ⟨separator, child⟩, back, cut⟩ := Cut.exists (k := k) filled
        rw [pathFull_succ cut, Bool.and_eq_true] at full
        obtain ⟨before, after⟩ := cut.apart bounded
        intro pair member
        rcases cut.mem_pairs.mp member with inFront | inChild | inBack
        · exact before pair inFront
        · exact ih (bounded.2 _ cut.mem_child).2 full.2 pair inChild
        · exact after pair inBack
      · have empty : node = [] := List.length_eq_zero_iff.mp (by omega)
        subst empty
        intro pair member
        simp [pairs] at member

/-- What insertion does to an inner node. -/
theorem set_cases (cap split : Nat) {h : Nat} {node : BPlus κ ν (h + 1)}
    (filled : Every (0 < ·) (h + 1) node) (k : κ) (value : ν) :
    ∃ front separator child back, Cut k node front (separator, child) back ∧
      (pathFull cap h child k = false ∧
          set cap split (h + 1) node k value =
            front ++ [labelled separator (set cap split h child k value)] ++ back ∧
          (Safe cap split (h + 1) node k ↔ Safe cap split h child k) ∨
        pathFull cap h child k = true ∧ k ≤ separator ∧
          set cap split (h + 1) node k value =
            front ++ [labelled separator (set cap split h (child.take split) k value),
              labelled separator (child.drop split)] ++ back ∧
          (Safe cap split (h + 1) node k ↔
            (∀ key ∈ keys h (child.drop split), k < key) ∧ Safe cap split h (child.take split) k) ∨
        pathFull cap h child k = true ∧ ¬k ≤ separator ∧
          set cap split (h + 1) node k value =
            front ++ [labelled separator (child.take split),
              labelled separator (set cap split h (child.drop split) k value)] ++ back ∧
          (Safe cap split (h + 1) node k ↔ Safe cap split h (child.drop split) k)) := by
  obtain ⟨front, ⟨separator, child⟩, back, cut⟩ := Cut.exists (k := k) filled.1
  refine ⟨front, separator, child, back, cut, ?_⟩
  cases full : pathFull cap h child k with
  | false => exact .inl ⟨rfl, by simp [set_inside cut full], safe_inside cut full⟩
  | true =>
      by_cases low : k ≤ separator
      · exact .inr (.inl ⟨rfl, low, by simp [set_low cut full low], safe_low cut full low⟩)
      · exact .inr (.inr ⟨rfl, low, by simp [set_high cut full low], safe_high cut full low⟩)

section Halves

variable {h : Nat} {child : BPlus κ ν h} {k : κ}

/-- The lower half of a full node has `split` entries. -/
theorem take_length (bounds : 0 < split ∧ split < cap) (full : pathFull cap h child k = true) :
    (child.take split).length = split := by
  have length := pathFull_length full
  rw [List.length_take]
  omega

/-- The upper half of a full node has the others. -/
theorem drop_length (split : Nat) (full : pathFull cap h child k = true) :
    (child.drop split).length = cap - split := by
  rw [List.length_drop, pathFull_length full]

/-- The lower half of a full node has no empty node. -/
theorem take_filled (bounds : 0 < split ∧ split < cap) (full : pathFull cap h child k = true)
    (filled : Every (0 < ·) h child) : Every (0 < ·) h (child.take split) :=
  filled.of_entries (fun _ => List.mem_of_mem_take)
    (by rw [take_length bounds full]; exact bounds.1)

/-- The upper half of a full node has no empty node. -/
theorem drop_filled (bounds : 0 < split ∧ split < cap) (full : pathFull cap h child k = true)
    (filled : Every (0 < ·) h child) : Every (0 < ·) h (child.drop split) :=
  filled.of_entries (fun _ => List.mem_of_mem_drop) (by rw [drop_length split full]; omega)

end Halves

variable {h : Nat} {node : BPlus κ ν h} {k : κ} {value : ν}

/-- Insertion leaves no node empty. -/
theorem set_ne_nil (filled : Filled h node) (k : κ) (value : ν) :
    set cap split h node k value ≠ [] := by
  cases h with
  | zero => simp [set]
  | succ h =>
      obtain ⟨front, separator, child, back, _, ⟨_, shape, _⟩ | ⟨_, _, shape, _⟩ |
          ⟨_, _, shape, _⟩⟩ :=
        set_cases cap split filled.all k value
      all_goals rw [shape]; simp

/-- Insertion adds no other key than the one inserted. -/
theorem keys_set (bounds : 0 < split ∧ split < cap) (filled : Filled h node) :
    ∀ key ∈ keys h (set cap split h node k value), key ∈ keys h node ∨ key = k := by
  induction h with
  | zero =>
      intro key member
      simp only [set, keys, List.map_append, List.mem_append, List.map_cons, List.mem_cons,
        List.mem_map, List.mem_filter] at member ⊢
      rcases member with ⟨entry, inside, rfl⟩ | rfl | ⟨entry, inside, rfl⟩
      · exact .inl ⟨entry, inside.1, rfl⟩
      · exact .inr rfl
      · exact .inl ⟨entry, inside.1, rfl⟩
  | succ h ih =>
      obtain ⟨front, separator, child, back, cut, cases⟩ :=
        set_cases cap split filled.all k value
      have below := filled.all.2 _ cut.mem_child
      -- the keys of what replaces the child are keys of the child, or `k`
      suffices middle : ∃ middle : BPlus κ ν (h + 1),
          set cap split (h + 1) node k value = front ++ middle ++ back ∧
            ∀ key ∈ keys (h + 1) middle, key ∈ keys h child ∨ key = k by
        obtain ⟨middle, shape, within⟩ := middle
        intro key member
        rw [shape, keys_append, keys_append, List.mem_append, List.mem_append] at member
        rw [cut.shape', keys_append, keys_append, List.mem_append, List.mem_append]
        rcases member with (inFront | inMiddle) | inBack
        · exact .inl (.inl inFront)
        · rcases within key inMiddle with inChild | rfl
          · exact .inl
              (.inr (.inl (mem_keys_succ.mpr ⟨_, List.mem_singleton.mpr rfl, .inr inChild⟩)))
          · exact .inr rfl
        · exact .inl (.inr (.inr inBack))
      rcases cases with ⟨_, shape, _⟩ | ⟨full, _, shape, _⟩ | ⟨full, _, shape, _⟩
      · refine ⟨_, shape, fun key member => ?_⟩
        exact ih below.filled key (keys_labelled (set_ne_nil below.filled _ _) member)
      · refine ⟨_, shape, fun key member => ?_⟩
        have low := take_filled bounds full below
        have high := drop_filled bounds full below
        rw [← keys_cut child split, List.mem_append]
        rcases keys_pair (set_ne_nil low.filled _ _) (ne_nil high) member with inLow | inHigh
        · exact (ih low.filled key inLow).imp .inl id
        · exact .inl (.inr inHigh)
      · refine ⟨_, shape, fun key member => ?_⟩
        have low := take_filled bounds full below
        have high := drop_filled bounds full below
        rw [← keys_cut child split, List.mem_append]
        rcases keys_pair (ne_nil low) (set_ne_nil high.filled _ _) member with inLow | inHigh
        · exact .inl (.inl inLow)
        · exact (ih high.filled key inHigh).imp .inr id

/-- The pairs around the route stay, so an insertion below a node changes its pairs as
it changes those of the child. -/
theorem Cut.mem_replaced {h : Nat} {node front back middle : BPlus κ ν (h + 1)} {separator : κ}
    {child : BPlus κ ν h} (cut : Cut k node front (separator, child) back)
    (bounded : Searchable (h + 1) node) {pair : κ × ν}
    (inner : pair ∈ pairs (h + 1) middle ↔
      pair = (k, value) ∨ pair.1 ≠ k ∧ pair ∈ pairs h child) :
    pair ∈ pairs (h + 1) (front ++ middle ++ back) ↔
      pair = (k, value) ∨ pair.1 ≠ k ∧ pair ∈ pairs (h + 1) node := by
  obtain ⟨before, after⟩ := cut.apart bounded
  rw [pairs_append, pairs_append, List.mem_append, List.mem_append, inner, cut.mem_pairs]
  constructor
  · rintro ((inFront | rfl | ⟨apart, inChild⟩) | inBack)
    · exact .inr ⟨before pair inFront, .inl inFront⟩
    · exact .inl rfl
    · exact .inr ⟨apart, .inr (.inl inChild)⟩
    · exact .inr ⟨after pair inBack, .inr (.inr inBack)⟩
  · rintro (rfl | ⟨apart, inFront | inChild | inBack⟩)
    · exact .inl (.inr (.inl rfl))
    · exact .inl (.inl inFront)
    · exact .inl (.inr (.inr ⟨apart, inChild⟩))
    · exact .inr inBack

/-- The stored pairs after an insertion. -/
theorem mem_pairs_set (bounds : 0 < split ∧ split < cap) (bounded : Searchable h node)
    (filled : Filled h node) {pair : κ × ν} :
    pair ∈ pairs h (set cap split h node k value) ↔
      pair = (k, value) ∨ pair.1 ≠ k ∧ pair ∈ pairs h node := by
  induction h with
  | zero =>
      simp only [set, pairs, List.mem_append, List.mem_cons, List.mem_filter, decide_eq_true_eq]
      constructor
      · rintro (⟨inside, less⟩ | rfl | ⟨inside, more⟩)
        · exact .inr ⟨ne_of_lt less, inside⟩
        · exact .inl rfl
        · exact .inr ⟨ne_of_gt more, inside⟩
      · rintro (rfl | ⟨apart, inside⟩)
        · exact .inr (.inl rfl)
        · rcases lt_or_gt_of_ne apart with less | more
          · exact .inl ⟨inside, less⟩
          · exact .inr (.inr ⟨inside, more⟩)
  | succ h ih =>
      obtain ⟨front, separator, child, back, cut, cases⟩ :=
        set_cases cap split filled.all k value
      have below := filled.all.2 _ cut.mem_child
      have inner := (bounded.2 _ cut.mem_child).2
      rcases cases with ⟨_, shape, _⟩ | ⟨full, _, shape, _⟩ | ⟨full, _, shape, _⟩
      · rw [shape]
        refine cut.mem_replaced bounded ?_
        rw [mem_pairs_single]
        exact ih inner below.filled
      all_goals
        have absent := pathFull_absent inner full pair
        rw [← pairs_cut child split, List.mem_append] at absent
        rw [shape]
        refine cut.mem_replaced bounded ?_
        rw [mem_pairs_pair, ← pairs_cut child split, List.mem_append]
      · rw [ih (inner.sublist (List.take_sublist split child))
          (take_filled bounds full below).filled]
        constructor
        · rintro ((rfl | ⟨apart, inLow⟩) | inHigh)
          · exact .inl rfl
          · exact .inr ⟨apart, .inl inLow⟩
          · exact .inr ⟨absent (.inr inHigh), .inr inHigh⟩
        · rintro (rfl | ⟨apart, inLow | inHigh⟩)
          · exact .inl (.inl rfl)
          · exact .inl (.inr ⟨apart, inLow⟩)
          · exact .inr inHigh
      · rw [ih (inner.sublist (List.drop_sublist split child))
          (drop_filled bounds full below).filled]
        constructor
        · rintro (inLow | rfl | ⟨apart, inHigh⟩)
          · exact .inr ⟨absent (.inl inLow), .inl inLow⟩
          · exact .inl rfl
          · exact .inr ⟨apart, .inr inHigh⟩
        · rintro (rfl | ⟨apart, inLow | inHigh⟩)
          · exact .inr (.inl rfl)
          · exact .inl inLow
          · exact .inr (.inr ⟨apart, inHigh⟩)

/-- A leaf falls apart at a key. -/
theorem length_parts (leaf : List (κ × ν)) (k : κ) :
    (leaf.filter fun entry => entry.1 < k).length + (leaf.filter fun entry => k < entry.1).length +
      leaf.countP (fun entry => entry.1 = k) = leaf.length := by
  induction leaf with
  | nil => rfl
  | cons entry rest ih =>
      rcases lt_trichotomy entry.1 k with less | same | more
      · simp [less, not_lt_of_gt less, ne_of_lt less]
        omega
      · simp [same]
        omega
      · simp [more, not_lt_of_gt more, ne_of_gt more]
        omega

/-- Sizes of a node whose child has been replaced. -/
theorem Every.replaced {h : Nat} {size : Nat → Prop} {node front back middle : BPlus κ ν (h + 1)}
    {separator : κ} {child : BPlus κ ν h} (all : Every size (h + 1) node)
    (cut : Cut k node front (separator, child) back)
    (inner : ∀ entry ∈ middle, Every size h entry.2)
    (counted : size (node.length - 1 + middle.length)) :
    Every size (h + 1) (front ++ middle ++ back) := by
  have shape := cut.shape
  constructor
  · have length : (front ++ middle ++ back).length = node.length - 1 + middle.length := by
      rw [shape]
      simp only [List.length_append, List.length_cons]
      omega
    rw [length]
    exact counted
  · intro entry member
    rcases List.mem_append.mp member with rest | inBack
    · rcases List.mem_append.mp rest with inFront | inMiddle
      · exact all.2 entry (by simp [shape, inFront])
      · exact inner entry inMiddle
    · exact all.2 entry (by simp [shape, inBack])

/-- A node on a route that is not full has room, or its leaf holds the key. -/
theorem not_pathFull_of_length {h : Nat} {node : BPlus κ ν h} {k : κ} (less : node.length ≠ cap) :
    pathFull cap h node k = false := by
  rw [Bool.eq_false_iff]
  exact fun full => less (pathFull_length full)

/-- Insertion keeps the sizes of the nodes. -/
theorem every_set (bounds : 0 < split ∧ split < cap) (filled : Filled h node)
    (capped : Every (· ≤ cap) h node) (room : pathFull cap h node k = false) :
    Every (fun count => 0 < count ∧ count ≤ cap) h (set cap split h node k value) := by
  induction h with
  | zero =>
      have parts := length_parts node k
      have length : (set cap split 0 node k value).length =
          (node.filter fun entry => entry.1 < k).length +
            ((node.filter fun entry => k < entry.1).length + 1) := by
        simp [set]
      refine ⟨by omega, ?_⟩
      have atMost : node.length ≤ cap := capped
      rw [pathFull, Bool.and_eq_false_iff] at room
      rcases room with short | present
      · have apart : node.length ≠ cap := by simpa using short
        omega
      · have positive : 0 < node.countP (fun entry => entry.1 = k) := by
          rw [List.countP_pos_iff]
          simpa using present
        omega
  | succ h ih =>
      obtain ⟨front, separator, child, back, cut, cases⟩ := set_cases cap split filled.all k value
      have below := filled.all.2 _ cut.mem_child
      have childCapped := capped.2 _ cut.mem_child
      have both := filled.all.and capped
      have count : 0 < node.length ∧ node.length ≤ cap := both.1
      rw [pathFull_succ cut, Bool.and_eq_false_iff] at room
      rcases cases with ⟨free, shape, _⟩ | ⟨full, _, shape, _⟩ | ⟨full, _, shape, _⟩
      · rw [shape]
        refine both.replaced cut ?_ ?_
        · intro entry member
          rw [List.mem_singleton] at member
          subst member
          exact ih below.filled childCapped free
        · simp only [List.length_singleton]
          omega
      all_goals
        have lowFilled := take_filled bounds full below
        have highFilled := drop_filled bounds full below
        have lowLength := take_length bounds full
        have highLength := drop_length split full
        have lowCapped : Every (· ≤ cap) h (child.take split) :=
          childCapped.of_entries (fun _ => List.mem_of_mem_take) (by omega)
        have highCapped : Every (· ≤ cap) h (child.drop split) :=
          childCapped.of_entries (fun _ => List.mem_of_mem_drop) (by omega)
        have less : node.length < cap := by
          rcases room with short | free
          · have apart : node.length ≠ cap := by simpa using short
            omega
          · rw [full] at free
            cases free
        rw [shape]
        refine both.replaced cut ?_ (by simp only [List.length_cons, List.length_nil]; omega)
        rw [List.forall_mem_cons, List.forall_mem_singleton]
      · exact ⟨ih lowFilled.filled lowCapped (not_pathFull_of_length (by omega)),
          highFilled.and highCapped⟩
      · exact ⟨lowFilled.and lowCapped,
          ih highFilled.filled highCapped (not_pathFull_of_length (by omega))⟩

/-- The inserted key is a key of the tree. -/
theorem mem_keys_set (bounds : 0 < split ∧ split < cap) (bounded : Searchable h node)
    (filled : Filled h node) (k : κ) (value : ν) : k ∈ keys h (set cap split h node k value) := by
  have stored : (k, value) ∈ pairs h (set cap split h node k value) :=
    (mem_pairs_set bounds bounded filled).mpr (.inl rfl)
  exact mem_keys_of_pair stored

/-- The order of the tree survives exactly the safe insertions. -/
theorem ordered_set (bounds : 0 < split ∧ split < cap) (ordered : Ordered h node)
    (filled : Filled h node) :
    Ordered h (set cap split h node k value) ↔ Safe cap split h node k := by
  induction h with
  | zero =>
      simp only [Safe, iff_true]
      refine List.pairwise_append.mpr ⟨List.Pairwise.filter _ ordered, List.pairwise_cons.mpr
        ⟨fun entry member => ?_, List.Pairwise.filter _ ordered⟩, fun low inLow high inHigh => ?_⟩
      · simpa using (List.mem_filter.mp member).2
      · have less : low.1 < k := by simpa using (List.mem_filter.mp inLow).2
        rcases List.mem_cons.mp inHigh with rfl | above
        · exact less
        · exact lt_trans less (by simpa using (List.mem_filter.mp above).2)
  | succ h ih =>
      obtain ⟨front, separator, child, back, cut, cases⟩ :=
        set_cases cap split filled.all k value
      have below := filled.all.2 _ cut.mem_child
      have inner := (ordered.2 _ cut.mem_child).2
      have whole := cut.shape'
      rw [← List.append_assoc] at whole
      -- the keys of the child and the new key fit between the neighbours
      have fits : ∀ key, key ∈ keys h child ∨ key = k → Between front back key := by
        rintro key (inChild | rfl)
        · rw [whole] at ordered
          exact ordered.between (mem_keys_succ.mpr ⟨_, List.mem_singleton.mpr rfl, .inr inChild⟩)
        · refine ⟨cut.skipped, fun other member => ?_⟩
          rcases cut.reached with reached | rfl
          · have apart := (List.pairwise_cons.mp (List.pairwise_append.mp
              (cut.shape ▸ ordered.1)).2.1).1 other member
            exact ⟨lt_of_le_of_lt reached apart.1, fun lower under =>
              lt_of_le_of_lt reached (apart.2 lower under)⟩
          · cases member
      have halves := ((List.take_append_drop split child).symm ▸ inner :
        Ordered h (child.take split ++ child.drop split)).append_lt
      rw [whole] at ordered
      rcases cases with ⟨_, shape, safe⟩ | ⟨full, low, shape, safe⟩ | ⟨full, high, shape, safe⟩
      · rw [shape, safe, ← ih inner below.filled, ordered.swap]
        · exact ⟨fun middle => (middle.2 _ List.mem_cons_self).2, ordered_labelled⟩
        · intro key member
          exact fits key (keys_set bounds below.filled key
            (keys_labelled (set_ne_nil below.filled _ _) member))
      · have lowFilled := take_filled bounds full below
        have highFilled := drop_filled bounds full below
        have lowOrdered := inner.sublist (List.take_sublist split child)
        have highOrdered := inner.sublist (List.drop_sublist split child)
        rw [shape, safe, ← ih lowOrdered lowFilled.filled, ordered.swap,
          ordered_pair (ne_nil highFilled)]
        · constructor
          · rintro ⟨lowNext, _, apart⟩
            have present := mem_keys_set bounds lowOrdered.searchable lowFilled.filled k value
            exact ⟨fun key inHigh =>
              lt_of_le_of_lt (le_lastKey readingKeys separator lowNext present) (apart key inHigh),
                lowNext⟩
          · rintro ⟨apart, lowNext⟩
            refine ⟨lowNext, highOrdered, fun key inHigh => ?_⟩
            rcases keys_set bounds lowFilled.filled _ (lastKey_mem separator
              (set_ne_nil lowFilled.filled k value)) with inLow | same
            · exact halves _ inLow key inHigh
            · rw [same]
              exact apart key inHigh
        · intro key member
          refine fits key ?_
          rw [← keys_cut child split, List.mem_append]
          rcases keys_pair (set_ne_nil lowFilled.filled _ _) (ne_nil highFilled) member with
            inLow | inHigh
          · exact (keys_set bounds lowFilled.filled key inLow).imp .inl id
          · exact .inl (.inr inHigh)
      · have lowFilled := take_filled bounds full below
        have highFilled := drop_filled bounds full below
        have lowOrdered := inner.sublist (List.take_sublist split child)
        have highOrdered := inner.sublist (List.drop_sublist split child)
        rw [shape, safe, ← ih highOrdered highFilled.filled, ordered.swap,
          ordered_pair (set_ne_nil highFilled.filled k value)]
        · constructor
          · exact fun both => both.2.1
          · intro highNext
            have lastLow := lastKey_mem separator (ne_nil lowFilled)
            refine ⟨lowOrdered, highNext, fun key member => ?_⟩
            rcases keys_set bounds highFilled.filled key member with inHigh | rfl
            · exact halves _ lastLow key inHigh
            · refine lt_of_le_of_lt ((ordered.2 (separator, child) (by simp)).1 _ ?_)
                (lt_of_not_ge high)
              rw [← keys_cut child split]
              exact List.mem_append_left _ lastLow
        · intro key member
          refine fits key ?_
          rw [← keys_cut child split, List.mem_append]
          rcases keys_pair (ne_nil lowFilled) (set_ne_nil highFilled.filled _ _) member with
            inLow | inHigh
          · exact .inl (.inl inLow)
          · exact (keys_set bounds highFilled.filled key inHigh).imp .inr id

end EverDb.Foundation.BPlus
