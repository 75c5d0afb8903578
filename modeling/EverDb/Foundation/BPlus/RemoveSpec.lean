import EverDb.Foundation.BPlus.Remove

/-!
# What removal keeps

The pairs under the other keys stay, in their order, whatever the repairs are, and
so does the order of the tree. A repair keeps the sizes of the nodes when the joined
node fits.
-/

namespace EverDb.Foundation.BPlus

variable {κ ν : Type} {split : Nat}

section Repaired

variable {h cut : Nat} {front back outer inner next : BPlus κ ν (h + 1)}
  {child rest other both : BPlus κ ν h} {lower upper : κ × BPlus κ ν h} {separator key : κ}

theorem Repaired.shape
    (repaired : Repaired split front separator child rest back outer lower upper inner
      other both cut next) :
    front ++ (separator, child) :: back = outer ++ [lower, upper] ++ inner := by
  rcases repaired.sides with ⟨rfl, rfl, rfl, _⟩ | ⟨rfl, rfl, rfl, rfl, _⟩ <;> simp

/-- Neither part of a new cut is empty. -/
theorem Repaired.cut_lengths
    (repaired : Repaired split front separator child rest back outer lower upper inner
      other both cut next)
    (positive : 0 < split) (steal : split < other.length) :
    0 < (both.take cut).length ∧ 0 < (both.drop cut).length := by
  rw [List.length_take, List.length_drop]
  rcases repaired.sides with ⟨_, _, _, _, rfl, rfl⟩ | ⟨_, _, _, _, _, rfl, rfl⟩ <;>
    rw [List.length_append] <;> omega

/-- The pairs of the new children are those of the two old ones, with the key removed. -/
theorem Repaired.pairs
    (repaired : Repaired split front separator child rest back outer lower upper inner
      other both cut next) :
    BPlus.pairs (h + 1) next =
      BPlus.pairs (h + 1) outer ++ BPlus.pairs h both ++ BPlus.pairs (h + 1) inner := by
  rw [repaired.result, pairs_append, pairs_append]
  congr 2
  split
  · have halves :
        BPlus.pairs (h + 1) ([labelled lower.1 (both.take cut), labelled upper.1 (both.drop cut)] :
        BPlus κ ν (h + 1)) = BPlus.pairs h (both.take cut) ++ BPlus.pairs h (both.drop cut) := by
      simp [BPlus.pairs, labelled]
    rw [halves, pairs_cut]
  · exact pairs_labelled _ _

/-- Every key of the changed children was a key of the two old ones. -/
theorem Repaired.window_keys
    (repaired : Repaired split front separator child rest back outer lower upper inner
      other both cut next)
    (fewer : ∀ key ∈ keys h rest, key ∈ keys h child)
    (member : key ∈ keys (h + 1) (if split < other.length then
      [labelled lower.1 (both.take cut), labelled upper.1 (both.drop cut)]
      else [labelled lower.1 both] :
      BPlus κ ν (h + 1))) : key ∈ keys (h + 1) ([lower, upper] : BPlus κ ν (h + 1)) := by
  have low : ∀ key ∈ keys h lower.2, key ∈ keys (h + 1) ([lower, upper] : BPlus κ ν (h + 1)) :=
    fun key under => mem_keys_succ.mpr ⟨lower, by simp, .inr under⟩
  have high : ∀ key ∈ keys h upper.2, key ∈ keys (h + 1) ([lower, upper] : BPlus κ ν (h + 1)) :=
    fun key under => mem_keys_succ.mpr ⟨upper, by simp, .inr under⟩
  have inside : ∀ key ∈ keys h both, key ∈ keys (h + 1) ([lower, upper] : BPlus κ ν (h + 1)) := by
    intro key under
    rcases repaired.sides with ⟨_, rfl, _, rfl, rfl, _⟩ | ⟨_, rfl, _, _, rfl, rfl, _⟩ <;>
      rw [keys_append, List.mem_append] at under
    · exact under.elim (fun inRest => low key (fewer key inRest)) (high key)
    · exact under.elim (low key) fun inRest => high key (fewer key inRest)
  have lowerKey : lower.1 ∈ keys (h + 1) ([lower, upper] : BPlus κ ν (h + 1)) :=
    mem_keys_succ.mpr ⟨lower, by simp, .inl rfl⟩
  have upperKey : upper.1 ∈ keys (h + 1) ([lower, upper] : BPlus κ ν (h + 1)) :=
    mem_keys_succ.mpr ⟨upper, by simp, .inl rfl⟩
  split at member
  · change key ∈ keys (h + 1)
      ([labelled lower.1 (both.take cut)] ++ [labelled upper.1 (both.drop cut)] :
      BPlus κ ν (h + 1)) at member
    rw [keys_append, List.mem_append] at member
    have halves := keys_cut both cut
    rcases member with inLow | inHigh
    · rcases keys_labelled_or inLow with rfl | under
      · exact lowerKey
      · exact inside key (halves ▸ List.mem_append_left _ under)
    · rcases keys_labelled_or inHigh with rfl | under
      · exact upperKey
      · exact inside key (halves ▸ List.mem_append_right _ under)
  · rcases keys_labelled_or member with rfl | under
    · exact lowerKey
    · exact inside key under

end Repaired

/-- A stored key's entry in a leaf. -/
theorem exists_entry {leaf : BPlus κ ν 0} {k : κ} (stored : k ∈ leafKeys 0 leaf) :
    ∃ front value back, leaf = front ++ (k, value) :: back := by
  obtain ⟨value, member⟩ := mem_leafKeys.mp stored
  obtain ⟨front, back, shape⟩ := List.append_of_mem member
  exact ⟨front, value, back, shape⟩

variable [LinearOrder κ] {h : Nat} {node : BPlus κ ν h} {k : κ}

/-- Removal brings in no key. -/
theorem keys_remove (split : Nat) (k : κ) (h : Nat) (node : BPlus κ ν h) :
    ∀ key ∈ keys h (remove split h node k), key ∈ keys h node := by
  induction h with
  | zero =>
      intro key member
      obtain ⟨entry, inside, rfl⟩ := List.mem_map.mp member
      exact List.mem_map.mpr ⟨entry, List.mem_of_mem_filter inside, rfl⟩
  | succ h ih =>
      intro key member
      rcases enters_or_below k node with ⟨front, ⟨separator, child⟩, back, enters⟩ | below
      · have shape := enters.shape
        by_cases few : short split h child k = true
        · rcases remove_repaired enters few with ⟨rfl, rfl, result, _⟩ |
            ⟨outer, lower, upper, inner, other, both, cut, repaired, _⟩
          · rw [result] at member
            rw [shape]
            obtain ⟨entry, inside, place⟩ := mem_keys_succ.mp member
            rw [List.mem_singleton] at inside
            subst inside
            exact mem_keys_succ.mpr ⟨(separator, child), by simp, place.imp id (ih child key)⟩
          · rw [repaired.result, keys_append, keys_append, List.mem_append,
              List.mem_append] at member
            rw [shape, repaired.shape, keys_append, keys_append, List.mem_append, List.mem_append]
            exact member.imp (Or.imp id (repaired.window_keys (ih child))) id
        · rw [remove_kept enters (Bool.eq_false_iff.mpr few)] at member
          obtain ⟨entry, inside, place⟩ := mem_keys_succ.mp member
          rcases List.mem_append.mp inside with inFront | here
          · exact mem_keys_succ.mpr ⟨entry, by simp [shape, inFront], place⟩
          · rcases List.mem_cons.mp here with rfl | inBack
            · have single : key ∈ keys (h + 1) ([labelled separator (remove split h child k)] :
                  BPlus κ ν (h + 1)) := mem_keys_succ.mpr ⟨_, by simp, place⟩
              exact mem_keys_succ.mpr ⟨(separator, child), by simp [shape],
                (keys_labelled_or single).imp id (ih child key)⟩
            · exact mem_keys_succ.mpr ⟨entry, by simp [shape, inBack], place⟩
      · have absent : enter k node = none := enter_none below
        rwa [remove, absent] at member

/-- Removal drops the pairs of the key and keeps the others in their order. -/
theorem pairs_remove (bounded : Searchable h node) :
    pairs h (remove split h node k) = (pairs h node).filter fun pair => pair.1 ≠ k := by
  induction h with
  | zero => rfl
  | succ h ih =>
      rcases enters_or_below k node with ⟨front, ⟨separator, child⟩, back, enters⟩ | below
      · obtain ⟨before, after⟩ := enters.cut.apart bounded
        have inner := ih (bounded.2 _ enters.cut.mem_child).2
        have frontKept :
            (pairs (h + 1) front).filter (fun pair => pair.1 ≠ k) = pairs (h + 1) front :=
          List.filter_eq_self.mpr fun pair member => by simpa using before pair member
        have backKept : (pairs (h + 1) back).filter (fun pair => pair.1 ≠ k) = pairs (h + 1) back :=
          List.filter_eq_self.mpr fun pair member => by simpa using after pair member
        have whole : (pairs (h + 1) node).filter (fun pair => pair.1 ≠ k) =
            pairs (h + 1) front ++ pairs h (remove split h child k) ++ pairs (h + 1) back := by
          rw [enters.shape, pairs_append, pairs_cons, List.filter_append,
            List.filter_append, frontKept, backKept, inner, List.append_assoc]
        rw [whole]
        by_cases few : short split h child k = true
        · rcases remove_repaired enters few with ⟨rfl, rfl, result, _⟩ |
            ⟨outer, lower, upper, inner, other, both, cut, repaired, _⟩
          · rw [result, pairs_cons]
            rfl
          · rw [repaired.pairs]
            rcases repaired.sides with
              ⟨rfl, rfl, rfl, rfl, rfl, _⟩ | ⟨rfl, rfl, rfl, rfl, rfl, rfl, _⟩
            · rw [pairs_append, pairs_cons, List.append_assoc, List.append_assoc, List.append_assoc]
            · have empty : pairs (h + 1) ([] : BPlus κ ν (h + 1)) = [] := rfl
              rw [pairs_append, pairs_append, pairs_cons, empty]
              simp only [List.append_nil, List.append_assoc]
        · rw [remove_kept enters (Bool.eq_false_iff.mpr few), pairs_append, pairs_cons,
            List.append_assoc]
          rfl
      · have absent : enter k node = none := enter_none below
        rw [remove, absent]
        refine (List.filter_eq_self.mpr fun pair member => ?_).symm
        obtain ⟨entry, inside, under⟩ := mem_pairs_succ.mp member
        have atMost := (bounded.2 entry inside).1 pair.1 (mem_leafKeys.mpr ⟨pair.2, under⟩)
        simpa using ne_of_lt (lt_of_le_of_lt atMost (below entry inside))

/-- A removed key is gone. -/
theorem absent_remove (bounded : Searchable h node) : k ∉ leafKeys h (remove split h node k) := by
  rw [mem_leafKeys, pairs_remove bounded]
  simp

/-- Removing a stored key from a leaf. -/
theorem remove_leaf {front back : BPlus κ ν 0} {value : ν} (split : Nat)
    (ascending : (front ++ (k, value) :: back).Pairwise fun left right => left.1 < right.1) :
    remove split 0 (front ++ (k, value) :: back : BPlus κ ν 0) k = front ++ back := by
  obtain ⟨_, tail, across⟩ := List.pairwise_append.mp ascending
  have before : front.filter (fun entry => decide (entry.1 ≠ k)) = front :=
    List.filter_eq_self.mpr fun entry member => by
      simpa using ne_of_lt (across entry member (k, value) List.mem_cons_self)
  have after : back.filter (fun entry => decide (entry.1 ≠ k)) = back :=
    List.filter_eq_self.mpr fun entry member => by
      simpa using ne_of_gt ((List.pairwise_cons.mp tail).1 entry member)
  rw [remove, List.filter_append, List.filter_cons, if_neg (by simp), before, after]

/-- The number of entries of a node after a removal. -/
theorem remove_length (split : Nat) (bounded : Searchable h node) (stored : k ∈ leafKeys h node) :
    (remove split h node k).length =
      if h = 0 ∨ short split h node k = true then node.length - 1 else node.length := by
  cases h with
  | zero =>
      obtain ⟨front, value, back, rfl⟩ := exists_entry stored
      rw [remove_leaf split bounded, if_pos (.inl rfl)]
      simp
  | succ h =>
      obtain ⟨front, separator, child, back, enters, _⟩ := bounded.enters stored
      have shape := enters.shape
      rw [short_succ enters]
      by_cases few : short split h child k = true
      · rcases remove_repaired enters few with ⟨rfl, rfl, result, repair⟩ |
          ⟨outer, lower, upper, inner, other, both, cut, repaired, repair⟩
        · rw [result, repair, shape]
          simp [Repair.again]
        · have count : node.length = outer.length + 2 + inner.length := by
            rw [shape, repaired.shape]
            simp only [List.length_append, List.length_cons, List.length_nil]
          rw [repair, repaired.result, few]
          by_cases steal : split < other.length
          · simp only [steal, Repair.again, count, if_true, Bool.and_false, or_false,
              List.length_append,
              List.length_cons, List.length_nil, Nat.succ_ne_zero, Bool.false_eq_true, if_false]
          · simp only [steal, Repair.again, count, if_false, Bool.and_true, or_true, if_true,
              List.length_append, List.length_singleton]
            omega
      · rw [remove_kept enters (Bool.eq_false_iff.mpr few), shape]
        simp [few]

/-- Removal keeps the order of a tree. -/
theorem ordered_remove (positive : 0 < split) (ordered : Ordered h node) :
    Ordered h (remove split h node k) := by
  induction h with
  | zero => exact ordered.sublist List.filter_sublist
  | succ h ih =>
      rcases enters_or_below k node with ⟨front, ⟨separator, child⟩, back, enters⟩ | below
      · have shape := enters.shape
        have inner : Ordered h child := (ordered.2 _ enters.cut.mem_child).2
        have rest := ih inner
        have fewer := keys_remove split k h child
        by_cases few : short split h child k = true
        · rcases remove_repaired enters few with ⟨rfl, rfl, result, _⟩ |
            ⟨outer, lower, upper, inner, other, both, cut, repaired, _⟩
          · rw [result]
            refine ⟨List.pairwise_singleton _ _, ?_⟩
            rw [List.forall_mem_singleton]
            exact ⟨fun key under =>
              (ordered.2 _ enters.cut.mem_child).1 key (fewer key under), rest⟩
          · -- the two children, in order with the key removed
            have window := repaired.shape ▸ shape
            rw [window] at ordered
            have joined : Ordered h both := by
              have part := ordered.part
              have across := (List.pairwise_pair.mp part.1).2
              have lowerOrdered := part.2 lower (by simp)
              have upperOrdered := part.2 upper (by simp)
              rcases repaired.sides with ⟨_, rfl, _, rfl, rfl, _⟩ | ⟨_, rfl, _, _, rfl, rfl, _⟩
              · refine rest.append upperOrdered.2 fun low inLow high inHigh => ?_
                exact lt_of_le_of_lt (lowerOrdered.1 low (fewer low inLow)) (across high inHigh)
              · refine lowerOrdered.2.append rest fun low inLow high inHigh => ?_
                exact lt_of_le_of_lt (lowerOrdered.1 low inLow) (across high (fewer high inHigh))
            rw [repaired.result, ordered.swap fun key member =>
              ordered.between (repaired.window_keys fewer member)]
            by_cases steal : split < other.length
            · have sizes := repaired.cut_lengths positive steal
              rw [if_pos steal, ordered_pair (List.length_pos_iff.mp sizes.2)]
              refine ⟨joined.sublist (List.take_sublist _ _),
                joined.sublist (List.drop_sublist _ _), ?_⟩
              have halves : Ordered h (both.take cut ++ both.drop cut : BPlus κ ν h) := by
                rwa [List.take_append_drop]
              exact halves.append_lt _ (lastKey_mem _ (List.length_pos_iff.mp sizes.1))
            · rw [if_neg steal]
              exact ordered_labelled joined
        · rw [remove_kept enters (Bool.eq_false_iff.mpr few)]
          have window :
              front ++ (separator, child) :: back = front ++ [(separator, child)] ++ back := by simp
          have middle : front ++ labelled separator (remove split h child k) :: back =
              front ++ [labelled separator (remove split h child k)] ++ back := by simp
          rw [shape, window] at ordered
          rw [middle, ordered.swap]
          · exact ordered_labelled rest
          · intro key member
            refine ordered.between ?_
            exact mem_keys_succ.mpr ⟨(separator, child), by simp,
              (keys_labelled_or member).imp id (fewer key)⟩
      · have absent : enter k node = none := enter_none below
        rwa [remove, absent]

/-- Removal keeps a property of the sizes below the root that loses an entry well, when the
joined nodes have it and no repair fails. -/
theorem under_remove {size : Nat → Prop} (bounded : Searchable h node)
    (stored : k ∈ leafKeys h node)
    (under : Under size h node) (closed : ∀ count, size count → split < count → size (count - 1))
    (fits : ∀ merged left, Repair.merge merged left ∈ repairs split h node k → size merged)
    (accompanied : Repair.alone ∉ repairs split h node k) :
    Under size h (remove split h node k) := by
  induction h with
  | zero => trivial
  | succ h ih =>
      obtain ⟨front, separator, child, back, enters, storedChild⟩ := bounded.enters stored
      have shape := enters.shape
      have inner := (bounded.2 _ enters.cut.mem_child).2
      have childSize := every_iff.mp (under _ enters.cut.mem_child)
      rw [repairs_succ enters] at fits accompanied
      have rest : Under size h (remove split h child k) := ih inner storedChild childSize.2
        (fun merged left member => fits merged left (List.mem_append_left _ member))
        (fun member => accompanied (List.mem_append_left _ member))
      have counted := remove_length split inner storedChild
      by_cases few : short split h child k = true
      · rw [if_pos few] at fits accompanied
        rw [if_pos (.inr few)] at counted
        have positive : 0 < child.length := by
          obtain ⟨value, member⟩ := mem_leafKeys.mp storedChild
          refine List.length_pos_iff.mpr fun empty => ?_
          rw [empty] at member
          cases h <;> cases member
        rcases remove_repaired enters few with ⟨_, _, _, repair⟩ |
          ⟨outer, lower, upper, inner, other, both, cut, repaired, repair⟩
        · exact absurd (List.mem_append_right _ (List.mem_singleton.mpr repair.symm)) accompanied
        · have otherMem : ∃ label, (label, other) ∈ node := by
            rw [shape, repaired.shape]
            rcases repaired.sides with ⟨_, _, _, rfl, _⟩ | ⟨_, _, _, _, rfl, _⟩
            · exact ⟨upper.1, by simp⟩
            · exact ⟨lower.1, by simp⟩
          obtain ⟨label, otherMem⟩ := otherMem
          have otherSize := every_iff.mp (under _ otherMem)
          have joined : Under size h both := by
            rcases repaired.sides with ⟨_, _, _, _, rfl, _⟩ | ⟨_, _, _, _, _, rfl, _⟩
            · exact rest.append otherSize.2
            · exact otherSize.2.append rest
          have kept : ∀ entry, entry ∈ outer ∨ entry ∈ inner → Every size h entry.2 := by
            intro entry place
            refine under entry ?_
            rw [shape, repaired.shape]
            rcases place with inOuter | inInner
            · simp [inOuter]
            · simp [inInner]
          rw [repaired.result]
          intro entry member
          rw [List.mem_append, List.mem_append] at member
          by_cases steal : split < other.length
          · have sizes : size (both.take cut).length ∧ size (both.drop cut).length := by
              rw [List.length_take, List.length_drop]
              have lost := closed _ otherSize.1 steal
              have same := childSize.1
              rcases repaired.sides with ⟨_, _, _, _, rfl, rfl⟩ | ⟨_, _, _, _, _, rfl, rfl⟩
              · rw [List.length_append, counted]
                rw [show min (child.length - 1 + 1) (child.length - 1 + other.length) =
                  child.length by omega,
                  show child.length - 1 + other.length - (child.length - 1 + 1) =
                      other.length - 1 by omega]
                exact ⟨same, lost⟩
              · rw [List.length_append, counted]
                rw [show min (other.length - 1) (other.length + (child.length - 1)) =
                  other.length - 1 by omega,
                  show other.length + (child.length - 1) - (other.length - 1) =
                      child.length by omega]
                exact ⟨lost, same⟩
            rw [if_pos steal, List.mem_cons, List.mem_singleton] at member
            rcases member with (inOuter | rfl | rfl) | inInner
            · exact kept entry (.inl inOuter)
            · exact every_iff.mpr ⟨sizes.1, joined.subset fun _ => List.mem_of_mem_take⟩
            · exact every_iff.mpr ⟨sizes.2, joined.subset fun _ => List.mem_of_mem_drop⟩
            · exact kept entry (.inr inInner)
          · rw [if_neg steal] at repair member
            rw [List.mem_singleton] at member
            have size' : size both.length := by
              have whole := fits _ _ (List.mem_append_right _ (List.mem_singleton.mpr repair.symm))
              rcases repaired.sides with ⟨_, _, _, _, rfl, _⟩ | ⟨_, _, _, _, _, rfl, _⟩
              · rwa [List.length_append, counted]
              · rwa [List.length_append, counted, Nat.add_comm]
            rcases member with (inOuter | rfl) | inInner
            · exact kept entry (.inl inOuter)
            · exact every_iff.mpr ⟨size', joined⟩
            · exact kept entry (.inr inInner)
      · rw [remove_kept enters (Bool.eq_false_iff.mpr few)]
        have size' : size (remove split h child k).length := by
          rw [counted]
          split
          · rename_i leaf
            obtain rfl := leaf.resolve_right few
            refine closed _ childSize.1 ?_
            simpa [short] using few
          · exact childSize.1
        intro entry member
        rcases List.mem_append.mp member with inFront | here
        · exact under entry (by simp [shape, inFront])
        · rcases List.mem_cons.mp here with rfl | inBack
          · exact every_iff.mpr ⟨size', rest⟩
          · exact under entry (by simp [shape, inBack])

/-- Joined nodes are no smaller than the others. -/
theorem le_merged (under : Under (split ≤ ·) h node) {merged left : Nat}
    (joined : Repair.merge merged left ∈ repairs split h node k) : split ≤ merged := by
  induction h with
  | zero => cases joined
  | succ h ih =>
      rcases enters_or_below k node with ⟨front, ⟨separator, child⟩, back, enters⟩ | below
      · have childSize := every_iff.mp (under _ enters.cut.mem_child)
        rw [repairs_succ enters, List.mem_append] at joined
        rcases joined with lower | here
        · exact ih childSize.2 lower
        · split at here
          · rename_i few
            rw [List.mem_singleton] at here
            rcases remove_repaired enters few with ⟨_, _, _, repair⟩ |
              ⟨outer, lower, upper, inner, other, both, cut, repaired, repair⟩
            · rw [repair] at here
              cases here
            · have otherSize : split ≤ other.length := by
                have inNode : ∀ entry ∈ ([lower, upper] : BPlus κ ν (h + 1)), entry ∈ node := by
                  intro entry member
                  rw [enters.shape, repaired.shape]
                  exact List.mem_append_left _ (List.mem_append_right _ member)
                rcases repaired.sides with ⟨_, _, _, rfl, _⟩ | ⟨_, _, _, _, rfl, _⟩
                · exact (every_iff.mp (under _ (inNode upper (by simp)))).1
                · exact (every_iff.mp (under _ (inNode lower (by simp)))).1
              have atLeast : split ≤ child.length := childSize.1
              rw [repair] at here
              split at here
              · cases here
              · injection here with merged
                omega
          · cases here
      · rw [repairs, enter_none below] at joined
        cases joined

/-- An only child is entered alone. -/
theorem Enters.only {node front back : BPlus κ ν (h + 1)} {entry : κ × BPlus κ ν h}
    (enters : Enters k node front entry back) (few : node.length ≤ 1) : front = [] ∧ back = [] := by
  rw [enters.shape, List.length_append, List.length_cons] at few
  exact ⟨List.length_eq_zero_iff.mp (by omega), List.length_eq_zero_iff.mp (by omega)⟩

/-- Joined nodes are no smaller than the others, in a spread tree. -/
theorem Spread.le_merged (spread : Spread split h node) {merged left : Nat}
    (joined : Repair.merge merged left ∈ repairs split h node k) : split ≤ merged := by
  cases h with
  | zero => cases joined
  | succ h =>
      rcases spread.cases with under | few
      · exact BPlus.le_merged under joined
      · rcases enters_or_below k node with ⟨front, ⟨separator, child⟩, back, enters⟩ | below
        · obtain ⟨rfl, rfl⟩ := enters.only few
          have inner := (spread _ enters.cut.mem_child).2
          rw [repairs_succ enters, List.mem_append] at joined
          rcases joined with lower | here
          · exact BPlus.le_merged inner lower
          · split at here
            · rw [List.mem_singleton] at here
              cases here
            · cases here
        · rw [repairs, enter_none below] at joined
          cases joined

/-- Removal keeps a tree spread, when no repair fails. -/
theorem spread_remove (bounded : Searchable h node) (stored : k ∈ leafKeys h node)
    (spread : Spread split h node) (accompanied : Repair.alone ∉ repairs split h node k) :
    Spread split h (remove split h node k) := by
  have lessens : ∀ count, split ≤ count → split < count → split ≤ count - 1 := fun count _ more =>
    Nat.le_sub_one_of_lt more
  cases h with
  | zero => trivial
  | succ h =>
      rcases spread.cases with under | few
      · exact (under_remove bounded stored under lessens (fun _ _ =>
          le_merged under) accompanied).spread
      · obtain ⟨front, separator, child, back, enters, storedChild⟩ := bounded.enters stored
        obtain ⟨rfl, rfl⟩ := enters.only few
        have inner := (bounded.2 _ enters.cut.mem_child).2
        have childUnder := (spread _ enters.cut.mem_child).2
        rw [repairs_succ enters] at accompanied
        have kept : short split h child k = false := by
          refine Bool.eq_false_iff.mpr fun few => accompanied ?_
          rw [if_pos few]
          exact List.mem_append_right _ (List.mem_singleton.mpr rfl)
        have rest :=
          under_remove inner storedChild childUnder lessens (fun _ _ => le_merged childUnder)
          fun member => accompanied (List.mem_append_left _ member)
        rw [remove_kept enters kept]
        intro entry member
        have here : entry = labelled separator (remove split h child k) := by simpa using member
        subst here
        exact ⟨fun many => absurd many (Nat.lt_irrefl 1), rest⟩

end EverDb.Foundation.BPlus
