import EverDb.Foundation.BPlus.Grow
import Mathlib.Algebra.Order.BigOperators.Group.List
import Mathlib.Algebra.Order.Group.Nat
import Mathlib.Data.List.Nodup

/-!
# Loading a tree

Keys that are stored already, or lie outside the stored ones, can be inserted in any
order: no node is cut on the wrong side of such a key. A tree that only insertions and
growing have made keeps its nodes well filled, so it stays low.
-/

namespace EverDb.Foundation.BPlus

variable {κ ν : Type} {cap split h : Nat} {node : BPlus κ ν h} {k default : κ} {value : ν}

/-- A tree has many pairs for its height. -/
theorem pow_le_pairs (least : Under (split ≤ ·) h node) :
    node.length * split ^ h ≤ (pairs h node).length := by
  induction h with
  | zero =>
      rw [Nat.pow_zero, Nat.mul_one]
      exact Nat.le_refl _
  | succ h ih =>
      have child : ∀ entry ∈ node, split ^ (h + 1) ≤ (pairs h entry.2).length := by
        intro entry member
        obtain ⟨size, under⟩ := every_iff.mp (least entry member)
        calc split ^ (h + 1) = split * split ^ h := by rw [Nat.pow_succ, Nat.mul_comm]
          _ ≤ entry.2.length * split ^ h := Nat.mul_le_mul_right _ size
          _ ≤ (pairs h entry.2).length := ih under
      have total :
          node.length • split ^ (h + 1) ≤ (node.map fun entry => (pairs h entry.2).length).sum := by
        rw [← List.length_map (f := fun entry : κ × Below κ ν (h + 1) => (pairs h entry.2).length)]
        refine List.card_nsmul_le_sum _ _ fun count member => ?_
        obtain ⟨entry, inside, rfl⟩ := List.mem_map.mp member
        exact child entry inside
      rw [pairs, List.length_flatMap]
      simpa using total

/-- The keys of either half are keys of the node. -/
theorem mem_keys_of_half {child : BPlus κ ν h} {key : κ}
    (member : key ∈ keys h (child.take split) ∨ key ∈ keys h (child.drop split)) :
    key ∈ keys h child := by
  rw [← keys_cut child split]
  exact List.mem_append.mpr member

variable [LinearOrder κ]

/-! ## Where an insertion is safe -/

/-- A set into the empty tree is safe. -/
theorem safe_nil : Safe cap split h ([] : BPlus κ ν h) k := by
  cases h <;> trivial

/-- A key is inserted safely into a node when it is safe in the child on its route, or in
the half of the child that receives it. -/
theorem safe_of_cuts {node : BPlus κ ν (h + 1)}
    (inside : ∀ front separator child back, Cut k node front (separator, child) back →
      Safe cap split h child k ∨ pathFull cap h child k = true)
    (halves : ∀ front separator child back, Cut k node front (separator, child) back →
      pathFull cap h child k = true →
      if k ≤ separator then (∀ key ∈ keys h (child.drop split), k < key) ∧
        Safe cap split h (child.take split) k
      else Safe cap split h (child.drop split) k) :
    Safe cap split (h + 1) node k := by
  by_cases filled : 0 < node.length
  · obtain ⟨front, ⟨separator, child⟩, back, cut⟩ := Cut.exists (k := k) filled
    cases full : pathFull cap h child k with
    | false =>
        rw [safe_inside cut full]
        exact (inside _ _ _ _ cut).resolve_right (by simp [full])
    | true =>
        have received := halves _ _ _ _ cut full
        by_cases low : k ≤ separator
        · rw [if_pos low] at received
          exact (safe_low cut full low).mpr received
        · rw [if_neg low] at received
          exact (safe_high cut full low).mpr received
  · rw [List.length_eq_zero_iff.mp (Nat.eq_zero_of_not_pos filled)]
    exact safe_nil

/-- An insertion under a stored key cuts nothing. -/
theorem safe_of_stored (bounded : Searchable h node) (stored : k ∈ leafKeys h node) :
    Safe cap split h node k := by
  induction h with
  | zero => trivial
  | succ h ih =>
      have under : ∀ front separator child back, Cut k node front (separator, child) back →
          k ∈ leafKeys h child := by
        intro front separator child back cut
        obtain ⟨old, pair⟩ := mem_leafKeys.mp stored
        obtain ⟨before, after⟩ := cut.apart bounded
        rcases cut.mem_pairs.mp pair with inFront | inChild | inBack
        · exact absurd rfl (before _ inFront)
        · exact mem_leafKeys.mpr ⟨old, inChild⟩
        · exact absurd rfl (after _ inBack)
      refine safe_of_cuts (fun front separator child back cut => ?_)
        fun front separator child back cut full => ?_
      · exact .inl (ih (bounded.2 _ cut.mem_child).2 (under _ _ _ _ cut))
      · obtain ⟨old, pair⟩ := mem_leafKeys.mp (under _ _ _ _ cut)
        exact absurd rfl (pathFull_absent (bounded.2 _ cut.mem_child).2 full _ pair)

/-- The keys of a child are keys of the node. -/
theorem Cut.mem_keys {node front back : BPlus κ ν (h + 1)} {separator : κ} {child : BPlus κ ν h}
    (cut : Cut k node front (separator, child) back) {key : κ}
    (member : key = separator ∨ key ∈ keys h child) :
    key ∈ keys (h + 1) node := mem_keys_succ.mpr ⟨_, cut.mem_child, member⟩

/-- A key below every key goes into the lower half of each node that is cut. -/
theorem safe_of_below (below : ∀ key ∈ keys h node, k < key) : Safe cap split h node k := by
  induction h with
  | zero => trivial
  | succ h ih =>
      refine safe_of_cuts (fun front separator child back cut => ?_)
        fun front separator child back cut _ => ?_
      · exact .inl (ih fun key member => below key (cut.mem_keys (.inr member)))
      · rw [if_pos (le_of_lt (below separator (cut.mem_keys (.inl rfl))))]
        exact ⟨fun key member => below key (cut.mem_keys (.inr (mem_keys_of_half (.inr member)))),
          ih fun key member => below key (cut.mem_keys (.inr (mem_keys_of_half (.inl member))))⟩

/-- A key above every key goes into the upper half of each node that is cut. -/
theorem safe_of_above (above : ∀ key ∈ keys h node, key < k) : Safe cap split h node k := by
  induction h with
  | zero => trivial
  | succ h ih =>
      refine safe_of_cuts (fun front separator child back cut => ?_)
        fun front separator child back cut _ => ?_
      · exact .inl (ih fun key member => above key (cut.mem_keys (.inr member)))
      · rw [if_neg (not_le_of_gt (above separator (cut.mem_keys (.inl rfl))))]
        exact ih fun key member => above key (cut.mem_keys (.inr (mem_keys_of_half (.inr member))))

/-- A key among those given, or below or above all of them. -/
def Outward (k : κ) (known : List κ) : Prop :=
  k ∈ known ∨ (∀ key ∈ known, k < key) ∨ ∀ key ∈ known, key < k

/-- Whether a key lies outside can be checked. -/
instance Outward.decidable (k : κ) (known : List κ) : Decidable (Outward k known) :=
  inferInstanceAs (Decidable (_ ∨ _ ∨ _))

/-- Only the set of known keys matters. -/
theorem Outward.congr {known others : List κ} (outward : Outward k known)
    (same : ∀ key, key ∈ others ↔ key ∈ known) :
    Outward k others := by
  simpa only [Outward, same] using outward

/-! ## Sizes below the root -/

/-- An insertion makes no node shorter. -/
theorem length_le_set (ascending : Bounded leafKeys h node) (filled : Filled h node) :
    node.length ≤ (set cap split h node k value).length := by
  cases h with
  | zero =>
      have parts := length_parts node k
      have once : node.countP (fun entry => entry.1 = k) ≤ 1 := by
        have distinct : (node.map Prod.fst).Nodup :=
          (List.pairwise_map.mpr ascending).imp fun less => ne_of_lt less
        have counted := List.nodup_iff_count_le_one.mp distinct k
        rw [List.count, List.countP_map] at counted
        exact counted
      have length : (set cap split 0 node k value).length =
          (node.filter fun entry => entry.1 < k).length +
          ((node.filter fun entry => k < entry.1).length + 1) := by
        simp [set]
      omega
  | succ h =>
      obtain ⟨front, separator, child, back, cut, cases⟩ := set_cases cap split filled.all k value
      have count : node.length = front.length + (back.length + 1) := by
        rw [cut.shape, List.length_append, List.length_cons]
      rcases cases with ⟨_, shape, _⟩ | ⟨_, _, shape, _⟩ | ⟨_, _, shape, _⟩
      all_goals
        rw [shape]
        simp only [List.length_append, List.length_cons, List.length_nil]
        omega

/-- Insertion cuts no node too small. -/
theorem under_set (bounds : 0 < split ∧ split + split ≤ cap) (bounded : Searchable h node)
    (filled : Filled h node)
    (least : Under (split ≤ ·) h node) : Under (split ≤ ·) h (set cap split h node k value) := by
  induction h with
  | zero => trivial
  | succ h ih =>
      have parted : 0 < split ∧ split < cap := ⟨bounds.1, by omega⟩
      obtain ⟨front, separator, child, back, cut, cases⟩ := set_cases cap split filled.all k value
      obtain ⟨_, inner⟩ := bounded.2 _ cut.mem_child
      have below := filled.all.2 _ cut.mem_child
      obtain ⟨size, under⟩ := every_iff.mp (least _ cut.mem_child)
      -- the children around the route stay as they are
      suffices middle :
          ∀ middle : BPlus κ ν (h + 1), (∀ entry ∈ middle, Every (split ≤ ·) h entry.2) →
          Under (split ≤ ·) (h + 1) (front ++ middle ++ back : BPlus κ ν (h + 1)) by
        rcases cases with ⟨_, shape, _⟩ | ⟨full, _, shape, _⟩ | ⟨full, _, shape, _⟩
        · rw [shape]
          refine middle _
            (List.forall_mem_singleton.mpr (every_iff.mpr ⟨?_, ih inner below.filled under⟩))
          exact Nat.le_trans size (length_le_set inner below.filled)
        all_goals
          have lowFilled := take_filled parted full below
          have highFilled := drop_filled parted full below
          have lowInner := inner.sublist (List.take_sublist split child)
          have highInner := inner.sublist (List.drop_sublist split child)
          have lowLength := take_length parted full
          have highLength := drop_length split full
          have lowUnder : Under (split ≤ ·) h (child.take split) :=
            under.subset fun _ => List.mem_of_mem_take
          have highUnder : Under (split ≤ ·) h (child.drop split) :=
            under.subset fun _ => List.mem_of_mem_drop
          rw [shape]
          refine middle _ ?_
          rw [List.forall_mem_cons, List.forall_mem_singleton]
        · refine ⟨every_iff.mpr ⟨?_, ih lowInner lowFilled.filled lowUnder⟩,
            every_iff.mpr ⟨?_, highUnder⟩⟩
          · exact Nat.le_trans (Nat.le_of_eq lowLength.symm)
              (length_le_set lowInner lowFilled.filled)
          · change split ≤ (child.drop split).length
            omega
        · refine ⟨every_iff.mpr ⟨?_, lowUnder⟩,
            every_iff.mpr ⟨?_, ih highInner highFilled.filled highUnder⟩⟩
          · exact Nat.le_of_eq lowLength.symm
          · refine Nat.le_trans ?_ (length_le_set highInner highFilled.filled)
            omega
      intro middle sized entry member
      rcases List.mem_append.mp member with rest | inBack
      · rcases List.mem_append.mp rest with inFront | inMiddle
        · exact least entry (by simp [cut.shape, inFront])
        · exact sized entry inMiddle
      · exact least entry (by simp [cut.shape, inBack])

/-! ## Trees that have only grown -/

/-- What insertions and growing make of an empty leaf: an ordered tree of full enough
nodes, whose separators are keys that are stored. -/
structure Loaded (cap split h : Nat) (node : BPlus κ ν h) : Prop where
  ordered : Ordered h node
  capped : Every (· ≤ cap) h node
  least : Under (split ≤ ·) h node
  rooted : h ≠ 0 → 2 ≤ node.length
  stored : ∀ key ∈ keys h node, key ∈ leafKeys h node

namespace Loaded

/-- A load begins with the empty tree. -/
theorem empty : Loaded cap split 0 ([] : BPlus κ ν 0) :=
  ⟨List.Pairwise.nil, Nat.zero_le _, trivial, fun wrong => absurd rfl wrong, fun _ member => member⟩

/-- A loaded tree has no empty nodes. -/
theorem filled (loaded : Loaded cap split h node) (positive : 0 < split) :
    Filled h node := fun tall =>
  every_iff.mpr ⟨Nat.lt_of_lt_of_le Nat.zero_lt_two (loaded.rooted tall), by
    cases h with
    | zero => trivial
    | succ h => exact fun entry member => (loaded.least entry member).imp fun _ size =>
        Nat.lt_of_lt_of_le positive size⟩

/-- A key that is stored or lies outside is inserted safely. -/
theorem safe (loaded : Loaded cap split h node) (outward : Outward k (leafKeys h node)) :
    Safe cap split h node k := by
  rcases outward with stored | below | above
  · exact safe_of_stored loaded.ordered.searchable stored
  · exact safe_of_below fun key member => below key (loaded.stored key member)
  · exact safe_of_above fun key member => above key (loaded.stored key member)

/-- Inserting such a key. -/
theorem set (loaded : Loaded cap split h node) (bounds : 0 < split ∧ split + split ≤ cap)
    (outward : Outward k (leafKeys h node)) (room : pathFull cap h node k = false) (value : ν) :
    Loaded cap split h (BPlus.set cap split h node k value) := by
  have parted : 0 < split ∧ split < cap := ⟨bounds.1, by omega⟩
  have filled := loaded.filled bounds.1
  have bounded := loaded.ordered.searchable
  refine ⟨(ordered_set parted loaded.ordered filled).mpr (loaded.safe outward),
    (every_set parted filled loaded.capped room).imp fun _ both => both.2,
    under_set bounds bounded filled loaded.least,
    fun tall => Nat.le_trans (loaded.rooted tall) (length_le_set bounded filled),
      fun key member => ?_⟩
  by_cases same : key = k
  · exact mem_leafKeys.mpr ⟨value, (mem_pairs_set parted bounded filled).mpr (.inl (by rw [same]))⟩
  · have old := (keys_set parted filled key member).resolve_right same
    obtain ⟨before, pair⟩ := mem_leafKeys.mp (loaded.stored key old)
    exact mem_leafKeys.mpr ⟨before, (mem_pairs_set parted bounded filled).mpr (.inr ⟨same, pair⟩)⟩

/-- Growing a full root. -/
theorem grow (loaded : Loaded cap split h node) (bounds : 0 < split ∧ split + split ≤ cap)
    (full : node.length = cap)
    (default : κ) : Loaded cap split (h + 1) (BPlus.grow default node) := by
  have lowLength : (node.take (node.length / 2)).length = node.length / 2 := by
    rw [List.length_take, Nat.min_eq_left (Nat.div_le_self _ _)]
  have highLength : (node.drop (node.length / 2)).length = node.length - node.length / 2 :=
    List.length_drop
  have lowFilled : node.take (node.length / 2) ≠ [] := List.length_pos_iff.mp (by omega)
  have highFilled : node.drop (node.length / 2) ≠ [] := List.length_pos_iff.mp (by omega)
  refine ⟨loaded.ordered.grow readingKeys (by omega),
    every_grow loaded.capped (show 2 ≤ cap by omega) ⟨?_, ?_⟩, ?_, fun _ =>
      Nat.le_refl 2, fun key member => ?_⟩
  · exact (show node.length / 2 ≤ cap by omega)
  · exact (show node.length - node.length / 2 ≤ cap by omega)
  · change ∀ entry ∈ [_, _], _
    rw [List.forall_mem_cons, List.forall_mem_singleton]
    refine ⟨every_iff.mpr ⟨?_, loaded.least.subset fun _ => List.mem_of_mem_take⟩,
      every_iff.mpr ⟨?_, loaded.least.subset fun _ => List.mem_of_mem_drop⟩⟩
    · change split ≤ (node.take (node.length / 2)).length
      omega
    · change split ≤ (node.drop (node.length / 2)).length
      omega
  · rw [leafKeys, pairs_grow]
    exact loaded.stored key (mem_keys_of_half (keys_pair lowFilled highFilled member))

/-- The height of such a tree is at most logarithmic. -/
theorem pow_le (loaded : Loaded cap split h node) (tall : h ≠ 0) :
    2 * split ^ h ≤ (pairs h node).length :=
  Nat.le_trans (Nat.mul_le_mul_right _ (loaded.rooted tall)) (pow_le_pairs loaded.least)

end Loaded

/-- A tree holds at most as many pairs as there are keys. -/
theorem pairs_length_le {tree : BPlus Nat ν h} {limit : Nat} (bounded : Searchable h tree)
    (below : ∀ key ∈ leafKeys h tree, key < limit) : (pairs h tree).length ≤ limit := by
  have distinct : (leafKeys h tree).Nodup :=
    (List.pairwise_map.mpr (pairs_ascending bounded)).imp fun less => ne_of_lt less
  have within : (leafKeys h tree) ⊆ List.range limit :=
    fun key member => List.mem_range.mpr (below key member)
  have counted := (List.subperm_of_subset distinct within).length_le
  rwa [leafKeys, List.length_map, List.length_range] at counted

end EverDb.Foundation.BPlus
