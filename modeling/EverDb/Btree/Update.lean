import EverDb.Block.Mock
import EverDb.Btree.Set

/-!
# When btree_set is a map update

The tree that `btree_set` leaves is well-formed exactly when the insertion was
`Safe`, and then it binds the key and nothing else.
-/

namespace EverDb

open Foundation BPlus

variable {ρ : Type} {api : BlockApi (Db ρ)} {db : Db ρ} {h depth k value : Nat}

/-- A memory stores at most one tree of a height at a block. -/
theorem Placed.Stored.unique {left right : Placed h} (first : Placed.Stored db h left)
    (second : Placed.Stored db h right) (same : left.block = right.block) : left = right := by
  have rows : left.row = right.row := by
    rw [← first.root.entries, ← second.root.entries, same]
  suffices equal : left.entries = right.entries from Node.ext same equal
  induction h with
  | zero => rwa [Placed.row_zero, Placed.row_zero] at rows
  | succ h ih =>
      have lengths : left.entries.length = right.entries.length := by
        have counted := congrArg List.length rows
        rwa [Placed.row_length, Placed.row_length] at counted
      refine List.ext_getElem lengths fun i inLeft inRight => ?_
      have word := congrArg (fun row => row[i]?) rows
      simp only [Placed.row, Placed.rows, List.getElem?_map, List.getElem?_eq_getElem inLeft,
        List.getElem?_eq_getElem inRight, Option.map_some, Option.some.injEq, Prod.mk.injEq] at word
      have leftBelow := first.2 _ (List.getElem_mem inLeft)
      have rightBelow := second.2 _ (List.getElem_mem inRight)
      have block : left.entries[i].2.block = right.entries[i].2.block := word.2
      have row : Placed.row left.entries[i].2 = Placed.row right.entries[i].2 := by
        rw [← leftBelow.root.entries, ← rightBelow.root.entries, block]
      exact Prod.ext word.1 (Node.ext block (ih leftBelow rightBelow block row))

/-- A map update of the tree at `root`: it is well-formed again, `k` is bound to `value`
and every other key as before. -/
structure MapUpdated (db after : Db ρ) (h depth root k value : Nat) : Prop where
  wellFormed : ∃ next : Placed h, next.block = root ∧ Placed.Stored after h next ∧
    (Placed.blocks h next).Nodup ∧ WellFormed keys h (Placed.tree h next)
  bound : btreeGet after depth root k = some (0, value)
  others : ∀ other, other ≠ k → btreeGet after depth root other = btreeGet db depth root other

/-- Carrying out an insertion is a map update when the insertion is safe. -/
theorem Rewritten.mapUpdated_iff {contract : HolderContract api} {held : Set Nat} {calls cost : Nat}
    {node : Placed h} {after : Db ρ} (stored : Placed.Stored db h node)
    (wellFormed : WellFormed keys h (Placed.tree h node)) (deep : h < depth)
    (room : pathFull 510 h (Placed.tree h node) k = false)
    (rewritten : Rewritten contract held calls db node cost
      (set 510 127 h (Placed.tree h node) k value) after) :
    MapUpdated db after h depth node.block k value ↔ Safe 510 127 h (Placed.tree h node) k := by
  obtain ⟨ordered, sized, filled⟩ := wellFormed
  obtain ⟨_, _, next, _, _, place, tree, heldNext, _⟩ := rewritten
  have bounds : 0 < 127 ∧ 127 < 510 := by decide
  rw [← ordered_set bounds ordered filled, ← tree]
  constructor
  · rintro ⟨⟨other, same, storedOther, _, ordered, _, _⟩, _, _⟩
    rwa [storedOther.unique heldNext.stored (same.trans place.symm)] at ordered
  · intro orderedNext
    have members : ∀ pair, pair ∈ pairs h (Placed.tree h next) ↔
        pair = (k, value) ∨ pair.1 ≠ k ∧ pair ∈ pairs h (Placed.tree h node) := fun pair => by
      rw [tree]
      exact mem_pairs_set bounds ordered.searchable filled
    refine ⟨⟨next, place, heldNext.stored, heldNext.distinct, orderedNext, ?_, ?_⟩, ?_, ?_⟩
    · rw [tree]
      exact (every_set bounds filled sized room).imp fun _ both => both.2
    · rw [tree]
      exact Every.filled ((every_set bounds filled sized room).imp fun _ both => both.1)
    · rw [← place, btreeGet_eq heldNext.stored orderedNext.searchable deep,
        (get_eq_some orderedNext.searchable).mpr ((members _).mpr (.inl rfl))]
      rfl
    · intro other apart
      rw [← place, btreeGet_eq heldNext.stored orderedNext.searchable deep, place,
        btreeGet_eq stored ordered.searchable deep,
        get_congr ordered.searchable orderedNext.searchable fun stored => ?_]
      rw [members]
      constructor
      · rintro (equal | ⟨_, inside⟩)
        · exact absurd (congrArg Prod.fst equal) apart
        · exact inside
      · exact fun inside => .inr ⟨apart, inside⟩

/-- `btree_set` returns, and it is a map update, or reports a full tree, exactly when every
full child it cuts is cut on the right side of the key. -/
theorem btreeSet_updates_iff (contract : HolderContract api) (keyBounded : k < 4294967296)
    (valueBounded : value < 4294967296) {held : Set Nat} {calls : Nat} {node : Placed h}
    (valid : contract.Valid held (zeros calls) db) (heldNode : Placed.Held held db h node)
    (wellFormed : WellFormed keys h (Placed.tree h node)) (deep : h < depth)
    (enough : setCost h ≤ calls) :
    (∃ code after, (btreeSet api depth node.block k value).attempt db = .ok code after) ∧
      ((∀ after, btreeSet api depth node.block k value db = .ok () after →
          MapUpdated db after h depth node.block k value) ↔
        pathFull edbBtreeSize h (Placed.tree h node) k = true ∨
          Safe edbBtreeSize edbBtreeSplit h (Placed.tree h node) k) := by
  rcases btreeSet_run contract keyBounded valueBounded valid heldNode wellFormed.bounded.searchable
    wellFormed.sized wellFormed.filled deep enough with
      ⟨full, after, ran, _⟩ | ⟨room, after, ran, rewritten⟩
  · refine ⟨⟨_, _, Code.attempt_error ran⟩, fun _ => .inl full, fun _ other returned => ?_⟩
    rw [ran] at returned
    cases returned
  · refine ⟨⟨_, _, Code.attempt_ok ran⟩, ?_⟩
    have updated := rewritten.mapUpdated_iff heldNode.stored wellFormed deep room
    constructor
    · exact fun holds => .inr (updated.mp (holds after ran))
    · rintro (full | safe) other returned
      · rw [room] at full
        cases full
      · rw [ran] at returned
        injection returned with _ same
        exact same ▸ updated.mpr safe

/-- A full leaf: the even keys below 1020. -/
def evens : List (Nat × Nat) := (List.range 510).map fun i => (2 * i, i)

/-- A full leaf has 510 entries. -/
theorem evens_length : evens.length = 510 := by simp [evens]

/-- The entries of the full leaf are the even numbers. -/
theorem mem_evens {entry : Nat × Nat} : entry ∈ evens ↔ ∃ i < 510, entry = (2 * i, i) := by
  simp only [evens, List.mem_map, List.mem_range, eq_comm]

/-- Its keys ascend. -/
theorem evens_ascending : evens.Pairwise fun left right => left.1 < right.1 := by
  rw [evens, List.pairwise_map]
  exact List.pairwise_lt_range.imp fun less => Nat.mul_lt_mul_of_pos_left less Nat.zero_lt_two

/-- An odd key is not stored in it, so its set finds no room. -/
theorem evens_full (odd : k % 2 = 1) : pathFull 510 0 (evens : BPlus Nat Nat 0) k = true := by
  have absent : evens.any (fun entry => decide (entry.1 = k)) = false := by
    rw [List.any_eq_false]
    intro entry member
    obtain ⟨i, _, rfl⟩ := mem_evens.mp member
    rw [decide_eq_true_eq]
    omega
  rw [pathFull, absent, evens_length]
  rfl

/-- The entry at which a split cuts the leaf. -/
theorem mem_drop_evens : (254, 127) ∈ evens.drop 127 := by
  have here : (evens.drop 127)[0]? = some (254, 127) := by simp [evens]
  exact List.mem_of_getElem? here

attribute [irreducible] evens

/-- The full leaf in block 2. -/
def fullLeaf : Placed 0 := ⟨2, evens⟩

/-- A tree that is one full leaf is well formed. -/
theorem fullLeaf_wellFormed (under : (h : Nat) → BPlus Nat Nat h → List Nat) :
    WellFormed under 0 (Placed.tree 0 fullLeaf) :=
  ⟨evens_ascending, Nat.le_of_eq evens_length, fun wrong => absurd rfl wrong⟩

/-- It fits into a block. -/
theorem fullLeaf_fits : Placed.Fits 0 fullLeaf := by
  refine ⟨fun entry member => ?_, Nat.le_of_eq evens_length⟩
  rw [Placed.row_zero] at member
  obtain ⟨i, small, rfl⟩ := mem_evens.mp member
  exact ⟨by change 2 * i < 4294967296; omega, by change i < 4294967296; omega⟩

/-- The full leaf below a root. -/
def crowded : Placed 1 := ⟨1, [(1018, fullLeaf)]⟩

/-- The tree with a full leaf below the root is well formed. -/
theorem crowded_wellFormed : WellFormed keys 1 (Placed.tree 1 crowded) := by
  have tree : Placed.tree 1 crowded = [(1018, evens)] := rfl
  have size : Every (· ≤ 510) 0 (evens : BPlus Nat Nat 0) := Nat.le_of_eq evens_length
  have inhabited : Every (0 < ·) 0 (evens : BPlus Nat Nat 0) := by
    rw [Every, evens_length]
    decide
  rw [tree]
  refine ⟨⟨List.pairwise_singleton _ _, ?_⟩, ⟨by decide, ?_⟩, fun _ => ⟨by decide, ?_⟩⟩
  all_goals rw [List.forall_mem_singleton]
  · refine ⟨fun key member => ?_, evens_ascending⟩
    obtain ⟨entry, inside, rfl⟩ := List.mem_map.mp member
    obtain ⟨i, small, rfl⟩ := mem_evens.mp inside
    change 2 * i ≤ 1018
    omega
  · exact size
  · exact inhabited

/-- Its nodes fit into blocks. -/
theorem crowded_fits : Placed.Fits 1 crowded := by
  refine ⟨by decide, by decide, ?_⟩
  rw [crowded, List.forall_mem_singleton]
  exact fullLeaf_fits

/-- The memory that holds the full leaf and its root, with three free blocks. -/
def crowdedMemory : Db (List Nat) := ⟨Placed.memory (Placed.images 1 crowded), [3, 4, 5]⟩

/-- The memory holds the tree. -/
theorem crowded_held : Placed.Held {block | block ∈ [1, 2]} crowdedMemory 1 crowded :=
  Placed.held_memory crowded_fits (by decide)

/-- The mock allocator has given out its blocks. -/
theorem crowded_valid :
    mockContract.holder.Valid {block | block ∈ [1, 2]} (zeros 3) crowdedMemory :=
  mockHolder_valid _ (by decide) (by decide) (by decide)

/-- Every search goes to the one leaf. -/
theorem crowded_cut (k : Nat) :
    Cut k (Placed.tree 1 crowded) [] (1018, (evens : BPlus Nat Nat 0)) [] :=
  ⟨rfl, by simp, .inr rfl⟩

/-- A key beyond the keys of the full leaf is inserted as it should be. -/
theorem btreeSet_updates_iff_beyond :
    (∃ code after, (btreeSet mockApi 2 1 1021 7).attempt crowdedMemory = .ok code after) ∧
      ∀ after, btreeSet mockApi 2 1 1021 7 crowdedMemory = .ok () after →
        MapUpdated crowdedMemory after 1 2 1 1021 7 := by
  have safe : Safe 510 127 1 (Placed.tree 1 crowded) 1021 :=
    (safe_high (crowded_cut 1021) (evens_full rfl) (by decide)).mpr trivial
  have keyBounded : 1021 < 4294967296 := by decide
  have valueBounded : 7 < 4294967296 := by decide
  obtain ⟨returns, condition⟩ := btreeSet_updates_iff mockContract.holder keyBounded valueBounded
    crowded_valid crowded_held crowded_wellFormed (Nat.lt_succ_self 1) (by decide)
  exact ⟨returns, condition.mpr (.inr safe)⟩

/-- The odd key 901 belongs among the upper entries of the full leaf, and `btree_set`
retries it among the lower ones. -/
theorem btreeSet_misplaces_key : ∃ after, btreeSet mockApi 2 1 901 7 crowdedMemory = .ok () after ∧
    ¬MapUpdated crowdedMemory after 1 2 1 901 7 := by
  have cut := crowded_cut 901
  have full := evens_full (k := 901) rfl
  have room : pathFull 510 1 (Placed.tree 1 crowded) 901 = false :=
    not_pathFull_of_length (by decide)
  have misplaced : ¬Safe 510 127 1 (Placed.tree 1 crowded) 901 := by
    rw [safe_low cut full (by decide)]
    rintro ⟨above, _⟩
    exact absurd (above 254 (List.mem_map.mpr ⟨_, mem_drop_evens, rfl⟩)) (by decide)
  have keyBounded : 901 < 4294967296 := by decide
  have valueBounded : 7 < 4294967296 := by decide
  have deep : 1 < 2 := by decide
  rcases btreeSet_run mockContract.holder keyBounded valueBounded crowded_valid crowded_held
    crowded_wellFormed.bounded.searchable crowded_wellFormed.sized crowded_wellFormed.filled deep
    (by decide) with ⟨impossible, _⟩ | ⟨_, after, ran, rewritten⟩
  · rw [room] at impossible
    cases impossible
  · refine ⟨after, ran, fun updated => misplaced ?_⟩
    exact (rewritten.mapUpdated_iff crowded_held.stored crowded_wellFormed (by decide)
      room).mp updated

end EverDb
