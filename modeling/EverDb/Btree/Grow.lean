import EverDb.Btree.Update
import EverDb.Foundation.BPlus.Grow

/-!
# btree_grow

`btree_grow` cuts the root in the middle and puts a new root above the halves.
-/

namespace EverDb

open Foundation BPlus

variable {ρ : Type} {api : BlockApi (Db ρ)} {db : Db ρ} {h : Nat}

/-- The root that `btree_grow` writes. -/
def growRoot (leftKey rightKey left right : Nat) : Image :=
  Bt.setSelfSize (Bt.setData (Bt.setData (Bt.setKey (Bt.setKey (Bt.setMagic btreeInitImage
    edbMagicBtree) 0 leftKey) 1 rightKey) 0 left) 1 right) 2

theorem growRoot_nodeAt {leftKey rightKey left right : Nat} (leftKeyBounded : leftKey < 4294967296)
    (rightKeyBounded : rightKey < 4294967296) (leftBounded : left < 4294967296)
    (rightBounded : right < 4294967296) :
    NodeAt (growRoot leftKey rightKey left right) (h + 1) [(leftKey, left), (rightKey, right)] := by
  constructor
  · simp only [growRoot, Bt.magic_setSelfSize, Bt.magic_setData, Bt.magic_setKey]
    exact Bt.magic_setMagic (by decide)
  · refine Bt.entries_eq (Bt.selfSize_setSelfSize (by decide)) fun i inside => ?_
    have small : i < 2 := inside
    rw [growRoot, Bt.entry_setSelfSize, Bt.entry, Bt.key_setData (by omega),
      Bt.key_setData (by omega),
      Bt.key_setKey rightKeyBounded, Bt.key_setKey leftKeyBounded, Bt.data_setData rightBounded,
      Bt.data_setData leftBounded]
    rcases i with _ | _ | i
    · rfl
    · rfl
    · omega

/-- The last writes of `btree_grow`. -/
theorem growRoot_written {grown leftKey rightKey left right : Nat}
    (fresh : db.data grown = btreeInitImage) :
    (do
      editNode grown fun bt => Bt.setMagic bt edbMagicBtree
      editNode grown fun bt => Bt.setKey bt 0 leftKey
      editNode grown fun bt => Bt.setKey bt 1 rightKey
      editNode grown fun bt => Bt.setData bt 0 left
      editNode grown fun bt => Bt.setData bt 1 right
      editNode grown fun bt => Bt.setSelfSize bt 2
      pure (0, grown) : Code (Db ρ) (Int × Nat)) db =
      .ok (0, grown) (db.write grown (growRoot leftKey rightKey left right)) := by
  change Outcome.ok (0, grown) _ = _
  simp only [Db.write_write, Db.write_data_self, fresh]
  rfl

/-- A new block joins the blocks of a holder. -/
theorem Confined.allocate {held : Set Nat} {after : Db ρ} {new : Nat} (fresh : new ∉ held)
    (same : ∀ other ∈ held, after.data other = db.data other) (region : List Nat) :
    Confined held (insert new held) db after region (new :: region) := by
  refine ⟨fun block member _ => ⟨Set.mem_insert_of_mem _ member, same block member⟩,
    fun block inside => ?_⟩
  rcases List.mem_cons.mp inside with rfl | old
  · exact .inr fresh
  · exact .inl old

/-- A tree of a holder that takes a new block. -/
theorem Placed.Held.allocate {held : Set Nat} {after : Db ρ} {node : Placed h}
    (heldNode : Placed.Held held db h node) (new : Nat)
    (same : ∀ other ∈ held, after.data other = db.data other) :
    Placed.Held (insert new held) after h node :=
  ⟨heldNode.stored.congr fun block inside => same block (heldNode.mine block inside),
    heldNode.distinct, fun block inside => Set.mem_insert_of_mem _ (heldNode.mine block inside)⟩

/-- The writes of `btree_grow` once the root is writable and the new blocks are there. -/
theorem btreeGrowInto_run (contract : HolderContract api) {held : Set Nat} {answers : List Int}
    {root grown child1 : Nat} {row : List (Nat × Nat)} (valid : contract.Valid held answers db)
    (rootHeld : root ∈ held) (grownHeld : grown ∈ held) (childHeld : child1 ∈ held)
    (rootGrown : root ≠ grown) (rootChild : root ≠ child1) (grownChild : grown ≠ child1)
    (rootAt : NodeAt (db.data root) h row) (two : 2 ≤ row.length) (small : row.length ≤ 510) :
    ∃ after, btreeGrowInto root grown child1 db = .ok (0, grown) after ∧
      contract.Valid held answers after ∧
      NodeAt (after.data root) h (row.take (row.length / 2)) ∧
      NodeAt (after.data child1) h (row.drop (row.length / 2)) ∧
      NodeAt (after.data grown) (h + 1) [(BPlus.lastKey 0 (row.take (row.length / 2)), root),
        (BPlus.lastKey 0 (row.drop (row.length / 2)), child1)] ∧
      ∀ other, other ≠ root → other ≠ grown → other ≠ child1 →
      after.data other = db.data other := by
  have childGrown := grownChild.symm
  have childRoot := rootChild.symm
  have grownRoot := rootGrown.symm
  have size : Bt.selfSize (db.data root) = row.length := rootAt.selfSize
  have n : row.length / 2 ≠ 0 := by omega
  have half : row.length / 2 ≤ row.length := Nat.div_le_self _ _
  have lowAt := rootAt.take small half
  have highAt := rootAt.drop small half
  -- the states after the writes
  let w1 := (db.write grown btreeInitImage).write child1 btreeInitImage
  let w2 := w1.write child1 (Bt.setMagic (w1.data child1) (Bt.magic (w1.data root)))
  let w3 := w2.write child1 (moveEntries (w1.data root) (Bt.selfSize (w1.data root) / 2)
    (Bt.selfSize (w1.data root) - Bt.selfSize (w1.data root) / 2) (Bt.selfSize (w1.data root) / 2)
    (w2.data child1))
  let w4 := w3.write child1 (Bt.setSelfSize (w3.data child1)
    (sub32 (Bt.selfSize (w1.data root)) (Bt.selfSize (w1.data root) / 2)))
  let w5 := w4.write root (Bt.setSelfSize (w4.data root) (Bt.selfSize (w1.data root) / 2))
  let w6 := w5.write grown
    (growRoot (Bt.lastKey (w5.data root)) (Bt.lastKey (w5.data child1)) root child1)
  have root1 : w1.data root = db.data root := by simp [w1, Db.write, rootGrown, rootChild]
  have root5 : w5.data root = Bt.setSelfSize (db.data root) (row.length / 2) := by
    simp [w5, w4, w3, w2, root1, Db.write, rootChild, size]
  have child5 : w5.data child1 = Bt.setSelfSize (moveEntries (db.data root) (row.length / 2)
      (Bt.selfSize (db.data root) - row.length / 2) (row.length / 2)
      (Bt.setMagic btreeInitImage (Bt.magic (db.data root))))
      (sub32 (Bt.selfSize (db.data root)) (row.length / 2)) := by
    simp [w5, w4, w3, w2, root1, Db.write, childRoot, size]
    simp [w1, Db.write]
  have grown5 : w5.data grown = btreeInitImage := by
    simp [w5, w4, w3, w2, w1, Db.write, grownRoot, grownChild]
  have count : Bt.selfSize (w1.data root) / 2 ≠ 0 := by
    rw [root1, size]
    exact n
  refine ⟨w6, ?_, ?_, ?_, ?_, ?_, ?_⟩
  · unfold btreeGrowInto
    change (if Bt.selfSize (w1.data root) / 2 = 0 then Code.diverge else _) w5 = _
    rw [if_neg count]
    exact growRoot_written grown5
  · exact contract.write (contract.write (contract.write (contract.write (contract.write
      (contract.write (contract.write valid grownHeld _) childHeld _) childHeld _) childHeld _)
      childHeld _) rootHeld _) grownHeld _
  · rw [Db.write_data_of_ne rootGrown, root5]
    exact lowAt
  · rw [Db.write_data_of_ne childGrown, child5]
    exact highAt
  · have lowFilled : row.take (row.length / 2) ≠ [] :=
      List.length_pos_iff.mp (by rw [List.length_take]; omega)
    have highFilled : row.drop (row.length / 2) ≠ [] :=
      List.length_pos_iff.mp (by rw [List.length_drop]; omega)
    rw [Db.write_data_self, root5, child5, ← lowAt.lastKey lowFilled, ← highAt.lastKey highFilled]
    exact growRoot_nodeAt (Bt.key_lt _ _) (Bt.key_lt _ _) (contract.bounded valid root rootHeld)
      (contract.bounded valid child1 childHeld)
  · intro other notRoot notGrown notChild
    simp [w6, w5, w4, w3, w2, w1, Db.write, notRoot, notGrown, notChild]

/-- What `btree_grow` does when the block functions answer. -/
theorem btreeGrow_run (contract : HolderContract api) {held : Set Nat} {answers : List Int}
    {node : Placed h} (valid : contract.Valid held (0 :: 0 :: 0 :: answers) db)
    (heldNode : Placed.Held held db h node) (two : 2 ≤ node.entries.length)
    (small : node.entries.length ≤ 510) :
    ∃ grown after later next, btreeGrow api node.block node.block db = .ok (0, grown) after ∧
      contract.Valid later answers after ∧ Placed.Held later after (h + 1) next ∧
      Node.block next = grown ∧ Placed.tree (h + 1) next = grow 0 (Placed.tree h node) ∧
      Confined held later db after (Placed.blocks h node) (Placed.blocks (h + 1) next) := by
  have nodeAt := heldNode.stored.root
  obtain ⟨root, held1, db1, ran1, valid1, moved1, call1⟩ := contract.modifyNode valid heldNode
  obtain ⟨grown, db2, ran2, fresh2, valid2, same2⟩ := contract.allocate valid1
  obtain ⟨child1, db3, ran3, fresh3, valid3, same3⟩ := contract.allocate valid2
  have moved2 := moved1.allocate grown same2
  have rootIn2 : root ∈ insert grown held1 := moved2.mine _ (Placed.block_mem _)
  have rootApart : grown ∉ Placed.blocks h (⟨root, node.entries⟩ : Placed h) := fun inside =>
    fresh2 (moved1.mine _ inside)
  have rootGrown : root ≠ grown := fun equal => rootApart (equal ▸ Placed.block_mem _)
  have rootChild : root ≠ child1 := fun equal => fresh3 (equal ▸ rootIn2)
  have grownIn : grown ∈ insert grown held1 := Set.mem_insert _ _
  have grownChild : grown ≠ child1 := fun equal => fresh3 (equal ▸ grownIn)
  have rootAt : NodeAt (db3.data root) h (Placed.row node) := by
    rw [same3 root rootIn2]
    exact moved2.stored.root
  obtain ⟨after, ran4, valid4, lowAt, highAt, grownAt, same4⟩ := btreeGrowInto_run contract valid3
    (Set.mem_insert_of_mem _ rootIn2) (Set.mem_insert_of_mem _ grownIn) (Set.mem_insert _ _)
    rootGrown rootChild grownChild rootAt (by rw [Placed.row_length]; exact two)
    (by rw [Placed.row_length]; exact small)
  have kept : ∀ other ∈ insert grown held1, other ≠ grown → other ≠ root →
      after.data other = db2.data other := fun other member notGrown notRoot =>
    (same4 other notRoot notGrown fun equal => fresh3 (equal ▸ member)).trans (same3 other member)
  rw [Placed.row_length] at lowAt highAt grownAt
  -- the halves of the old root, under the new one
  let left : Placed h := ⟨root, node.entries.take (node.entries.length / 2)⟩
  let right : Placed h := ⟨child1, node.entries.drop (node.entries.length / 2)⟩
  have lowRow : (Placed.row node).take (node.entries.length / 2) = Placed.row left :=
    List.map_take.symm
  have highRow : (Placed.row node).drop (node.entries.length / 2) = Placed.row right :=
    List.map_drop.symm
  rw [lowRow] at lowAt
  rw [highRow] at highAt
  rw [lowRow, highRow, Placed.lastKey_row, Placed.lastKey_row] at grownAt
  obtain ⟨halves, confined4, members⟩ := moved2.cut fresh3 rootApart lowAt highAt kept
    (BPlus.lastKey 0 (Placed.tree h left)) (BPlus.lastKey 0 (Placed.tree h right))
  let next : Placed (h + 1) := ⟨grown, [(BPlus.lastKey 0 (Placed.tree h left), left),
    (BPlus.lastKey 0 (Placed.tree h right), right)]⟩
  have trunk : Trunk (insert child1 (insert grown held1)) after h grown next.entries := by
    refine ⟨Set.mem_insert_of_mem _ grownIn, fun inside => ?_, halves⟩
    rcases members grown inside with equal | old
    · exact grownChild equal
    · exact rootApart old
  refine ⟨grown, after, _, next, ?_, valid4, trunk.toHeld grownAt, rfl, ?_, ?_⟩
  · change (Code.gets (fun db : Db ρ => db.data node.block) >>= _) db = _
    rw [Code.gets_bind, nodeAt.isBtree, if_neg (by decide), Code.branch_ok ran1,
      Code.branch_ok ran2, Code.branch_ok ran3]
    exact ran4
  · have lowTree : Placed.tree h left = (Placed.tree h node).take (node.entries.length / 2) := by
      rw [← Placed.tree_take]
      exact (Placed.tree_moved left node.block).symm
    have highTree : Placed.tree h right = (Placed.tree h node).drop (node.entries.length / 2) :=
      Placed.tree_drop _ _ _
    simp [grow, labelled, Placed.tree, next, Placed.tree_length, lowTree, highTree]
  · exact call1.trans ((Confined.allocate fresh2 same2 _).trans confined4)

/-- A well-formed tree with two entries in its root grows into one. -/
theorem WellFormed.grow {under : (h : Nat) → BPlus Nat Nat h → List Nat} (reading : Reading under)
    {tree : BPlus Nat Nat h} (wellFormed : WellFormed under h tree) (two : 2 ≤ tree.length) :
    WellFormed under (h + 1) (BPlus.grow 0 tree) := by
  obtain ⟨bounded, sized, filled⟩ := wellFormed
  have most : tree.length ≤ 510 := by
    cases h with
    | zero => exact sized
    | succ h => exact sized.1
  have inhabited : Every (0 < ·) h tree := by
    cases h with
    | zero => exact Nat.lt_of_lt_of_le Nat.zero_lt_two two
    | succ h => exact filled (Nat.succ_ne_zero h)
  refine ⟨bounded.grow reading two, every_grow sized (by decide) ⟨?_, ?_⟩, ?_⟩
  · exact Nat.le_trans (Nat.div_le_self _ _) most
  · exact Nat.le_trans (Nat.sub_le _ _) most
  · exact (every_grow inhabited Nat.zero_lt_two ⟨by omega, by omega⟩).filled

/-- A failing block function makes `btree_grow` fail. -/
theorem btreeGrow_answers (contract : HolderContract api) {held : Set Nat} {answers : List Int}
    {first second third : Int} {node : Placed h}
    (valid : contract.Valid held (first :: second :: third :: answers) db)
    (heldNode : Placed.Held held db h node) {grown : Nat} {after : Db ρ}
    (ran : btreeGrow api node.block node.block db = .ok (0, grown) after) :
    first = 0 ∧ second = 0 ∧ third = 0 := by
  have start : btreeGrow api node.block node.block db =
      Code.branch (api.modify node.block) (fun code => pure (code, node.block)) (fun root =>
        .branch api.allocate (fun code => pure (code, node.block)) fun newRoot =>
        .branch api.allocate (fun code => pure (code, newRoot)) fun child1 =>
        btreeGrowInto root newRoot child1) db := by
    change (Code.gets (fun db : Db ρ => db.data node.block) >>= _) db = _
    rw [Code.gets_bind, heldNode.stored.root.isBtree, if_neg (by decide)]
  have refused : ∀ {code : Int} {block : Nat} {state : Db ρ},
      (Outcome.ok (code, block) state : Outcome (Db ρ) (Int × Nat)) =
      .ok (0, grown) after → code = 0 := by
    rintro code block state equal
    injection equal with pair
    exact congrArg Prod.fst pair
  rw [start] at ran
  by_cases one : first = 0
  · subst one
    obtain ⟨root, held1, db1, ran1, valid1, _⟩ := contract.modifyNode valid heldNode
    rw [Code.branch_ok ran1] at ran
    by_cases two : second = 0
    · subst two
      obtain ⟨newRoot, db2, ran2, _, valid2, _⟩ := contract.allocate valid1
      rw [Code.branch_ok ran2] at ran
      refine ⟨rfl, rfl, Classical.by_contradiction fun three => ?_⟩
      obtain ⟨db3, ran3, _⟩ := contract.allocate_refused valid2 three
      rw [Code.branch_error ran3] at ran
      exact three (refused ran)
    · obtain ⟨db2, ran2, _⟩ := contract.allocate_refused valid1 two
      rw [Code.branch_error ran2] at ran
      exact absurd (refused ran) two
  · obtain ⟨db1, ran1, _⟩ :=
      contract.modify_refused valid one (heldNode.mine _ (Placed.block_mem node))
    rw [Code.branch_error ran1] at ran
    exact absurd (refused ran) one

/-- `btree_grow` puts a root of two entries above a well-formed tree whose pairs stay
as they are. It returns 0 when all its block calls do, and only then. -/
theorem btreeGrow_preserves (contract : HolderContract api) {held : Set Nat} {answers : List Int}
    {first second third : Int} {node : Placed h}
    (valid : contract.Valid held (first :: second :: third :: answers) db)
    (heldNode : Placed.Held held db h node)
    (wellFormed : WellFormed leafKeys h (Placed.tree h node)) (two : 2 ≤ node.entries.length) :
    (first = 0 ∧ second = 0 ∧ third = 0 →
      ∃ grown after, btreeGrow api node.block node.block db = .ok (0, grown) after) ∧
    ∀ grown after, btreeGrow api node.block node.block db = .ok (0, grown) after →
      ∃ later next, contract.Valid later answers after ∧ Placed.Held later after (h + 1) next ∧
        Node.block next = grown ∧ (Node.entries next).length = 2 ∧
        WellFormed leafKeys (h + 1) (Placed.tree (h + 1) next) ∧
        (WellFormed keys h (Placed.tree h node) →
          WellFormed keys (h + 1) (Placed.tree (h + 1) next)) ∧
        pairs (h + 1) (Placed.tree (h + 1) next) = pairs h (Placed.tree h node) := by
  have most : node.entries.length ≤ 510 := by
    rw [← Placed.tree_length]
    cases h with
    | zero => exact wellFormed.sized
    | succ h => exact wellFormed.sized.1
  have counted : 2 ≤ (Placed.tree h node).length := by rwa [Placed.tree_length]
  constructor
  · rintro ⟨rfl, rfl, rfl⟩
    obtain ⟨grown, after, _, _, ran, _⟩ := btreeGrow_run contract valid heldNode two most
    exact ⟨grown, after, ran⟩
  · intro grown after ran
    obtain ⟨rfl, rfl, rfl⟩ := btreeGrow_answers contract valid heldNode ran
    obtain ⟨_, _, later, next, same, validLater, heldNext, place, tree, _⟩ :=
      btreeGrow_run contract valid heldNode two most
    rw [ran] at same
    injection same with pair state
    subst state
    refine ⟨later, next, validLater, heldNext,
      place.trans (congrArg Prod.snd pair).symm, ?_, ?_, ?_, ?_⟩
    · have length : (Placed.tree (h + 1) next).length = 2 := by
        rw [tree]
        rfl
      rwa [Placed.tree_length] at length
    · rw [tree]
      exact wellFormed.grow readingLeafKeys counted
    · intro strong
      rw [tree]
      exact strong.grow readingKeys counted
    · rw [tree]
      exact pairs_grow

/-- The memory that holds a full leaf, with five free blocks. -/
def fullMemory : Db (List Nat) := ⟨Placed.memory (Placed.images 0 fullLeaf), [3, 4, 5, 6, 7]⟩

theorem fullMemory_held : Placed.Held {block | block ∈ [2]} fullMemory 0 fullLeaf :=
  Placed.held_memory fullLeaf_fits (List.nodup_singleton 2)

theorem fullMemory_valid : mockContract.holder.Valid {block | block ∈ [2]} (zeros 5) fullMemory :=
  mockHolder_valid _ (by decide) (by decide) (by decide)

theorem btreeGrow_preserves_full :
    ∃ grown after next, btreeGrow mockApi 2 2 fullMemory = .ok (0, grown) after ∧
    Placed.Stored after 1 next ∧ Node.block next = grown ∧
    pairs 1 (Placed.tree 1 next) = evens := by
  have two : 2 ≤ fullLeaf.entries.length := by
    rw [show fullLeaf.entries.length = 510 from evens_length]
    decide
  obtain ⟨answered, kept⟩ :=
    btreeGrow_preserves mockContract.holder fullMemory_valid fullMemory_held
    (fullLeaf_wellFormed _) two
  obtain ⟨grown, after, ran⟩ := answered ⟨rfl, rfl, rfl⟩
  obtain ⟨_, next, _, heldNext, place, _, _, _, listed⟩ := kept grown after ran
  exact ⟨grown, after, next, ran, heldNext.stored, place, listed⟩

/-- `btree_set` reports a full tree exactly when the route of an absent key is full.
Then nothing has changed for the lookups, and after `btree_grow` the key fits. -/
theorem btreeSet_full (contract : HolderContract api) {k value : Nat} (keyBounded : k < 4294967296)
    (valueBounded : value < 4294967296) {held : Set Nat} {calls : Nat} {node : Placed h}
    (valid : contract.Valid held (zeros calls) db) (heldNode : Placed.Held held db h node)
    (wellFormed : WellFormed leafKeys h (Placed.tree h node)) {depth : Nat} (deep : h < depth)
    (enough : setCost h + 3 + setCost (h + 1) ≤ calls) :
    ∃ code after, (btreeSet api depth node.block k value).attempt db = .ok code after ∧
      (code = edbErrorBtreeFull ↔ pathFull edbBtreeSize h (Placed.tree h node) k = true) ∧
      (code = edbErrorBtreeFull →
        (∀ key, btreeGet after depth node.block key = btreeGet db depth node.block key) ∧
        btreeFirst after depth node.block = btreeFirst db depth node.block ∧
        btreeLast after depth node.block = btreeLast db depth node.block ∧
        ∃ grown afterGrow, btreeGrow api node.block node.block after = .ok (0, grown) afterGrow ∧
          ∃ final, btreeSet api (depth + 1) grown k value afterGrow = .ok () final) := by
  obtain ⟨bounded, sized, filled⟩ := wellFormed
  rcases btreeSet_run contract keyBounded valueBounded valid heldNode bounded sized filled deep
    (by omega) with ⟨full, after, ran, rewritten⟩ | ⟨room, after, ran, _⟩
  · refine ⟨edbErrorBtreeFull, after, Code.attempt_error ran,
      ⟨fun _ => full, fun _ => rfl⟩, fun _ => ?_⟩
    obtain ⟨later, rest, next, validLater, spent, place, tree, heldNext, _⟩ := rewritten
    have storedNext := heldNext.stored
    rw [← place]
    refine ⟨fun key => ?_, ?_, ?_, ?_⟩
    · rw [btreeGet_eq storedNext (by rwa [tree]) deep, place,
        btreeGet_eq heldNode.stored bounded deep, tree]
    · rw [btreeFirst_eq storedNext (by rwa [tree]) deep, place,
        btreeFirst_eq heldNode.stored filled deep, tree]
    · rw [btreeLast_eq storedNext (by rwa [tree]) deep, place,
        btreeLast_eq heldNode.stored filled deep, tree]
    · -- the root is full, so it can be cut in two
      have width : (Placed.tree h node).length = 510 := pathFull_length full
      have nextWidth : next.entries.length = 510 := by rw [← Placed.tree_length, tree, width]
      obtain ⟨rest, rfl⟩ : ∃ more, rest = more + 3 := ⟨rest - 3, by omega⟩
      have granted : contract.Valid later (0 :: 0 :: 0 :: zeros rest) after := validLater
      obtain ⟨grown, afterGrow, held2, tall, ran2, valid2, heldTall, placeTall, treeTall, _⟩ :=
        btreeGrow_run contract granted heldNext (by omega) (by omega)
      refine ⟨grown, afterGrow, ran2, ?_⟩
      have grownWell : WellFormed leafKeys (h + 1) (Placed.tree (h + 1) tall) := by
        rw [treeTall, tree]
        exact WellFormed.grow readingLeafKeys ⟨bounded, sized, filled⟩ (by omega)
      have grownRoom : pathFull 510 (h + 1) (Placed.tree (h + 1) tall) k = false := by
        refine not_pathFull_of_length ?_
        rw [treeTall]
        exact show 2 ≠ 510 by decide
      rw [← placeTall]
      rcases btreeSet_run contract keyBounded valueBounded valid2 heldTall
        grownWell.bounded grownWell.sized grownWell.filled (Nat.succ_lt_succ deep) (by omega) with
        ⟨impossible, _⟩ | ⟨_, final, ran3, _⟩
      · rw [grownRoom] at impossible
        cases impossible
      · exact ⟨final, ran3⟩
  · refine ⟨0, after, Code.attempt_ok ran, ⟨fun wrong => absurd wrong (by decide), fun full => ?_⟩,
      fun wrong => absurd wrong (by decide)⟩
    rw [room] at full
    cases full

theorem btreeSet_full_leaf : ∃ after grown afterGrow final,
    (btreeSet mockApi 1 2 901 7).attempt fullMemory = .ok edbErrorBtreeFull after ∧
      btreeGrow mockApi 2 2 after = .ok (0, grown) afterGrow ∧
      btreeSet mockApi 2 grown 901 7 afterGrow = .ok () final := by
  have keyBounded : 901 < 4294967296 := by decide
  have valueBounded : 7 < 4294967296 := by decide
  have enough : setCost 0 + 3 + setCost 1 ≤ 5 := by decide
  obtain ⟨code, after, ran, exactly, cured⟩ :=
    btreeSet_full mockContract.holder keyBounded valueBounded
    fullMemory_valid fullMemory_held (fullLeaf_wellFormed _) Nat.zero_lt_one enough
  obtain rfl := exactly.mpr (evens_full rfl)
  obtain ⟨_, _, _, grown, afterGrow, grew, final, finished⟩ := cured rfl
  exact ⟨after, grown, afterGrow, final, ran, grew, finished⟩

end EverDb
