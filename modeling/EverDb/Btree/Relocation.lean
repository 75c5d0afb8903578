import EverDb.Block.Mock
import EverDb.Btree.Layout
import EverDb.Btree.Pointer

/-!
# Trees whose insertion does not depend on the mapping

`btree_set` calls no block function on a leaf, so the pointers of a parent of leaves stay
valid over the recursive call. One level higher the recursive call makes a block writable
first, and when that moves the mapping the parent writes through its old pointers.
-/

namespace EverDb.Pointer

open Foundation Foundation.BPlus Bt

variable {ρ : Type} {api : BlockApi (Db ρ)} {db : Db ρ} {h k value depth : Nat}

/-- The way of `btree_set` into a child: the root, the child made writable and recorded in
the root. -/
structure Entered (contract : HolderContract api) (answers : List Int) (db : Db ρ) (root k : Nat)
    (front : List (Nat × Ref (h + 1))) (separator : Nat) (child : Placed h)
    (back : List (Nat × Ref (h + 1))) (middle : Db ρ) (later : Set Nat) : Prop where
  isBtree : isBtree (db.data root) = true
  internal : magic (db.data root) = edbMagicBtree
  used : selfSize (db.data root) ≠ 0
  place : (if listFind (db.data root) k = selfSize (db.data root) then listFind (db.data root) k - 1
    else listFind (db.data root) k) = front.length
  modified : api.modify (data (db.data root) front.length) db = .ok child.block middle
  valid : contract.Valid later answers
    (middle.write root (setData (middle.data root) front.length child.block))
  trunk :
    Trunk later (middle.write root (setData (middle.data root) front.length child.block)) h root
    (front ++ [(separator, child)] ++ back)
  nodeAt : NodeAt
    ((middle.write root (setData (middle.data root) front.length child.block)).data root) (h + 1)
    (Placed.rows (h + 1) (front ++ [(separator, child)] ++ back))
  length : (front ++ [(separator, child)] ++ back).length ≤ 510
  searchable : Searchable h (Placed.tree h child)
  small : Every (· ≤ 510) h (Placed.tree h child)
  filled : Filled h (Placed.tree h child)

theorem exists_entered (contract : HolderContract api) {held : Set Nat} {answers : List Int}
    {node : Placed (h + 1)}
    (valid : contract.Valid held (0 :: answers) db) (heldNode : Placed.Held held db (h + 1) node)
    (bounded : Searchable (h + 1) (Placed.tree (h + 1) node))
    (small : Every (· ≤ 510) (h + 1) (Placed.tree (h + 1) node))
    (filled : Filled (h + 1) (Placed.tree (h + 1) node)) (k : Nat) :
    ∃ front separator child back middle later,
      Entered (h := h) contract answers db node.block k front separator child
        back middle later := by
  have nodeAt := heldNode.stored.root
  have count : 0 < node.entries.length := by
    rw [← Placed.tree_length]
    exact filled.all.1
  obtain ⟨front, ⟨separator, child⟩, back, cut⟩ := Cut.exists (k := k) count
  have place := place_eq cut nodeAt (Placed.row_ascending bounded)
  have isBtree := nodeAt.isBtree
  have internal : magic (db.data node.block) = edbMagicBtree := nodeAt.magic
  have trunk := Trunk.of_held heldNode
  have shape : node.entries = front ++ [(separator, child)] ++ back := by simp [cut.shape]
  have length : node.entries.length ≤ 510 := by
    rw [← Placed.tree_length]
    exact small.1
  rw [Placed.row, shape] at nodeAt
  rw [shape] at trunk length
  have childBlock : data (db.data node.block) front.length = child.block := by
    have split := nodeAt
    rw [Placed.rows_single] at split
    rw [← Placed.rows_length front]
    exact congrArg Prod.snd split.entry
  obtain ⟨c0, middle, later, modified, opened, trunkAfter, nodeAtAfter, _⟩ :=
    contract.openChild valid trunk nodeAt length
  refine ⟨front, separator, ⟨c0, child.entries⟩, back, middle, later, isBtree,
    internal, ?_, place, ?_, opened, trunkAfter, nodeAtAfter, by simpa using length, ?_, ?_, ?_⟩
  · rw [nodeAt.selfSize]
    simp
  · rw [childBlock]
    exact modified
  · rw [Placed.tree_moved]
    exact (bounded.2 _ cut.trees.mem_child).2
  · rw [Placed.tree_moved]
    exact small.2 _ cut.trees.mem_child
  · rw [Placed.tree_moved]
    have childFilled : Every (0 < ·) h (Placed.tree h child) := filled.all.2 _ cut.trees.mem_child
    exact childFilled.filled

/-- A leaf is written without a call of a block function. -/
theorem btreeSet_leaf (api : BlockApi (Db ρ)) (depth : Nat)
    (leaf : magic (db.data root) = edbMagicBtreeLeaf) (k value base : Nat) (moves : Nat → Bool) :
    btreeSet api (depth + 1) root k value ⟨db, base, moves⟩ =
      (btreeSetLeaf root k value db).placed base moves := by
  have isBtree : isBtree (db.data root) = true := by simp [EverDb.isBtree, leaf]
  unfold btreeSet
  rw [Code.here_bind, Code.access_bind (Code.gets_run _ _), if_neg (by simp [isBtree]), if_pos leaf]
  exact Code.access_here _ ⟨db, base, moves⟩

theorem btreeSetLeaf_returns (root k value : Nat) (db : Db ρ) :
    btreeSetLeaf root k value db ≠ .stuck := by
  unfold btreeSetLeaf
  rw [Code.gets_bind]
  split
  · exact Outcome.ok_ne_stuck
  · split
    · exact Outcome.ok_ne_stuck
    · exact Outcome.error_ne_stuck

namespace Entered

variable {contract : HolderContract api} {answers : List Int} {root separator : Nat}
  {front back : List (Nat × Ref (h + 1))} {child : Placed h} {middle : Db ρ} {later : Set Nat}

/-- The pointers are computed after the child was made writable. -/
theorem enter (entered : Entered contract answers db root k front separator child back middle later)
    (depth value base : Nat) (moves : Nat → Bool) :
    btreeSet api (depth + 1) root k value ⟨db, base, moves⟩ =
      btreeSetChild api (btreeSet api depth) root front.length k value child.block
        (Mapped.nextBase base moves)
        (Mapped.nextBase base moves) ⟨middle, Mapped.nextBase base moves, Mapped.later moves⟩ := by
  have other : edbMagicBtree ≠ edbMagicBtreeLeaf := by decide
  rw [btreeSet, Code.here_bind, Code.access_bind (Code.gets_run _ _),
    if_neg (by simp [entered.isBtree]),
    entered.internal, if_neg other, if_neg entered.used, entered.place,
    Code.bind_ok (Code.relocating_ok entered.modified)]
  rfl

end Entered

/-- The parent traps when the recursive call has moved the mapping. -/
theorem btreeSetChild_traps {set : Nat → Nat → Nat → Code (Mapped (Db ρ)) Unit}
    {root b child0 base : Nat} {moves : Nat → Bool} (returns : ∀ code mapped, set child0 k value
      ⟨db.write root (setData (db.data root) b child0), base, moves⟩ = .error code mapped →
        code = edbErrorBtreeFull)
    (moved : (∀ mapped, set child0 k value
        ⟨db.write root (setData (db.data root) b child0), base, moves⟩ = .ok () mapped →
          base ≠ mapped.base) ∧
      ∀ code mapped, set child0 k value
        ⟨db.write root (setData (db.data root) b child0), base, moves⟩ = .error code mapped →
          base ≠ mapped.base) :
    btreeSetChild api set root b k value child0 base base ⟨db, base, moves⟩ = .stuck := by
  unfold btreeSetChild
  rw [Code.access_bind (editNode_run root _ db)]
  cases ran : set child0 k value ⟨db.write root (setData (db.data root) b child0), base, moves⟩ with
  | ok _ mapped =>
      rw [Code.bind_ok (Code.attempt_ok ran), if_pos rfl]
      exact Code.bind_stuck (Code.access_stale (moved.1 mapped ran) _)
  | error code mapped =>
      obtain rfl := returns code mapped ran
      rw [Code.bind_ok (Code.attempt_error ran), if_neg (by decide), if_pos rfl]
      exact Code.bind_stuck (Code.access_stale (moved.2 _ mapped ran) _)
  | stuck =>
      refine Code.bind_stuck ?_
      unfold Code.attempt
      rw [ran]

/-- The split recomputes its pointers after the new block was taken. -/
theorem btreeSplit_ok {root b child0 child1 base : Nat} {moves : Nat → Bool} {after : Db ρ}
    (ran : EverDb.btreeSplit api root b child0 db = .ok child1 after) :
    btreeSplit api root b child0 base ⟨db, base, moves⟩ =
      .ok ⟨child1, Mapped.nextBase base moves, Mapped.nextBase base moves,
        Mapped.nextBase base moves⟩
        ⟨after, Mapped.nextBase base moves, Mapped.later moves⟩ := by
  unfold EverDb.btreeSplit at ran
  rw [Code.bind_ok (editNode_run root _ db)] at ran
  obtain ⟨new, middle, allocated, rest⟩ := Code.of_bind_ok ran
  unfold btreeSplit
  rw [Code.access_bind (editNode_run root _ db), Code.bind_ok (Code.relocating_ok allocated)]
  rw [Code.here_bind,
    Code.access_bind (rfl : btreeInit new middle = .ok () (middle.write new btreeInitImage)),
    Code.here_bind, Code.here_bind, Code.here_bind, Code.access_bind (Code.gets_run _ _),
    Code.access_bind (editNode_run _ _ _), Code.access_bind (editNode_run _ _ _),
    Code.access_bind (Code.gets_run _ _),
    Code.access_bind (editNode_run _ _ _), Code.access_bind (editNode_run _ _ _),
    Code.access_bind (editNode_run _ _ _)]
  cases rest
  rfl

/-! ## The condition -/

variable {held : Set Nat} {calls : Nat} {node : Placed h}

/-- With every call moving the mapping, the insertion into a tree of three levels or more
goes through an old pointer. -/
theorem btreeSet_traps (contract : HolderContract api) (keyBounded : k < 4294967296)
    (valueBounded : value < 4294967296)
    {node : Placed (h + 2)} (valid : contract.Valid held (zeros calls) db)
    (heldNode : Placed.Held held db (h + 2) node)
    (bounded : Searchable (h + 2) (Placed.tree (h + 2) node))
    (small : Every (· ≤ 510) (h + 2) (Placed.tree (h + 2) node))
    (filled : Filled (h + 2) (Placed.tree (h + 2) node))
    (deep : h + 2 < depth) (enough : setCost (h + 2) ≤ calls) (base : Nat) :
    btreeSet api depth node.block k value ⟨db, base, Mapped.always⟩ = .stuck := by
  obtain ⟨depth, rfl⟩ := Nat.exists_eq_succ_of_ne_zero (show depth ≠ 0 by omega)
  simp only [setCost] at enough
  obtain ⟨calls, rfl⟩ := Nat.exists_eq_succ_of_ne_zero (show calls ≠ 0 by omega)
  obtain ⟨front, separator, child, back, middle, later, entered⟩ :=
    exists_entered contract valid heldNode bounded small filled k
  have childHeld := entered.trunk.child
  -- the child is internal, so the recursive call makes a block writable first
  have internal : magic ((middle.write node.block
    (setData (middle.data node.block) front.length child.block)).data child.block) =
      edbMagicBtree := childHeld.stored.root.magic
  have spec :=
    btreeSet_run contract keyBounded valueBounded entered.valid childHeld
      entered.searchable entered.small
    entered.filled (show h + 1 < depth by omega) (by simp only [setCost]; omega)
  have ran : Code.Matches .restless Eq _ _ _ := btreeSet_matches api depth child.block k value
    (middle.write node.block (setData (middle.data node.block) front.length child.block))
    (base + 1) Mapped.always rfl
  rw [if_pos internal, Mapped.nextBase_always] at ran
  rw [entered.enter, Mapped.nextBase_always, Mapped.later_always]
  refine btreeSetChild_traps ?_ ⟨?_, ?_⟩
  · intro code mapped failed
    rw [failed] at ran
    rcases spec with ⟨_, after, error, _⟩ | ⟨_, after, ok, _⟩
    · rw [error] at ran
      cases ran
      rfl
    · rw [ok] at ran
      cases ran
  · intro mapped returned
    rw [returned] at ran
    revert ran
    generalize EverDb.btreeSet api depth child.block k value _ = result
    intro ran
    cases ran with
    | ok _ _ onward => simp only; omega
  · intro code mapped failed
    rw [failed] at ran
    revert ran
    generalize EverDb.btreeSet api depth child.block k value _ = result
    intro ran
    cases ran with
    | error _ onward => simp only; omega

/-- An insertion into a leaf returns, and goes on. -/
theorem btreeSet_leaf_returns {root base : Nat} {moves : Nat → Bool}
    {next : Unit → Code (Mapped (Db ρ)) Unit}
    (leaf : magic (db.data root) = edbMagicBtreeLeaf)
    (goes : ∀ final, next () ⟨final, base, moves⟩ ≠ .stuck) :
    (btreeSet api (depth + 1) root k value >>= next) ⟨db, base, moves⟩ ≠ .stuck := by
  have call := btreeSet_leaf api depth leaf k value base moves
  cases ran : btreeSetLeaf root k value db with
  | ok _ final =>
      rw [ran] at call
      rw [Code.bind_ok call]
      exact goes final
  | error code final =>
      rw [ran] at call
      rw [Code.bind_error call]
      exact Outcome.error_ne_stuck
  | stuck => exact absurd ran (btreeSetLeaf_returns _ _ _ _)

/-- The keys of the two halves are raised through one pointer. -/
theorem raiseKeys_returns {root i j child0 child1 base : Nat} {moves : Nat → Bool} (db : Db ρ) :
    (Code.access base (Code.gets fun db : Db ρ => db.data child0) >>= fun child =>
      Code.access base (editNode root fun node => setKey node i (lastKey child)) >>= fun _ =>
      Code.access base (Code.gets fun db : Db ρ => db.data child1) >>= fun child =>
      Code.access base (editNode root fun node => setKey node j (lastKey child))) ⟨db,
        base, moves⟩ ≠ .stuck := by
  rw [Code.access_bind (Code.gets_run _ _), Code.access_bind (editNode_run _ _ _),
    Code.access_bind (Code.gets_run _ _), Code.access_ok (editNode_run _ _ _)]
  exact Outcome.ok_ne_stuck

/-- Over leaves the insertion returns, wherever the calls move the mapping. -/
theorem btreeSet_returns (contract : HolderContract api) (keyBounded : k < 4294967296)
    (valueBounded : value < 4294967296) {node : Placed 1}
    (valid : contract.Valid held (zeros calls) db)
    (heldNode : Placed.Held held db 1 node) (bounded : Searchable 1 (Placed.tree 1 node))
    (small : Every (· ≤ 510) 1 (Placed.tree 1 node)) (filled : Filled 1 (Placed.tree 1 node))
    (deep : 1 < depth) (enough : setCost 1 ≤ calls) (base : Nat) (moves : Nat → Bool) :
    btreeSet api depth node.block k value ⟨db, base, moves⟩ ≠ .stuck := by
  obtain ⟨depth, rfl⟩ := Nat.exists_eq_add_of_le' (show 2 ≤ depth by omega)
  simp only [setCost] at enough
  obtain ⟨calls, rfl⟩ := Nat.exists_eq_add_of_le' (show 2 ≤ calls by omega)
  obtain ⟨front, separator, child, back, middle, later, entered⟩ :=
    exists_entered contract valid heldNode bounded small filled k
  have childAt := entered.trunk.child.stored.root
  have entries : NodeAt ((middle.write node.block
    (setData (middle.data node.block) front.length child.block)).data child.block) 0
      child.entries := Placed.row_zero child ▸ childAt
  rw [entered.enter]
  unfold btreeSetChild
  rw [Code.access_bind (editNode_run node.block _ middle)]
  have call :=
    btreeSet_leaf api depth childAt.magic k value (Mapped.nextBase base moves) (Mapped.later moves)
  rcases btreeSetLeaf_run entries entered.searchable entered.small keyBounded valueBounded with
    ⟨full, ran⟩ | ⟨_, image, ran, _⟩
  · rw [ran] at call
    rw [Code.bind_ok (Code.attempt_error call), if_neg (by decide), if_pos rfl,
      Code.access_bind (Code.gets_run _ _)]
    by_cases room : selfSize
      ((middle.write node.block (setData (middle.data node.block) front.length child.block)).data
        node.block) < edbBtreeSize
    · have width : child.entries.length = 510 := by
        rw [← Placed.tree_length]
        exact pathFull_length full
      have length : (front ++ [(separator, child)] ++ back).length < 510 := by
        rwa [entered.nodeAt.selfSize, Placed.rows_length] at room
      obtain ⟨child1, after, split, halved⟩ :=
        btreeSplit_halves contract entered.valid entered.trunk entered.nodeAt length width
      rw [if_pos room, Code.bind_ok (btreeSplit_ok split), Code.access_bind (Code.gets_run _ _)]
      generalize Mapped.nextBase (Mapped.nextBase base moves) (Mapped.later moves) = now
      generalize Mapped.later (Mapped.later moves) = onward
      have trunk := halved.trunk
      by_cases low : k ≤ key (after.data node.block) front.length
      · rw [if_pos low, halved.lowData]
        have leftShape : front ++ [(separator, child.lower), (0, child.upper child1)] ++ back =
            front ++ [(separator, child.lower)] ++ ((0, child.upper child1) :: back) := by simp
        rw [leftShape] at trunk
        -- the retry is on a leaf again
        exact btreeSet_leaf_returns trunk.child.stored.root.magic fun final =>
          raiseKeys_returns final
      · rw [if_neg low, halved.highData]
        have rightShape : front ++ [(separator, child.lower), (0, child.upper child1)] ++ back =
            (front ++ [(separator, child.lower)]) ++ [(0, child.upper child1)] ++ back := by simp
        rw [rightShape] at trunk
        exact btreeSet_leaf_returns trunk.child.stored.root.magic fun final =>
          raiseKeys_returns final
    · rw [if_neg room]
      exact Outcome.error_ne_stuck
  · rw [ran] at call
    rw [Code.bind_ok (Code.attempt_ok call), if_pos rfl, Code.access_bind (Code.gets_run _ _),
      Code.access_ok (editNode_run _ _ _)]
    exact Outcome.ok_ne_stuck

/-- A tree that a client holds while the block functions succeed: the keys ascend, the
separators bound the keys below them, and no node is too full or, beside a leaf at the root,
empty. -/
structure TendedTree (contract : HolderContract api) (held : Set Nat) (calls : Nat) (db : Db ρ)
    (node : Placed h) : Prop where
  valid : contract.Valid held (zeros calls) db
  stored : Placed.Held held db h node
  searchable : Searchable h (Placed.tree h node)
  small : Every (· ≤ 510) h (Placed.tree h node)
  filled : Filled h (Placed.tree h node)
  enough : setCost h ≤ calls

/-- On at most two levels `btree_set` does not depend on the mapping. -/
theorem btreeSet_still {contract : HolderContract api}
    (tree : TendedTree contract held calls db node) (keyBounded : k < 4294967296)
    (valueBounded : value < 4294967296) (deep : h < depth) (flat : h ≤ 1) :
    Code.Relocatable (btreeSet api depth node.block k value) db := by
  rw [Code.Follows.relocatable_iff fun _ => btreeSet_follows api depth node.block k value]
  intro base moves
  refine (btreeSet_follows api depth node.block k value).stored_eq ⟨db, base, moves⟩ ?_
  match h with
  | 0 =>
      obtain ⟨depth, rfl⟩ := Nat.exists_eq_succ_of_ne_zero (show depth ≠ 0 by omega)
      rw [btreeSet_leaf api depth tree.stored.stored.root.magic]
      have returns := btreeSetLeaf_returns node.block k value db
      cases ran : btreeSetLeaf node.block k value db with
      | ok _ _ => exact Outcome.ok_ne_stuck
      | error _ _ => exact Outcome.error_ne_stuck
      | stuck => exact absurd ran returns
  | 1 =>
      exact btreeSet_returns contract keyBounded valueBounded tree.valid tree.stored
        tree.searchable tree.small tree.filled deep tree.enough base moves

/-- On three levels or more it does. -/
theorem btreeSet_moved {contract : HolderContract api}
    (tree : TendedTree contract held calls db node) (keyBounded : k < 4294967296)
    (valueBounded : value < 4294967296) (deep : h < depth) (tall : 1 < h) :
    ¬Code.Relocatable (btreeSet api depth node.block k value) db := by
  rw [Code.Follows.relocatable_iff fun _ => btreeSet_follows api depth node.block k value]
  intro same
  obtain ⟨h, rfl⟩ := Nat.exists_eq_add_of_le' (show 2 ≤ h by omega)
  have result := same 0 Mapped.always
  rw [btreeSet_traps contract keyBounded valueBounded tree.valid tree.stored tree.searchable
    tree.small tree.filled deep tree.enough 0] at result
  rcases btreeSet_run contract keyBounded valueBounded tree.valid tree.stored tree.searchable
    tree.small tree.filled deep tree.enough with
    ⟨_, after, error, _⟩ | ⟨_, after, ok, _⟩
  · rw [error] at result
    cases result
  · rw [ok] at result
    cases result

/-- `btree_set` does not depend on the mapping exactly when the tree has at most two
levels. -/
theorem btreeSet_relocatable (contract : HolderContract api) (keyBounded : k < 4294967296)
    (valueBounded : value < 4294967296) (valid : contract.Valid held (zeros calls) db)
    (heldNode : Placed.Held held db h node) (bounded : Searchable h (Placed.tree h node))
    (small : Every (· ≤ 510) h (Placed.tree h node)) (filled : Filled h (Placed.tree h node))
    (deep : h < depth) (enough : setCost h ≤ calls) :
    Code.Relocatable (btreeSet api depth node.block k value) db ↔ h ≤ 1 := by
  have tree : TendedTree contract held calls db node :=
    ⟨valid, heldNode, bounded, small, filled, enough⟩
  constructor
  · intro same
    exact Nat.le_of_not_lt fun tall =>
      btreeSet_moved tree keyBounded valueBounded deep tall same
  · exact btreeSet_still tree keyBounded valueBounded deep

/-- A tree of three levels. -/
def threeLevels : Placed 2 := ⟨1, [(5, (⟨2, [(5, (⟨3, [(5, 50)]⟩ : Placed 0))]⟩ : Placed 1))]⟩

/-- The memory that holds it, with free blocks. -/
def threeLevelsMemory : Db (List Nat) :=
  ⟨Placed.memory (Placed.images 2 threeLevels), List.range' 4 40⟩

/-- A client may insert into it. -/
theorem threeLevels_tended :
    TendedTree mockContract.holder {block | block ∈ [1, 2, 3]} (setCost 2)
      threeLevelsMemory threeLevels where
  valid := mockHolder_valid _ (by decide) (by decide) (by decide)
  stored :=
    have fits : Placed.Fits 2 threeLevels := by decide
    Placed.held_memory fits (by decide)
  searchable := by decide
  small := by decide
  filled := by decide
  enough := by decide

/-- An insertion into it depends on the mapping. -/
theorem btreeSet_relocatable_threeLevels :
    ¬Code.Relocatable (btreeSet mockApi 3 1 4 40) threeLevelsMemory := by
  have tree := threeLevels_tended
  have same := btreeSet_relocatable mockContract.holder (show 4 < 4294967296 by decide)
    (show 40 < 4294967296 by decide) tree.valid tree.stored tree.searchable tree.small tree.filled
    (show 2 < 3 by decide) tree.enough
  exact fun flat => absurd (same.mp flat) (by decide)

end EverDb.Pointer
