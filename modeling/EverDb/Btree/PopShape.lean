import EverDb.Btree.PopValue

/-!
# The shape of a tree after btree_pop

A removal keeps the order and the sizes of a tree as long as the nodes it joins fit into one.
-/

namespace EverDb

open Foundation BPlus

variable {ρ : Type} {api : BlockApi (Db ρ)} {db after : Db ρ} {h k depth : Nat}
  {held writable : Set Nat}
  {answers : List Int} {contract : WritableContract api} {node : Placed h}

/-- A tree whose nodes fit into blocks and below the root have `EDB_BTREE_SPLIT` entries, an
only child of the root excepted. -/
structure Dense (h : Nat) (tree : BPlus Nat Nat h) : Prop where
  ordered : Ordered h tree
  sized : Every (· ≤ edbBtreeSize) h tree
  spread : Spread edbBtreeSplit h tree

/-- A successful removal leaves such a tree, in blocks that are all still held, without the
key and with every other pair. -/
def RemovesKey (contract : WritableContract api) (db : Db ρ) (depth : Nat)
    (node : Placed h) (k : Nat) (outcome : Outcome (Db ρ) (Int × Nat)) : Prop :=
  outcome ≠ .stuck ∧ ∀ code value after, outcome = .ok (code, value) after →
    code = 0 ∨ code = edbErrorBtreeEmpty →
      ∃ later writableLater rest next, contract.Valid later writableLater rest after ∧
        Node.block next = Node.block node ∧ Placed.Held later after h next ∧
        Dense h (Placed.tree h next) ∧
        btreeGet after depth node.block k = some (edbErrorBtreeInvalidKey, 0) ∧
        ∀ key ≠ k, btreeGet after depth node.block key = btreeGet db depth node.block key

/-- A removal that completes meets no only child, and its joints fit into a node. -/
theorem Completes.joined {cap : Nat} {repairs : List Repair}
    (completes : Completes cap repairs answers) :
    Repair.alone ∉ repairs ∧ ∀ merged left, Repair.merge merged left ∈ repairs → merged ≤ cap := by
  induction repairs generalizing answers with
  | nil => simp
  | cons repair repairs ih =>
      match repair, answers, completes with
      | .steal, _ :: _ :: _, ⟨_, _, later⟩ =>
          obtain ⟨accompanied, fits⟩ := ih later
          refine ⟨by simp [accompanied], fun merged left member => fits merged left ?_⟩
          simpa using member
      | .merge _ _, _ :: _ :: _ :: _, ⟨_, _, _, _, here, later⟩ =>
          obtain ⟨accompanied, fits⟩ := ih later
          refine ⟨by simp [accompanied], fun merged left member => ?_⟩
          rcases List.mem_cons.mp member with same | below
          · injection same with equal
            exact equal ▸ here
          · exact fits merged left below

/-- Removal keeps a dense tree dense. -/
theorem Dense.remove {tree : BPlus Nat Nat h} (dense : Dense h tree) (stored : k ∈ leafKeys h tree)
    (completes : Completes edbBtreeSize (repairs edbBtreeSplit h tree k) answers) :
    Dense h (BPlus.remove edbBtreeSplit h tree k) := by
  obtain ⟨accompanied, fits⟩ := completes.joined
  have bounded := dense.ordered.searchable
  obtain ⟨rootSized, underSized⟩ := every_iff.mp dense.sized
  refine ⟨ordered_remove (by decide) dense.ordered, every_iff.mpr ⟨?_, ?_⟩,
    spread_remove bounded stored dense.spread accompanied⟩
  · rw [remove_length _ bounded stored]
    split
    · exact Nat.le_trans (Nat.sub_le _ 1) rootSized
    · exact rootSized
  · exact under_remove bounded stored underSized (fun _ small _ =>
      Nat.le_trans (Nat.sub_le _ 1) small) fits
      accompanied

/-- A successful `btree_pop` removes the key and leaves a tree of the same kind exactly when
no joint that it reaches overflows a node. -/
theorem btreePop_removes_iff (contract : WritableContract api)
    (valid : contract.Valid held writable answers db)
    (proper : ∀ code ∈ answers, code ≠ edbErrorBtreeEmpty) (enough : popCost h ≤ answers.length)
    (heldNode : Placed.Held held db h node) (dense : Dense h (Placed.tree h node))
    (stored : k ∈ leafKeys h (Placed.tree h node)) (deep : h < depth) :
    RemovesKey contract db depth node k (btreePop api depth node.block k db) ↔
      ((∀ code ∈ answers.take h, code = 0) →
        JointsFit edbBtreeSize (repairs edbBtreeSplit h (Placed.tree h node) k)
          (answers.drop h)) := by
  have bounded := dense.ordered.searchable
  have positive :
      ∀ merged left, Repair.merge merged left ∈ repairs edbBtreeSplit h (Placed.tree h node) k →
      merged ≠ 0 := by
    intro merged left joined zero
    have atLeast := dense.spread.le_merged joined
    rw [zero] at atLeast
    exact absurd atLeast (by decide)
  have failing :
      ∀ {code after}, btreePop api depth node.block k db = .ok (code, 0) after → Failed code →
      RemovesKey contract db depth node k (btreePop api depth node.block k db) := by
    intro code after ran failed
    rw [ran]
    refine ⟨nofun, fun code' value after' same success => ?_⟩
    injection same with pair _
    injection pair with codeIs _
    subst codeIs
    exact absurd success (not_or.mpr failed)
  rcases btreePop_run valid proper enough heldNode bounded dense.sized
    (noStray_of_stored bounded stored) deep with
    ⟨early, code, after, ran, failed, _⟩ | ⟨both, settled⟩
  · exact iff_of_true (failing ran failed) fun granted => absurd ⟨stored, granted⟩ early
  · have stuckIff : settleAll edbBtreeSize (repairs 127 h (Placed.tree h node) k) (answers.drop h) =
        .stuck ↔ _ :=
      settleAll_stuck positive
    cases outcomeOf : settleAll 510 (repairs 127 h (Placed.tree h node) k) (answers.drop h) with
    | broken =>
        rw [outcomeOf] at settled
        obtain ⟨code, after, ran, failed, _⟩ := settled
        refine iff_of_true (failing ran failed) fun _ => Classical.by_contradiction fun wide => ?_
        rw [stuckIff.mpr wide] at outcomeOf
        cases outcomeOf
    | stuck =>
        rw [outcomeOf] at settled
        exact iff_of_false (fun removes => removes.1 settled) fun fits =>
          stuckIff.mp outcomeOf (fits both.2)
    | done rest =>
        rw [outcomeOf] at settled
        obtain ⟨other, after, storedOther, ran, later, writableLater, next, validAfter, block,
            tree, heldNext, _⟩ :=
          settled
        have completes := settleAll_completes.mp ⟨rest, outcomeOf⟩
        have denseNext : Dense h (Placed.tree h next) := tree ▸ dense.remove stored completes
        have boundedNext := denseNext.ordered.searchable
        have fits : JointsFit edbBtreeSize (repairs edbBtreeSplit h (Placed.tree h node) k)
            (answers.drop h) := by
          refine Classical.by_contradiction fun wide => ?_
          rw [stuckIff.mpr wide] at outcomeOf
          cases outcomeOf
        refine iff_of_true ?_ fun _ => fits
        rw [ran]
        refine ⟨nofun, fun code value after' same _ => ?_⟩
        injection same with _ state
        subst state
        refine ⟨later, writableLater, rest, next, validAfter, block, heldNext, denseNext, ?_,
          fun key other => ?_⟩
        · have gone : k ∉ leafKeys h (Placed.tree h next) := by
            rw [tree]
            exact absent_remove bounded
          rw [← block, btreeGet_eq heldNext.stored boundedNext deep,
            (get_eq_none boundedNext).mpr gone]
          rfl
        · rw [← block, btreeGet_eq heldNext.stored boundedNext deep, block,
            btreeGet_eq heldNode.stored bounded deep]
          have same :
              BPlus.get h (Placed.tree h next) key = BPlus.get h (Placed.tree h node) key := by
            refine Option.ext fun found => ?_
            rw [get_eq_some boundedNext, get_eq_some bounded, tree, pairs_remove bounded,
              List.mem_filter]
            simp [other]
          rw [same]

/-- A root with full leaves is dense. -/
theorem branch_dense {count : Nat} (few : count ≤ 510) :
    Dense 1 (Placed.tree 1 (branch 1 0 count)) := by
  have under : Under (edbBtreeSplit ≤ ·) 1 (Placed.tree 1 (branch 1 0 count)) :=
    branch_under 1 0 count (by decide)
  exact ⟨branch_ordered 1 0 count, branch_small few, under.spread⟩

/-- The first key of three full leaves is removed by joining two of them. -/
theorem btreePop_removes_iff_three :
    (∃ after, btreePop mockApi 2 1 0 (branchMemory 3) = .ok (edbErrorBtreeEmpty, 1) after) ∧
      RemovesKey mockContract.writableHolder (branchMemory 3) 2 (branch 1 0 3) 0
        (btreePop mockApi 2 1 0 (branchMemory 3)) := by
  have joined : repairs edbBtreeSplit 1 (Placed.tree 1 (branch 1 0 3)) 0 = [.merge 253 2] :=
    (branch_repairs 1 0 1).1
  have removed : (btreePop mockApi 2 1 0 (branchMemory 3)).passes
      (fun popped _ => popped == (edbErrorBtreeEmpty, 1)) = true := by decide +kernel
  obtain ⟨_, after, ran, same⟩ := Outcome.of_passes removed
  rw [eq_of_beq same] at ran
  refine ⟨⟨after, ran⟩, ?_⟩
  refine (btreePop_removes_iff mockContract.writableHolder (branch_valid (by decide))
    zeros_proper (by decide)
    (branch_held (by decide)) (branch_dense (by decide)) (mem_leafKeys.mpr ⟨1, branch_stored 1⟩)
      (by decide)).mpr
    fun _ => ?_
  rw [joined]
  exact fun _ _ => ⟨by decide, fun _ => trivial⟩

/-- A node of 385 leaves beside one of 127, below a root. -/
def tall : Placed 2 := ⟨1, [(127 * 384 + 126, branch 2 0 385), (127 * 511 + 126, branch 3 385 127)]⟩

/-- The memory that holds it, with free blocks. -/
def tallMemory : Db (List Nat) := ⟨Placed.memory (Placed.images 2 tall), [4, 5, 6, 7, 8, 9, 10, 11]⟩

/-- The blocks of the tree are those of the root and of its two branches. -/
theorem tall_blocks : Placed.blocks 2 tall =
    1 :: (Placed.blocks 1 (branch 2 0 385) ++ Placed.blocks 1 (branch 3 385 127)) := by
  rw [Placed.blocks_succ, Placed.kids, tall]
  simp

/-- Its nodes fit into blocks. -/
theorem tall_fits : Placed.Fits 2 tall := by
  refine ⟨by decide, by decide, fun entry member => ?_⟩
  simp only [tall, List.mem_cons, List.not_mem_nil, or_false] at member
  rcases member with rfl | rfl
  · exact branch_fits 2 0 385 (by decide) (by decide)
  · exact branch_fits 3 385 127 (by decide) (by decide)

/-- The leaves of a branch lie at numbers of their own. -/
theorem mem_branch_blocks {block start count number : Nat}
    (member : number ∈ Placed.blocks 1 (branch block start count)) :
    number = block ∨ 1000 + start ≤ number ∧ number < 1000 + start + count := by
  rw [branch_blocks, List.mem_cons] at member
  refine member.imp id fun inside => ?_
  obtain ⟨i, less, rfl⟩ := List.mem_map.mp inside
  rw [List.mem_range] at less
  omega

/-- No two of its nodes share a block. -/
theorem tall_distinct : (Placed.blocks 2 tall).Nodup := by
  rw [tall_blocks, List.nodup_cons, List.nodup_append]
  refine ⟨fun member => ?_, branch_distinct (by decide), branch_distinct (by decide),
    fun left inLeft right inRight => ?_⟩
  · rcases List.mem_append.mp member with inLeft | inRight
    · have := mem_branch_blocks inLeft
      omega
    · have := mem_branch_blocks inRight
      omega
  · have := mem_branch_blocks inLeft
    have := mem_branch_blocks inRight
    omega

/-- The memory holds the tree. -/
theorem tall_held : Placed.Held {block | block ∈ Placed.blocks 2 tall} tallMemory 2 tall :=
  Placed.held_memory tall_fits tall_distinct

/-- The mock allocator has given out its blocks. -/
theorem tall_valid : mockContract.writableHolder.Valid {block | block ∈ Placed.blocks 2 tall}
    {block | block ∈ Placed.blocks 2 tall} (zeros 8) tallMemory := by
  have apart : ∀ block ∈ Placed.blocks 2 tall, (0 < block ∧ block ≤ 3) ∨
      1000 ≤ block ∧ block < 2000 := by
    intro block member
    rw [tall_blocks, List.mem_cons, List.mem_append] at member
    rcases member with rfl | inLeft | inRight
    · omega
    · have := mem_branch_blocks inLeft
      omega
    · have := mem_branch_blocks inRight
      omega
  refine mockWritableHolder_valid _ ?_ (fun block member => ?_) (by decide)
  · refine List.nodup_append.mpr ⟨tall_distinct, by decide, fun block inside free member same => ?_⟩
    have low : 3 < free ∧ free < 1000 := by
      simp only [List.mem_cons, List.not_mem_nil, or_false] at member
      omega
    have := apart block inside
    omega
  · rcases List.mem_append.mp member with inside | free
    · have := apart block inside
      omega
    · simp only [List.mem_cons, List.not_mem_nil, or_false] at free
      omega

/-- The keys below a branch are those of its range of leaves. -/
theorem branch_keys {block start count key : Nat}
    (member : key ∈ keys 1 (Placed.tree 1 (branch block start count))) :
    127 * start ≤ key ∧ key < 127 * (start + count) := by
  obtain ⟨entry, inside, under⟩ := mem_keys_succ.mp member
  obtain ⟨child, inBranch, rfl⟩ := List.mem_map.mp inside
  obtain ⟨i, less, rfl⟩ := mem_branch.mp inBranch
  rcases under with same | below
  · have equal : 127 * (start + i) + 126 = key := same.symm
    omega
  · have between := leafAt_keys below
    omega

/-- Every node below the root has at least 127 entries and the keys ascend. -/
theorem tall_dense : Dense 2 (Placed.tree 2 tall) := by
  have shape : Placed.tree 2 tall = [(127 * 384 + 126, Placed.tree 1 (branch 2 0 385)),
      (127 * 511 + 126, Placed.tree 1 (branch 3 385 127))] := rfl
  have children : ∀ {claim : Nat × BPlus Nat Nat 1 → Prop}, claim (127 * 384 + 126,
      Placed.tree 1 (branch 2 0 385)) →
      claim (127 * 511 + 126, Placed.tree 1 (branch 3 385 127)) →
      ∀ entry ∈ Placed.tree 2 tall, claim entry := by
    intro claim first second entry member
    rw [shape] at member
    rcases List.mem_cons.mp member with rfl | rest
    · exact first
    · rw [List.mem_singleton.mp rest]
      exact second
  refine ⟨⟨?_, children ⟨fun key under => ?_, branch_ordered 2 0 385⟩ ⟨fun key under => ?_,
    branch_ordered 3 385 127⟩⟩,
    ⟨by decide, children ?_ ?_⟩, children ⟨fun _ => ?_, branch_under 2 0 385 (by decide)⟩
      ⟨fun _ => ?_, branch_under 3 385 127 (by decide)⟩⟩
  · rw [shape, List.pairwise_pair]
    refine ⟨by decide, fun key under => ?_⟩
    have := branch_keys under
    omega
  · have := branch_keys under
    omega
  · have := branch_keys under
    omega
  · have length := branch_tree_length 2 0 385
    exact every_iff.mpr ⟨by rw [length]; decide, branch_under 2 0 385 (by decide)⟩
  · have length := branch_tree_length 3 385 127
    exact every_iff.mpr ⟨by rw [length]; decide, branch_under 3 385 127 (by decide)⟩
  · have length := branch_tree_length 2 0 385
    rw [length]
    decide
  · have length := branch_tree_length 3 385 127
    rw [length]

/-- The search for key 0 enters the first child. -/
theorem tall_enters :
    Enters 0 (Placed.tree 2 tall) [] (127 * 384 + 126, Placed.tree 1 (branch 2 0 385))
    [(127 * 511 + 126, Placed.tree 1 (branch 3 385 127))] := ⟨rfl, by simp, Nat.zero_le _⟩

/-- Key 0 is stored. -/
theorem tall_stored : 0 ∈ leafKeys 2 (Placed.tree 2 tall) := by
  refine mem_leafKeys.mpr ⟨1, mem_pairs_succ.mpr ⟨_, tall_enters.cut.mem_child, ?_⟩⟩
  refine mem_pairs_succ.mpr ⟨_, (branch_enters 2 0 383).cut.mem_child, ?_⟩
  exact mem_leafAt.mpr ⟨0, by decide, rfl⟩

/-- Two leaves are joined, and the node of 384 leaves that is left is joined with the one of 127. -/
theorem tall_repairs :
    repairs edbBtreeSplit 2 (Placed.tree 2 tall) 0 = [.merge 253 384, .merge 511 1] := by
  obtain ⟨lower, few⟩ := branch_repairs 2 0 383
  have repair :
      repairOf 127 ((Placed.tree 1 (branch 2 0 385)).length - 1) (Placed.tree 2 tall).length
      (beside [] [(127 * 511 + 126, Placed.tree 1 (branch 3 385 127))]) = .merge 511 1 := by
    have length : (Placed.tree 1 (branch 3 385 127)).length = 127 := branch_tree_length _ _ _
    have width : (Placed.tree 1 (branch 2 0 385)).length = 385 := branch_tree_length _ _ _
    rw [beside_next, repairOf, length, width]
    rfl
  rw [repairs_succ tall_enters, lower, few, repair]
  rfl

/-- The joint of 384 and 127 children does not fit into a node. -/
theorem btreePop_overflows : ¬RemovesKey mockContract.writableHolder tallMemory 3 tall 0
    (btreePop mockApi 3 1 0 tallMemory) := by
  intro removes
  have enough : popCost 2 ≤ (zeros 8).length := by decide
  have deep : 2 < 3 := by decide
  have granted : ∀ code ∈ (zeros 8).take 2, code = 0 := by decide
  have condition :=
    btreePop_removes_iff mockContract.writableHolder tall_valid zeros_proper enough tall_held
    tall_dense tall_stored deep
  rw [tall_repairs] at condition
  have fits := condition.mp removes granted
  exact absurd ((fits rfl rfl).2 rfl rfl rfl).1 (by decide)

end EverDb
