import EverDb.Btree.PopEffect

/-!
# The value that btree_pop returns

`CHECK(r)` clears `*value` when `r` still is the code of a child that became too small.
-/

namespace EverDb

open Foundation BPlus

variable {ρ : Type} {api : BlockApi (Db ρ)} {db after : Db ρ} {h k depth : Nat}
  {held writable : Set Nat}
  {answers : List Int} {contract : WritableContract api} {node : Placed h}

/-! ## Trees whose leaves are full -/

/-- A leaf with `EDB_BTREE_SPLIT` keys, one of many. -/
def leafAt (i : Nat) : Placed 0 :=
  ⟨1000 + i, (List.range 127).map fun j => (127 * i + j, 127 * i + j + 1)⟩

/-- The leaf with its separator. -/
def leafEntry (i : Nat) : Nat × Placed 0 := (127 * i + 126, leafAt i)

/-- A node above `count` such leaves. -/
def branch (block start count : Nat) : Placed 1 :=
  ⟨block, (List.range count).map fun i => leafEntry (start + i)⟩

/-- The entries of a leaf are 127 keys in a row. -/
theorem mem_leafAt {i : Nat} {entry : Nat × Nat} :
    entry ∈ (leafAt i).entries ↔ ∃ j < 127, entry = (127 * i + j, 127 * i + j + 1) := by
  simp only [leafAt, List.mem_map, List.mem_range, eq_comm]

/-- Its keys ascend. -/
theorem leafAt_ordered (i : Nat) : Ordered 0 (Placed.tree 0 (leafAt i)) := by
  change (leafAt i).entries.Pairwise _
  rw [leafAt, List.pairwise_map]
  exact List.pairwise_lt_range.imp fun less => Nat.add_lt_add_left less _

/-- It has 127 entries. -/
theorem leafAt_length (i : Nat) : (leafAt i).entries.length = 127 := by
  rw [leafAt, List.length_map, List.length_range]

/-- Its keys are those of its range. -/
theorem leafAt_keys {i key : Nat} (member : key ∈ keys 0 (Placed.tree 0 (leafAt i))) :
    127 * i ≤ key ∧ key ≤ 127 * i + 126 := by
  obtain ⟨entry, inside, rfl⟩ := List.mem_map.mp member
  obtain ⟨j, less, rfl⟩ := mem_leafAt.mp inside
  exact ⟨Nat.le_add_right _ _, Nat.add_le_add_left (Nat.le_of_lt_succ less) _⟩

/-- The entries of a branch are leaves in a row. -/
theorem mem_branch {block start count : Nat} {entry : Nat × Placed 0} :
    entry ∈ (branch block start count).entries ↔ ∃ i < count, entry = leafEntry (start + i) := by
  simp only [branch, List.mem_map, List.mem_range, eq_comm]

/-- A branch has as many entries as leaves. -/
theorem branch_length (block start count : Nat) :
    (branch block start count).entries.length = count := by
  rw [branch, List.length_map, List.length_range]

section Branches

variable (block start count : Nat)

/-- The keys below a branch ascend. -/
theorem branch_ordered : Ordered 1 (Placed.tree 1 (branch block start count)) := by
  constructor
  · change ((branch block start count).entries.map fun entry =>
      (entry.1, Placed.tree 0 entry.2)).Pairwise _
    rw [branch, List.map_map, List.pairwise_map]
    refine List.pairwise_lt_range.imp fun {low high} less => ⟨?_, fun key member => ?_⟩
    · change 127 * (start + low) + 126 < 127 * (start + high) + 126
      omega
    · have above := (leafAt_keys member).1
      change 127 * (start + low) + 126 < key
      omega
  · intro entry member
    obtain ⟨entry, inside, rfl⟩ := List.mem_map.mp member
    obtain ⟨i, _, rfl⟩ := mem_branch.mp inside
    exact ⟨fun key under => (leafAt_keys under).2, leafAt_ordered _⟩

/-- All its leaves have the same size. -/
theorem branch_under {size : Nat → Prop} (leaves : size 127) :
    Under size 1 (Placed.tree 1 (branch block start count)) := by
  intro entry member
  obtain ⟨entry, inside, rfl⟩ := List.mem_map.mp member
  obtain ⟨i, _, rfl⟩ := mem_branch.mp inside
  have length : (Placed.tree 0 (leafAt (start + i))).length = 127 := leafAt_length _
  change size (Placed.tree 0 (leafAt (start + i))).length
  rw [length]
  exact leaves

/-- Its tree has as many children as leaves. -/
theorem branch_tree_length : (Placed.tree 1 (branch block start count)).length = count := by
  rw [Placed.tree_length, branch_length]

/-- A branch of at most 510 leaves fits into blocks. -/
theorem branch_fits (few : count ≤ 510) (low : start + count ≤ 1000) :
    Placed.Fits 1 (branch block start count) := by
  refine ⟨fun entry member => ?_, by rwa [branch_length], fun entry member => ?_⟩
  · obtain ⟨child, inside, rfl⟩ := List.mem_map.mp member
    obtain ⟨i, less, rfl⟩ := mem_branch.mp inside
    change 127 * (start + i) + 126 < 4294967296 ∧ 1000 + (start + i) < 4294967296
    omega
  · obtain ⟨i, less, rfl⟩ := mem_branch.mp member
    refine ⟨fun word inside => ?_, ?_⟩
    · have row : (leafEntry (start + i)).2.row = (leafAt (start + i)).entries := Placed.row_zero _
      rw [row] at inside
      obtain ⟨j, small, rfl⟩ := mem_leafAt.mp inside
      change 127 * (start + i) + j < 4294967296 ∧ 127 * (start + i) + j + 1 < 4294967296
      omega
    · change (leafAt (start + i)).entries.length ≤ 510
      rw [leafAt_length]
      decide

/-- Its leaves lie at the numbers from 1000 on. -/
theorem branch_blocks : Placed.blocks 1 (branch block start count) =
    block :: (List.range count).map fun i => 1000 + (start + i) := by
  have single : (List.range count).map (fun i => 1000 + (start + i)) =
      (List.range count).flatMap fun i => [1000 + (start + i)] := List.map_eq_flatMap
  rw [Placed.blocks_succ, Placed.kids, branch, List.flatMap_map, single]
  rfl

/-- The first two leaves. -/
theorem branch_entries : (branch block start (count + 2)).entries =
    leafEntry start :: leafEntry (start + 1) :: (List.range count).map fun i =>
      leafEntry (start + (i + 2)) := by
  rw [branch, List.range_succ_eq_map, List.range_succ_eq_map]
  simp [Function.comp_def, Nat.add_assoc]

/-- The first key enters the first leaf, which is joined with the second one. -/
theorem branch_enters : Enters (127 * start) (Placed.tree 1 (branch block start (count + 2))) []
    (127 * start + 126, Placed.tree 0 (leafAt start))
    ((127 * (start + 1) + 126, Placed.tree 0 (leafAt (start + 1))) ::
      Placed.trees 0 ((List.range count).map fun i => leafEntry (start + (i + 2)))) := by
  refine ⟨?_, by simp, Nat.le_add_right _ _⟩
  rw [Placed.tree_succ, branch_entries]
  rfl

/-- A leaf of 127 entries is short after any removal. -/
theorem leafAt_short (i k : Nat) : short 127 0 (Placed.tree 0 (leafAt i)) k = true := by
  have length : (Placed.tree 0 (leafAt i)).length = 127 := leafAt_length i
  rw [short, length]
  rfl

/-- Removing the first key joins the first two leaves. -/
theorem branch_repairs :
    repairs 127 1 (Placed.tree 1 (branch block start (count + 2))) (127 * start) =
    [.merge 253 (count + 1)] ∧
    short 127 1 (Placed.tree 1 (branch block start (count + 2))) (127 * start) = true := by
  have length : ∀ i, (Placed.tree 0 (leafAt i)).length = 127 := leafAt_length
  have repair : repairOf 127 ((Placed.tree 0 (leafAt start)).length - 1)
      (Placed.tree 1 (branch block start (count + 2))).length
      (beside [] ((127 * (start + 1) + 126, Placed.tree 0 (leafAt (start + 1))) ::
        Placed.trees 0 ((List.range count).map fun i => leafEntry (start + (i + 2))))) =
          .merge 253 (count + 1) := by
    rw [beside_next, repairOf, length, length, branch_tree_length]
    rfl
  rw [repairs_succ (branch_enters block start count),
    short_succ (branch_enters block start count), leafAt_short, repair]
  exact ⟨rfl, rfl⟩

end Branches

/-- A root with full leaves, in a memory with free blocks. -/
def branchMemory (count : Nat) : Db (List Nat) :=
  ⟨Placed.memory (Placed.images 1 (branch 1 0 count)), [2, 3, 4, 5]⟩

/-- No two nodes of a branch share a block. -/
theorem branch_distinct {block start count : Nat} (low : block < 1000) :
    (Placed.blocks 1 (branch block start count)).Nodup := by
  rw [branch_blocks, List.nodup_cons]
  refine ⟨fun member => ?_, List.nodup_range.map fun i j same => by omega⟩
  obtain ⟨i, _, same⟩ := List.mem_map.mp member
  omega

section Roots

variable {count : Nat} (few : count ≤ 510)

include few

/-- The memory holds the branch. -/
theorem branch_held :
    Placed.Held {block | block ∈ Placed.blocks 1 (branch 1 0 count)} (branchMemory count) 1
    (branch 1 0 count) :=
  Placed.held_memory (branch_fits 1 0 count few (by omega)) (branch_distinct (by decide))

/-- The mock allocator has given out its blocks. -/
theorem branch_valid :
    mockContract.writableHolder.Valid {block | block ∈ Placed.blocks 1 (branch 1 0 count)}
    {block | block ∈ Placed.blocks 1 (branch 1 0 count)} (zeros 4) (branchMemory count) := by
  have apart : ∀ block ∈ Placed.blocks 1 (branch 1 0 count), block = 1 ∨ 1000 ≤ block ∧
      block < 4294967296 := by
    intro block member
    rw [branch_blocks, List.mem_cons] at member
    refine member.imp id fun inside => ?_
    obtain ⟨i, less, rfl⟩ := List.mem_map.mp inside
    rw [List.mem_range] at less
    omega
  refine mockWritableHolder_valid _ ?_ (fun block member => ?_) (by decide)
  · refine List.nodup_append.mpr ⟨branch_distinct (by decide), by decide,
      fun block inside free member same => ?_⟩
    have low : free < 1000 ∧ free ≠ 1 := by
      simp only [List.mem_cons, List.not_mem_nil, or_false] at member
      omega
    have := apart block inside
    omega
  · rcases List.mem_append.mp member with inside | free
    · have := apart block inside
      omega
    · simp only [List.mem_cons, List.not_mem_nil, or_false] at free
      omega

/-- No node of it has more than 510 entries. -/
theorem branch_small : Every (· ≤ 510) 1 (Placed.tree 1 (branch 1 0 count)) := by
  have length := branch_tree_length 1 0 count
  exact every_iff.mpr ⟨by rw [length]; exact few, branch_under 1 0 count (by decide)⟩

end Roots

/-- The key 0 is stored with the value 1. -/
theorem branch_stored (count : Nat) :
    (0, 1) ∈ pairs 1 (Placed.tree 1 (branch 1 0 (count + 2))) := by
  refine mem_pairs_succ.mpr ⟨_, (branch_enters 1 0 count).cut.mem_child, ?_⟩
  exact mem_leafAt.mpr ⟨0, by decide, rfl⟩

/-! ## The value -/

/-- A successful removal returns the value that was stored. -/
def ReturnsValue (value : Nat) (outcome : Outcome (Db ρ) (Int × Nat)) : Prop :=
  ∀ code found after, outcome = .ok (code, found) after →
  code = 0 ∨ code = edbErrorBtreeEmpty → found = value

/-- `*value` is cleared by a joint that leaves the parent large enough. -/
theorem any_clears {repairs : List Repair} : repairs.any Repair.clears = true ↔
    ∃ merged left, Repair.merge merged left ∈ repairs ∧ edbBtreeSplit ≤ left := by
  rw [List.any_eq_true]
  constructor
  · rintro ⟨repair, member, clears⟩
    cases repair with
    | alone => cases clears
    | steal => cases clears
    | merge merged left => exact ⟨merged, left, member, of_decide_eq_true clears⟩
  · rintro ⟨merged, left, member, enough⟩
    exact ⟨_, member, decide_eq_true enough⟩

/-- A successful `btree_pop` returns the stored value exactly when that value is zero, or a
repair is not made, or no joint leaves its parent with `EDB_BTREE_SPLIT` entries. -/
theorem btreePop_value_iff (contract : WritableContract api)
    (valid : contract.Valid held writable answers db)
    (proper : ∀ code ∈ answers, code ≠ edbErrorBtreeEmpty) (enough : popCost h ≤ answers.length)
    (heldNode : Placed.Held held db h node) (bounded : Searchable h (Placed.tree h node))
    (small : Every (· ≤ 510) h (Placed.tree h node)) {value : Nat}
    (stored : (k, value) ∈ pairs h (Placed.tree h node)) (deep : h < depth) :
    ReturnsValue value (btreePop api depth node.block k db) ↔
      value = 0 ∨ ¬((∀ code ∈ answers.take h, code = 0) ∧
        Completes edbBtreeSize (repairs edbBtreeSplit h (Placed.tree h node) k) (answers.drop h)) ∨
      ∀ merged left, Repair.merge merged left ∈ repairs edbBtreeSplit h (Placed.tree h node) k →
        left < edbBtreeSplit := by
  have present : k ∈ leafKeys h (Placed.tree h node) := mem_leafKeys.mpr ⟨value, stored⟩
  have failing :
      ∀ {code after}, btreePop api depth node.block k db = .ok (code, 0) after → Failed code →
      ReturnsValue value (btreePop api depth node.block k db) := by
    intro code after ran failed code' found after' same success
    rw [ran] at same
    injection same with pair _
    injection pair with codeIs _
    subst codeIs
    exact absurd success (not_or.mpr failed)
  rcases btreePop_run valid proper enough heldNode bounded small
    (noStray_of_stored bounded present) deep with
    ⟨early, code, after, ran, failed, _⟩ | ⟨both, settled⟩
  · exact iff_of_true (failing ran failed) (.inr (.inl fun done => early ⟨present, done.1⟩))
  · cases outcomeOf : settleAll 510 (repairs 127 h (Placed.tree h node) k) (answers.drop h) with
    | broken =>
        rw [outcomeOf] at settled
        obtain ⟨code, after, ran, failed, _⟩ := settled
        refine iff_of_true (failing ran failed) (.inr (.inl fun done => ?_))
        obtain ⟨rest, finished⟩ := settleAll_completes.mpr done.2
        rw [outcomeOf] at finished
        cases finished
    | stuck =>
        rw [outcomeOf] at settled
        refine iff_of_true ?_ (.inr (.inl fun done => ?_))
        · intro code found after ran
          rw [settled] at ran
          cases ran
        · obtain ⟨rest, finished⟩ := settleAll_completes.mpr done.2
          rw [outcomeOf] at finished
          cases finished
    | done rest =>
        rw [outcomeOf] at settled
        obtain ⟨other, after, storedOther, ran, _⟩ := settled
        have same : other = value := by
          have one := (get_eq_some bounded).mpr storedOther
          rw [(get_eq_some bounded).mpr stored] at one
          injection one with equal
          exact equal.symm
        subst same
        have success : ∀ flag : Bool, (if flag = true then edbErrorBtreeEmpty else 0) = 0 ∨
            (if flag = true then edbErrorBtreeEmpty else 0) = edbErrorBtreeEmpty := by
          intro flag
          cases flag <;> decide
        have complete : Completes edbBtreeSize (repairs edbBtreeSplit h (Placed.tree h node) k)
            (answers.drop h) :=
          settleAll_completes.mp ⟨rest, outcomeOf⟩
        constructor
        · intro returns
          have found := returns _ _ _ ran (success _)
          by_cases cleared : (repairs 127 h (Placed.tree h node) k).any Repair.clears = true
          · rw [if_pos cleared] at found
            exact .inl found.symm
          · refine .inr (.inr fun merged left member => Nat.lt_of_not_le fun wide => cleared ?_)
            exact any_clears.mpr ⟨merged, left, member, wide⟩
        · intro condition code found after' ran' _
          rw [ran] at ran'
          injection ran' with pair _
          injection pair with _ foundIs
          rw [← foundIs]
          rcases condition with zero | incomplete | few
          · rw [zero, ite_self]
          · exact absurd ⟨both.2, complete⟩ incomplete
          · refine if_neg fun cleared => ?_
            obtain ⟨merged, left, member, wide⟩ := any_clears.mp cleared
            exact absurd (few merged left member) (Nat.not_lt_of_le wide)

/-- The first of three full leaves gives up its first key and is joined with the second one;
the root keeps two children, and the stored value is returned. -/
theorem btreePop_value_iff_three :
    (∃ after, btreePop mockApi 2 1 0 (branchMemory 3) = .ok (edbErrorBtreeEmpty, 1) after) ∧
      ReturnsValue 1 (btreePop mockApi 2 1 0 (branchMemory 3)) := by
  have bounded := (branch_ordered 1 0 3).searchable
  have joined : repairs edbBtreeSplit 1 (Placed.tree 1 (branch 1 0 3)) 0 = [.merge 253 2] :=
    (branch_repairs 1 0 1).1
  have removed : (btreePop mockApi 2 1 0 (branchMemory 3)).passes
      (fun popped _ => popped == (edbErrorBtreeEmpty, 1)) = true := by decide +kernel
  obtain ⟨_, after, ran, same⟩ := Outcome.of_passes removed
  rw [eq_of_beq same] at ran
  refine ⟨⟨after, ran⟩, ?_⟩
  refine (btreePop_value_iff mockContract.writableHolder (branch_valid (by decide))
    zeros_proper (by decide)
    (branch_held (by decide)) bounded (branch_small (by decide)) (branch_stored 1) (by decide)).mpr
    (.inr (.inr fun merged left member => ?_))
  rw [joined, List.mem_singleton] at member
  injection member with _ few
  rw [few]
  decide

/-- A root with 128 leaves in a memory with free blocks. -/
def broadMemory : Db (List Nat) := branchMemory 128

/-- The first key is removed, its leaf is joined with the next one, and 0 is returned in place
of its value 1. -/
theorem btreePop_loses_value : ¬ReturnsValue 1 (btreePop mockApi 2 1 0 broadMemory) := by
  intro returns
  have bounded := (branch_ordered 1 0 128).searchable
  have joined : repairs edbBtreeSplit 1 (Placed.tree 1 (branch 1 0 128)) 0 = [.merge 253 127] :=
    (branch_repairs 1 0 126).1
  have condition :=
    (btreePop_value_iff mockContract.writableHolder (branch_valid (by decide)) zeros_proper
    (by decide) (branch_held (by decide)) bounded (branch_small (by decide)) (branch_stored 126)
      (by decide)).mp returns
  rw [joined] at condition
  rcases condition with zero | failing | few
  · cases zero
  · refine failing ⟨fun code member => (List.mem_replicate.mp (List.mem_of_mem_take member)).2, ?_⟩
    exact ⟨rfl, rfl, rfl, by decide, by decide, trivial⟩
  · exact absurd (few 253 127 (by simp)) (by decide)

end EverDb
