import EverDb.Btree.PopRun
import EverDb.Btree.Update

/-!
# The effect of btree_pop

What a removal does to the map that a tree stands for when it fails.
-/

namespace EverDb

open Foundation BPlus

/-- Every call of the repairs succeeds, up to the first joint that leaves the arrays. -/
def Unfailing (cap : Nat) : List Repair → List Int → Prop
  | [], _ => True
  | .steal :: repairs, first :: second :: answers =>
      first = 0 ∧ second = 0 ∧ Unfailing cap repairs answers
  | .merge merged _ :: repairs, first :: second :: third :: answers =>
      first = 0 ∧ second = 0 ∧
        (merged ≤ cap → third = 0 ∧ (merged ≠ 0 → Unfailing cap repairs answers))
  | _, _ => False

/-- Every repair is made. -/
def Completes (cap : Nat) : List Repair → List Int → Prop
  | [], _ => True
  | .steal :: repairs, first :: second :: answers =>
      first = 0 ∧ second = 0 ∧ Completes cap repairs answers
  | .merge merged _ :: repairs, first :: second :: third :: answers =>
      first = 0 ∧ second = 0 ∧ third = 0 ∧ merged ≠ 0 ∧ merged ≤ cap ∧ Completes cap repairs answers
  | _, _ => False

/-- Every joint that is reached fits into a node. -/
def JointsFit (cap : Nat) : List Repair → List Int → Prop
  | .steal :: repairs, first :: second :: answers =>
      first = 0 → second = 0 → JointsFit cap repairs answers
  | .merge merged _ :: repairs, first :: second :: third :: answers =>
      first = 0 → second = 0 → merged ≤ cap ∧ (third = 0 → JointsFit cap repairs answers)
  | _, _ => True

section Outcomes

variable {cap : Nat} {repairs : List Repair} {answers : List Int}

/-- Stealing makes two calls, and both must succeed. -/
theorem settle_steal (first second : Int) (rest : List Int) :
    settle cap .steal (first :: second :: rest) = if first = 0 ∧ second = 0 then .done rest
      else .broken := rfl

/-- Joining makes three calls, and what it joins must fit into a node. -/
theorem settle_merge (merged left : Nat) (third : Int) (rest : List Int) :
    settle cap (.merge merged left) (0 :: 0 :: third :: rest) =
      if cap < merged then .stuck else if third ≠ 0 then .broken
        else if merged = 0 then .stuck else .done rest := by
  simp [settle]

/-- The repairs break off exactly when one of them fails. -/
theorem settleAll_broken : settleAll cap repairs answers = .broken ↔
    ¬Unfailing cap repairs answers := by
  induction repairs generalizing answers with
  | nil => simp [settleAll, Unfailing]
  | cons repair repairs ih =>
      rw [settleAll]
      cases repair with
      | alone => simp [settle, Unfailing]
      | steal =>
          rcases answers with _ | ⟨first, _ | ⟨second, rest⟩⟩
          · simp [settle, Unfailing]
          · simp [settle, Unfailing]
          · rw [settle_steal, Unfailing]
            by_cases granted : first = 0 ∧ second = 0
            · rw [if_pos granted]
              simpa [granted] using ih
            · rw [if_neg granted]
              exact iff_of_true rfl fun calls => granted ⟨calls.1, calls.2.1⟩
      | merge merged left =>
          rcases answers with _ | ⟨first, _ | ⟨second, _ | ⟨third, rest⟩⟩⟩
          · simp [settle, Unfailing]
          · simp [settle, Unfailing]
          · simp [settle, Unfailing]
          · rw [Unfailing]
            by_cases refused : first ≠ 0 ∨ second ≠ 0
            · rw [settle_refused refused]
              exact iff_of_true rfl fun calls => refused.elim (· calls.1) (· calls.2.1)
            · obtain ⟨rfl, rfl⟩ : first = 0 ∧ second = 0 := by
                simpa only [not_or, not_not] using refused
              rw [settle_merge]
              by_cases wide : cap < merged
              · simp [wide]
              · have fits := Nat.le_of_not_lt wide
                rw [if_neg wide]
                by_cases given : third = 0
                · by_cases empty : merged = 0
                  · simp [given, empty]
                  · simpa [given, empty, fits] using ih
                · simp [given, fits]

/-- Every repair is made exactly when all of them fit and all calls succeed. -/
theorem settleAll_completes : (∃ rest, settleAll cap repairs answers = .done rest) ↔
    Completes cap repairs answers := by
  induction repairs generalizing answers with
  | nil => simp [settleAll, Completes]
  | cons repair repairs ih =>
      rw [settleAll]
      cases repair with
      | alone => simp [settle, Completes]
      | steal =>
          rcases answers with _ | ⟨first, _ | ⟨second, rest⟩⟩
          · simp [settle, Completes]
          · simp [settle, Completes]
          · rw [settle_steal, Completes]
            by_cases granted : first = 0 ∧ second = 0
            · rw [if_pos granted]
              simpa [granted] using ih
            · rw [if_neg granted]
              exact iff_of_false (by simp) fun calls => granted ⟨calls.1, calls.2.1⟩
      | merge merged left =>
          rcases answers with _ | ⟨first, _ | ⟨second, _ | ⟨third, rest⟩⟩⟩
          · simp [settle, Completes]
          · simp [settle, Completes]
          · simp [settle, Completes]
          · rw [Completes]
            by_cases refused : first ≠ 0 ∨ second ≠ 0
            · rw [settle_refused refused]
              exact iff_of_false (by simp) fun calls => refused.elim (· calls.1) (· calls.2.1)
            · obtain ⟨rfl, rfl⟩ : first = 0 ∧ second = 0 := by
                simpa only [not_or, not_not] using refused
              rw [settle_merge]
              by_cases wide : cap < merged
              · simp [wide]
              · have fits := Nat.le_of_not_lt wide
                rw [if_neg wide]
                by_cases given : third = 0
                · by_cases empty : merged = 0
                  · simp [given, empty]
                  · simpa [given, empty, fits] using ih
                · simp [given, fits]

/-- The repairs leave the arrays of a node exactly when a joint that is reached does not fit. -/
theorem settleAll_stuck
    (positive : ∀ merged left, Repair.merge merged left ∈ repairs → merged ≠ 0) :
    settleAll cap repairs answers = .stuck ↔ ¬JointsFit cap repairs answers := by
  induction repairs generalizing answers with
  | nil => simp [settleAll, JointsFit]
  | cons repair repairs ih =>
      have ih : ∀ {answers : List Int}, settleAll cap repairs answers = .stuck ↔
          ¬JointsFit cap repairs answers :=
        ih fun merged left member => positive merged left (List.mem_cons_of_mem _ member)
      rw [settleAll]
      cases repair with
      | alone => simp [settle, JointsFit]
      | steal =>
          rcases answers with _ | ⟨first, _ | ⟨second, rest⟩⟩
          · simp [settle, JointsFit]
          · simp [settle, JointsFit]
          · rw [settle_steal, JointsFit]
            by_cases granted : first = 0 ∧ second = 0
            · rw [if_pos granted]
              simpa [granted] using ih
            · rw [if_neg granted]
              exact iff_of_false (by simp) fun wide => wide fun one two => absurd ⟨one, two⟩ granted
      | merge merged left =>
          have filled := positive merged left List.mem_cons_self
          rcases answers with _ | ⟨first, _ | ⟨second, _ | ⟨third, rest⟩⟩⟩
          · simp [settle, JointsFit]
          · simp [settle, JointsFit]
          · simp [settle, JointsFit]
          · rw [JointsFit]
            by_cases refused : first ≠ 0 ∨ second ≠ 0
            · rw [settle_refused refused]
              exact iff_of_false (by simp) fun wide => wide fun one two =>
                absurd refused (by simp [one, two])
            · obtain ⟨rfl, rfl⟩ : first = 0 ∧ second = 0 := by
                simpa only [not_or, not_not] using refused
              rw [settle_merge]
              by_cases wide : cap < merged
              · simp [wide]
              · have fits := Nat.le_of_not_lt wide
                rw [if_neg wide, if_neg filled]
                by_cases given : third = 0
                · simpa [given, fits] using ih
                · simp [given, fits]

end Outcomes

variable {ρ : Type} {api : BlockApi (Db ρ)} {db after : Db ρ} {h k depth : Nat}
  {held writable : Set Nat}
  {answers : List Int} {contract : WritableContract api} {node : Placed h}

/-- The entries of an image are those of its row. -/
theorem NodeAt.entry_mem {bt : Image} {row : List (Nat × Nat)} {i : Nat} (nodeAt : NodeAt bt h row)
    (inside : i < Bt.selfSize bt) : Bt.entry bt i ∈ row := by
  rw [← nodeAt.entries]
  exact List.mem_map.mpr ⟨i, List.mem_range.mpr inside, rfl⟩

/-- A lookup finds stored keys only. -/
theorem stored_of_btreeGet {value : Nat} (stored : Placed.Stored db h node)
    (found : btreeGet db depth node.block k = some (0, value)) :
    k ∈ leafKeys h (Placed.tree h node) := by
  have missing : ∀ value : Nat, (some (edbErrorBtreeInvalidKey, 0) : Option (Int × Nat)) ≠
      some (0, value) := by
    intro value same
    injection same with pair
    injection pair with code
    cases code
  induction h generalizing depth with
  | zero =>
      cases depth with
      | zero => cases found
      | succ depth =>
          have nodeAt := stored.root
          simp only [btreeGet, nodeAt.isBtree, nodeAt.magic, nodeMagic, Bool.not_true,
            Bool.false_eq_true, if_false, if_true] at found
          by_cases inside : listFind (db.data node.block) k < Bt.selfSize (db.data node.block)
          · rw [if_pos inside] at found
            by_cases here : Bt.key (db.data node.block) (listFind (db.data node.block) k) = k
            · have member := nodeAt.entry_mem inside
              rw [Placed.row_zero, Bt.entry, here] at member
              exact mem_leafKeys.mpr ⟨_, member⟩
            · rw [if_neg here] at found
              exact absurd found (missing value)
          · rw [if_neg inside] at found
            exact absurd found (missing value)
  | succ h ih =>
      cases depth with
      | zero => cases found
      | succ depth =>
          have nodeAt := stored.root
          have other : edbMagicBtree ≠ edbMagicBtreeLeaf := by decide
          simp only [btreeGet, nodeAt.isBtree, nodeAt.magic, nodeMagic, Bool.not_true,
            Bool.false_eq_true, if_false, if_neg other] at found
          by_cases inside : listFind (db.data node.block) k < Bt.selfSize (db.data node.block)
          · rw [if_pos inside] at found
            obtain ⟨entry, member, row⟩ := List.mem_map.mp (nodeAt.entry_mem inside)
            have number :
                entry.2.block = Bt.data (db.data node.block) (listFind (db.data node.block) k) :=
              congrArg Prod.snd row
            rw [← number] at found
            obtain ⟨below, under⟩ := mem_leafKeys.mp (ih (stored.2 entry member) found)
            exact mem_leafKeys.mpr ⟨below, mem_pairs_succ.mpr
              ⟨_, List.mem_map.mpr ⟨entry, member, rfl⟩, under⟩⟩
          · rw [if_neg inside] at found
            exact absurd found (missing value)

/-- On the way to a stored key no slot behind the keys of a node is read. -/
theorem noStray_of_stored (bounded : Searchable h (Placed.tree h node))
    (stored : k ∈ leafKeys h (Placed.tree h node)) : NoStray db k h node := by
  induction h with
  | zero =>
      intro below
      obtain ⟨value, member⟩ := mem_leafKeys.mp stored
      exact absurd (below _ member) (Nat.lt_irrefl k)
  | succ h ih =>
      refine ⟨fun below => ?_, fun front entry back enters => ?_⟩
      · refine absurd stored (absent_below bounded fun entry member => ?_)
        obtain ⟨entry, inside, rfl⟩ := List.mem_map.mp member
        exact below entry inside
      · obtain ⟨separator, child⟩ := entry
        have routed := enters.trees
        have shape : Placed.tree (h + 1) node = Placed.trees h node.entries := rfl
        rw [shape] at bounded stored
        exact ih (bounded.2 _ routed.cut.mem_child).2 ((stored_routed routed bounded).mp stored)

/-- A failed removal leaves every lookup as it was. -/
def FailureKeeps (db : Db ρ) (depth root : Nat) (outcome : Outcome (Db ρ) (Int × Nat)) : Prop :=
  ∀ code value after, outcome = .ok (code, value) after → code ≠ 0 → code ≠ edbErrorBtreeEmpty →
    ∀ key, btreeGet after depth root key = btreeGet db depth root key

/-- A failed `btree_pop` leaves the map alone exactly when nothing fails after the key has
been removed: the key is not stored, a call on the way down is refused, or every repair
finds another child and its calls succeed. -/
theorem btreePop_keeps_iff (contract : WritableContract api)
    (valid : contract.Valid held writable answers db)
    (proper : ∀ code ∈ answers, code ≠ edbErrorBtreeEmpty) (enough : popCost h ≤ answers.length)
    (heldNode : Placed.Held held db h node) (bounded : Searchable h (Placed.tree h node))
    (small : Every (· ≤ 510) h (Placed.tree h node)) (noStray : NoStray db k h node)
    (deep : h < depth) :
    FailureKeeps db depth node.block (btreePop api depth node.block k db) ↔
      (k ∈ leafKeys h (Placed.tree h node) → (∀ code ∈ answers.take h, code = 0) →
        Unfailing edbBtreeSize (repairs edbBtreeSplit h (Placed.tree h node) k)
          (answers.drop h)) := by
  rcases btreePop_run valid proper enough heldNode bounded small noStray deep with
    ⟨early, code, after, ran, failed, _, next, block, stored, tree, _⟩ | ⟨both, settled⟩
  · refine iff_of_true ?_ fun present granted => absurd ⟨present, granted⟩ early
    rintro _ _ _ same _ _ key
    rw [ran] at same
    cases same
    rw [← block, btreeGet_eq stored (by rwa [tree]) deep, block,
      btreeGet_eq heldNode.stored bounded deep, tree]
  · constructor
    · intro keeps present granted
      refine Classical.by_contradiction fun failing => ?_
      rw [settleAll_broken.mpr failing] at settled
      obtain ⟨code, after, ran, failed, next, block, stored, absent, _⟩ := settled
      obtain ⟨value, member⟩ := mem_leafKeys.mp present
      have same := keeps code 0 after ran failed.1 failed.2 k
      rw [btreeGet_eq heldNode.stored bounded deep, (get_eq_some bounded).mpr member,
        ← block] at same
      exact absent (stored_of_btreeGet stored same)
    · intro condition code value after ran nonzero proper
      have unfailing := condition both.1 both.2
      cases outcomeOf : settleAll 510 (repairs 127 h (Placed.tree h node) k) (answers.drop h) with
      | broken => exact absurd unfailing (settleAll_broken.mp outcomeOf)
      | stuck =>
          rw [outcomeOf, ran] at settled
          cases settled
      | done rest =>
          rw [outcomeOf, ran] at settled
          obtain ⟨_, _, _, same, _⟩ := settled
          injection same with pair
          injection pair with codeIs
          by_cases few : short 127 h (Placed.tree h node) k = true
          · rw [if_pos few] at codeIs
            exact absurd codeIs proper
          · rw [if_neg few] at codeIs
            exact absurd codeIs nonzero

/-- A root with two leaves. -/
def twin : Placed 1 :=
  ⟨1, [(5, (⟨2, [(3, 30), (5, 50)]⟩ : Placed 0)), (9, (⟨3, [(7, 70), (9, 90)]⟩ : Placed 0))]⟩

/-- The memory that holds it, with free blocks. -/
def twinMemory : Db (List Nat) := ⟨Placed.memory (Placed.images 1 twin), [4, 5, 6, 7]⟩

/-- The memory holds the tree of two leaves. -/
theorem twin_held : Placed.Held {block | block ∈ [1, 2, 3]} twinMemory 1 twin := by
  have fits : Placed.Fits 1 twin := by decide
  exact Placed.held_memory fits (by decide)

/-- The mock allocator has given out its blocks. -/
theorem twin_valid : mockContract.writableHolder.Valid {block | block ∈ [1, 2, 3]}
    {block | block ∈ [1, 2, 3]} (zeros 4) twinMemory :=
  mockWritableHolder_valid _ (by decide) (by decide) (by decide)

/-- The search for a key above 5 enters the second leaf. -/
theorem twin_enters {k : Nat} (above : 5 < k) (reached : k ≤ 9) {front back : List (Nat × Placed 0)}
    {entry : Nat × Placed 0} (enters : Enters k twin.entries front entry back) :
    entry = (9, (⟨3, [(7, 70), (9, 90)]⟩ : Placed 0)) := by
  have skipped : ¬k ≤ 5 := by omega
  have found : enter k twin.entries = some ([(5, (⟨2, [(3, 30), (5, 50)]⟩ : Placed 0))],
      (9, (⟨3, [(7, 70), (9, 90)]⟩ : Placed 0)), []) := by
    simp [enter, twin, skipped, reached]
  rw [enters.enter_eq] at found
  injection found with same
  injection same with _ same
  injection same with same _

/-- The key 8 would lie between two keys of the second leaf. -/
theorem twin_noStray : NoStray twinMemory 8 1 twin := by
  refine ⟨fun below => ?_, ?_⟩
  · exact absurd (below (9, (⟨3, [(7, 70), (9, 90)]⟩ : Placed 0)) (by simp [twin])) (by decide)
  intro front entry back enters below
  rw [twin_enters (by decide) (by decide) enters] at below
  exact absurd (below (9, 90) (by simp)) (by decide)

/-- A call that succeeds does not answer `EDB_ERROR_BTREE_EMPTY`. -/
theorem zeros_proper {calls : Nat} : ∀ code ∈ zeros calls, code ≠ edbErrorBtreeEmpty := by
  intro code member
  rw [(List.mem_replicate.mp member).2]
  decide

/-- The key 7 is removed and its leaf joined with the first one; the absent key 8 is refused,
and nothing changes. -/
theorem btreePop_keeps_iff_twin :
    (∃ after, btreePop mockApi 2 1 7 twinMemory = .ok (edbErrorBtreeEmpty, 70) after) ∧
      FailureKeeps twinMemory 2 1 (btreePop mockApi 2 1 7 twinMemory) ∧
      (∃ after, btreePop mockApi 2 1 8 twinMemory = .ok (edbErrorBtreeInvalidKey, 0) after) ∧
      FailureKeeps twinMemory 2 1 (btreePop mockApi 2 1 8 twinMemory) := by
  have bounded : Searchable 1 (Placed.tree 1 twin) := by decide
  have small : Every (· ≤ 510) 1 (Placed.tree 1 twin) := by decide
  have stored : 7 ∈ leafKeys 1 (Placed.tree 1 twin) := by decide
  have absent : 8 ∉ leafKeys 1 (Placed.tree 1 twin) := by decide
  have joined :=
    btreePop_keeps_iff mockContract.writableHolder twin_valid zeros_proper (by decide) twin_held
    bounded small (noStray_of_stored bounded stored) (show 1 < 2 by decide)
  have unfound :=
    btreePop_keeps_iff mockContract.writableHolder twin_valid zeros_proper (by decide) twin_held
    bounded small twin_noStray (show 1 < 2 by decide)
  have removed : (btreePop mockApi 2 1 7 twinMemory).passes
      (fun popped _ => popped == (edbErrorBtreeEmpty, 70)) = true := by decide +kernel
  have refused : (btreePop mockApi 2 1 8 twinMemory).passes
      (fun popped _ => popped == (edbErrorBtreeInvalidKey, 0)) = true := by decide +kernel
  obtain ⟨_, popped, ran, same⟩ := Outcome.of_passes removed
  obtain ⟨_, kept, ran', same'⟩ := Outcome.of_passes refused
  rw [eq_of_beq same] at ran
  rw [eq_of_beq same'] at ran'
  refine ⟨⟨popped, ran⟩, joined.mpr fun _ _ => ?_, ⟨kept, ran'⟩, unfound.mpr fun present =>
    absurd present absent⟩
  exact ⟨rfl, rfl, fun _ => ⟨rfl, fun _ => trivial⟩⟩

/-- A root with one child. -/
def lonely : Placed 1 := ⟨1, [(5, (⟨2, [(5, 50)]⟩ : Placed 0))]⟩

/-- The memory that holds it, with free blocks. -/
def lonelyMemory : Db (List Nat) := ⟨Placed.memory (Placed.images 1 lonely), [3, 4, 5, 6]⟩

/-- The memory holds the tree with an only child. -/
theorem lonely_held : Placed.Held {block | block ∈ [1, 2]} lonelyMemory 1 lonely := by
  have fits : Placed.Fits 1 lonely := by decide
  exact Placed.held_memory fits (by decide)

/-- The mock allocator has given out its blocks. -/
theorem lonely_valid :
    mockContract.writableHolder.Valid {block | block ∈ [1, 2]} {block | block ∈ [1, 2]}
    (zeros 4) lonelyMemory := mockWritableHolder_valid _ (by decide) (by decide) (by decide)

/-- The only key below an only child is removed, and the removal reports a failure. -/
theorem btreePop_fails_removed :
    ¬FailureKeeps lonelyMemory 2 1 (btreePop mockApi 2 1 5 lonelyMemory) := by
  have bounded : Searchable 1 (Placed.tree 1 lonely) := by decide
  have small : Every (· ≤ 510) 1 (Placed.tree 1 lonely) := by decide
  have stored : 5 ∈ leafKeys 1 (Placed.tree 1 lonely) := by decide
  intro keeps
  have condition :=
    (btreePop_keeps_iff mockContract.writableHolder lonely_valid zeros_proper (by decide)
    lonely_held bounded small (noStray_of_stored bounded stored) (by decide)).mp keeps
  have enters : Enters 5 (Placed.tree 1 lonely) [] (5, [(5, 50)]) [] :=
    ⟨rfl, by simp, Nat.le_refl 5⟩
  have unfailing :=
    condition stored fun code member => (List.mem_replicate.mp (List.mem_of_mem_take member)).2
  rw [repairs_succ enters] at unfailing
  exact unfailing

end EverDb
