import EverDb.Btree.Repair
import EverDb.Foundation.BPlus.RemoveSpec

/-!
# btree_pop

`btree_pop` removes a stored key and makes the repairs of `BPlus.repairs`, each with its
calls of `edb_modify_block` and `edb_free_block`. The return codes of these calls decide
how far it gets.
-/

namespace EverDb

open Foundation BPlus

variable {ρ : Type} {api : BlockApi (Db ρ)} {db after : Db ρ} {h root : Nat}
  {held writable : Set Nat}
  {answers : List Int}

/-- How the repairs end: with the codes of the calls that are left, with a failure after the
key is gone, or outside the arrays of a node. -/
inductive RepairOutcome where
  | done (rest : List Int)
  | broken
  | stuck

/-- One repair: both children are made writable, and a joined child is freed. -/
def settle (cap : Nat) : Repair → List Int → RepairOutcome
  | .steal, first :: second :: rest => if first = 0 ∧ second = 0 then .done rest else .broken
  | .merge merged _, first :: second :: third :: rest =>
      if first ≠ 0 ∨ second ≠ 0 then .broken
      else if cap < merged then .stuck
      else if third ≠ 0 then .broken
      else if merged = 0 then .stuck
      else .done rest
  | _, _ => .broken

/-- The repairs, one after the other. -/
def settleAll (cap : Nat) : List Repair → List Int → RepairOutcome
  | [], answers => .done answers
  | repair :: repairs, answers =>
      match settle cap repair answers with
      | .done rest => settleAll cap repairs rest
      | .broken => .broken
      | .stuck => .stuck

/-- Whether `btree_pop` clears `*value` after a repair. -/
def Foundation.BPlus.Repair.clears : Repair → Bool
  | .merge _ left => edbBtreeSplit ≤ left
  | _ => false

theorem settleAll_append {cap : Nat} (before after : List Repair) (answers : List Int) :
    settleAll cap (before ++ after) answers =
      match settleAll cap before answers with
      | .done rest => settleAll cap after rest
      | .broken => .broken
      | .stuck => .stuck := by
  induction before generalizing answers with
  | nil => rfl
  | cons repair before ih =>
      rw [List.cons_append, settleAll, settleAll]
      cases settle cap repair answers with
      | done rest => exact ih rest
      | broken => rfl
      | stuck => rfl

/-- A repair uses up at most three answers. -/
theorem settle_done {cap : Nat} {repair : Repair} {rest : List Int}
    (done : settle cap repair answers = .done rest) :
    answers.length ≤ rest.length + 3 ∧ ∀ code ∈ rest, code ∈ answers := by
  unfold settle at done
  split at done
  · split at done
    · injection done with equal
      subst equal
      exact ⟨by simp, fun code member => by simp [member]⟩
    · cases done
  · split at done
    · cases done
    · split at done
      · cases done
      · split at done
        · cases done
        · split at done
          · cases done
          · injection done with equal
            subst equal
            exact ⟨by simp, fun code member => by simp [member]⟩
  · cases done

theorem settleAll_done {cap : Nat} {repairs : List Repair} {rest : List Int}
    (done : settleAll cap repairs answers = .done rest) :
    answers.length ≤ rest.length + 3 * repairs.length ∧ ∀ code ∈ rest, code ∈ answers := by
  induction repairs generalizing answers with
  | nil =>
      injection done with equal
      subst equal
      exact ⟨by simp, fun _ member => member⟩
  | cons repair repairs ih =>
      rw [settleAll] at done
      cases one : settle cap repair answers with
      | done middle =>
          rw [one] at done
          obtain ⟨used, among⟩ := settle_done one
          obtain ⟨usedRest, amongRest⟩ := ih done
          exact ⟨by simp only [List.length_cons]; omega, fun code member =>
            among code (amongRest code member)⟩
      | broken =>
          rw [one] at done
          cases done
      | stuck =>
          rw [one] at done
          cases done

/-- A removal makes at most one repair for each level. -/
theorem repairs_length (split : Nat) (tree : BPlus Nat Nat h) (k : Nat) :
    (repairs split h tree k).length ≤ h := by
  induction h with
  | zero => exact Nat.le_refl _
  | succ h ih =>
      rw [repairs]
      split
      · exact Nat.zero_le _
      · rename_i child _ _
        rw [List.length_append]
        have below := ih child
        split <;> simp only [List.length_singleton, List.length_nil] <;> omega

/-- How many calls of the block functions a removal makes at most. -/
def popCost (h : Nat) : Nat := 4 * h

/-- There is a slot behind the keys of a node, and it does not pass for the key sought, in
any node on the route that has only keys below it. -/
def NoStray (db : Db ρ) (k : Nat) : (h : Nat) → Placed h → Prop
  | 0, leaf => (∀ entry ∈ leaf.entries, entry.1 < k) →
      leaf.entries.length < edbBtreeSize ∧ Bt.key (db.data leaf.block) leaf.entries.length ≠ k
  | h + 1, node =>
      ((∀ entry ∈ node.entries, entry.1 < k) →
        node.entries.length < edbBtreeSize ∧ Bt.key (db.data node.block) node.entries.length < k) ∧
      ∀ front entry back, Enters k node.entries front entry back → NoStray db k h entry.2

/-- A tree is left at the place of another one; the blocks of the holder outside the first
tree are as they were. -/
def Left (held : Set Nat) (db : Db ρ) (node : Placed h)
    (result : BPlus Nat Nat h → Prop) (after : Db ρ) : Prop :=
  ∃ next, Node.block next = Node.block node ∧ Placed.Stored after h next ∧
  result (Placed.tree h next) ∧
    ∀ block ∈ held, block ∉ Placed.blocks h node → after.data block = db.data block

/-- A tree has taken the place of another one, and is the holder's. -/
def Replaced (contract : WritableContract api) (held writable : Set Nat) (db : Db ρ)
    (node : Placed h) (answers : List Int) (target : BPlus Nat Nat h) (after : Db ρ) : Prop :=
  ∃ later writableLater next, contract.Valid later writableLater answers after ∧
    Node.block next = Node.block node ∧ Placed.tree h next = target ∧
    Placed.Held later after h next ∧
    Confined held later db after (Placed.blocks h node) (Placed.blocks h next) ∧
    ∀ block ∈ held, block ∉ Placed.below h node → block ∈ writable → block ∈ writableLater

/-- The code of a failed call: neither of the codes of a success. -/
def Failed (code : Int) : Prop := code ≠ 0 ∧ code ≠ edbErrorBtreeEmpty

/-- What `btree_pop` does. The key is missing or a call on the way down is refused, and the
tree stays as it is; or the key is removed and the repairs decide. Without a refusal the
missing key is named. -/
def PopSpec (contract : WritableContract api) (held writable : Set Nat)
    (answers : List Int) (db : Db ρ)
    (node : Placed h) (k : Nat) (outcome : Outcome (Db ρ) (Int × Nat)) : Prop :=
  (¬(k ∈ leafKeys h (Placed.tree h node) ∧ ∀ code ∈ answers.take h, code = 0) ∧
    ∃ code after, outcome = .ok (code, 0) after ∧ Failed code ∧
      ((∀ answer ∈ answers.take h, answer = 0) → code = edbErrorBtreeInvalidKey) ∧
      Left held db node (fun tree => tree = Placed.tree h node) after) ∨
  ((k ∈ leafKeys h (Placed.tree h node) ∧ ∀ code ∈ answers.take h, code = 0) ∧
    match settleAll 510 (repairs 127 h (Placed.tree h node) k) (answers.drop h) with
    | .done rest => ∃ value after, (k, value) ∈ pairs h (Placed.tree h node) ∧
        outcome = .ok (if short 127 h (Placed.tree h node) k then edbErrorBtreeEmpty else 0,
          if (repairs 127 h (Placed.tree h node) k).any Repair.clears then 0 else value) after ∧
        Replaced contract held writable db node rest (remove 127 h (Placed.tree h node) k) after
    | .broken => ∃ code after, outcome = .ok (code, 0) after ∧ Failed code ∧
        Left held db node (fun tree => k ∉ leafKeys h tree) after
    | .stuck => outcome = .stuck)

variable {contract : WritableContract api} {k : Nat}

theorem failed_invalidKey : Failed edbErrorBtreeInvalidKey := ⟨by decide, by decide⟩

/-- The slot that `list_find` points at in a leaf without the key. -/
theorem leaf_absent {leaf : Placed 0} (nodeAt : NodeAt (db.data leaf.block) 0 leaf.entries)
    (ascending : leaf.entries.Pairwise fun left right => left.1 < right.1)
    (noStray : NoStray db k 0 leaf)
    (small : leaf.entries.length ≤ 510) (absent : ∀ entry ∈ leaf.entries, entry.1 ≠ k) :
    ¬edbBtreeSize ≤ listFind (db.data leaf.block) k ∧
      Bt.key (db.data leaf.block) (listFind (db.data leaf.block) k) ≠ k := by
  rcases enters_or_below k leaf.entries with ⟨front, entry, back, shape, skipped, reached⟩ | below
  · rw [shape] at nodeAt ascending absent small
    rw [nodeAt.listFind ascending skipped reached]
    have here : Bt.key (db.data leaf.block) front.length = entry.1 := congrArg Prod.fst nodeAt.entry
    rw [here]
    refine ⟨?_, absent entry (by simp)⟩
    rw [List.length_append, List.length_cons] at small
    simp only [edbBtreeSize]
    omega
  · rw [nodeAt.listFind_end ascending below, nodeAt.selfSize]
    obtain ⟨room, other⟩ := noStray below
    exact ⟨Nat.not_le_of_lt room, other⟩

/-- The leaf case of `btree_pop`. -/
theorem btreePopLeaf_run {leaf : Placed 0} (valid : contract.Valid held writable answers db)
    (heldLeaf : Placed.Held held db 0 leaf)
    (ascending : leaf.entries.Pairwise fun left right => left.1 < right.1)
    (small : leaf.entries.length ≤ 510) (noStray : NoStray db k 0 leaf) :
    PopSpec contract held writable answers db leaf k (btreePopLeaf leaf.block k db) := by
  have nodeAt : NodeAt (db.data leaf.block) 0 leaf.entries :=
    Placed.row_zero leaf ▸ heldLeaf.stored.root
  have start : btreePopLeaf leaf.block k db =
      (if edbBtreeSize ≤ listFind (db.data leaf.block) k then .diverge
      else if Bt.key (db.data leaf.block) (listFind (db.data leaf.block) k) ≠ k then
        pure (edbErrorBtreeInvalidKey, 0)
      else if Bt.selfSize (db.data leaf.block) = 0 then .diverge
      else do
        editNode leaf.block fun bt => listRemove bt (listFind (db.data leaf.block) k)
        let after ← .gets fun db => db.data leaf.block
        pure (if Bt.selfSize after < edbBtreeSplit then edbErrorBtreeEmpty else 0,
          Bt.data (db.data leaf.block) (listFind (db.data leaf.block) k)) :
            Code (Db ρ) (Int × Nat)) db := rfl
  rw [start]
  by_cases stored : k ∈ leafKeys 0 (leaf.entries : BPlus Nat Nat 0)
  · obtain ⟨front, value, back, shape⟩ := exists_entry stored
    refine .inr ⟨⟨stored, by simp⟩, ?_⟩
    have inside : (k, value) ∈ leaf.entries := by simp [shape]
    have removed : remove 127 0 (leaf.entries : BPlus Nat Nat 0) k = front ++ back := by
      rw [shape] at ascending ⊢
      exact remove_leaf 127 ascending
    have place : listFind (db.data leaf.block) k = front.length := by
      rw [shape] at nodeAt ascending
      exact nodeAt.listFind ascending
        (fun other member =>
          (List.pairwise_append.mp ascending).2.2 other member (k, value) List.mem_cons_self)
        (Nat.le_refl k)
    have size := nodeAt.selfSize
    rw [shape] at nodeAt small size
    have entry := nodeAt.entry
    have key : Bt.key (db.data leaf.block) front.length = k := congrArg Prod.fst entry
    have data : Bt.data (db.data leaf.block) front.length = value := congrArg Prod.snd entry
    have counted : (front ++ (k, value) :: back).length = (front ++ back).length + 1 := by
      simp only [List.length_append, List.length_cons]
      omega
    have lastAt := nodeAt.listRemove small
    have sizeLast :
        Bt.selfSize (listRemove (db.data leaf.block) front.length) = (front ++ back).length :=
      lastAt.selfSize
    refine ⟨value, db.write leaf.block (listRemove (db.data leaf.block) front.length),
      inside, ?_, held, writable, ⟨leaf.block, front ++ back⟩,
      contract.write valid (heldLeaf.mine _ (Placed.block_mem leaf)) _, rfl, ?_,
      ⟨?_, heldLeaf.distinct, heldLeaf.mine⟩, Confined.write (Placed.block_mem leaf) _,
      fun _ _ _ member => member⟩
    · have inside : ¬510 ≤ front.length := by
        rw [List.length_append, List.length_cons] at small
        omega
      have some : Bt.selfSize (db.data leaf.block) ≠ 0 := by
        rw [size, counted]
        exact Nat.succ_ne_zero _
      rw [place, key, if_neg inside, if_neg (by simp), if_neg some, data]
      change Outcome.ok (if Bt.selfSize ((db.write leaf.block
        (listRemove (db.data leaf.block) front.length)).data leaf.block) < edbBtreeSplit then
          edbErrorBtreeEmpty else 0, value) _ = _
      rw [Db.write_data_self, sizeLast]
      have few : short 127 0 (leaf.entries : BPlus Nat Nat 0) k = true ↔
          (front ++ back).length < 127 := by
        rw [short, decide_eq_true_eq, shape, counted]
        omega
      simp only [repairs, List.any_nil, Bool.false_eq_true, if_false]
      by_cases less : (front ++ back).length < 127
      · rw [if_pos less]
        change _ =
          Outcome.ok (if short 127 0 (leaf.entries : BPlus Nat Nat 0) k = true then _ else _, _) _
        rw [if_pos (few.mpr less)]
      · rw [if_neg less]
        change _ =
          Outcome.ok (if short 127 0 (leaf.entries : BPlus Nat Nat 0) k = true then _ else _, _) _
        rw [if_neg fun full => less (few.mp full)]
    · exact removed.symm
    · rw [Placed.Stored, Placed.row_zero, Db.write_data_self]
      exact lastAt
  · refine .inl ⟨fun both => stored both.1, edbErrorBtreeInvalidKey, db, ?_, failed_invalidKey,
      fun _ => rfl, leaf, rfl, heldLeaf.stored, rfl, fun _ _ _ => rfl⟩
    have absent : ∀ entry ∈ leaf.entries, entry.1 ≠ k := fun entry member equal =>
      stored (mem_leafKeys.mpr ⟨entry.2, equal ▸ member⟩)
    obtain ⟨inside, other⟩ := leaf_absent nodeAt ascending noStray small absent
    rw [if_neg inside, if_pos other]
    rfl

end EverDb
