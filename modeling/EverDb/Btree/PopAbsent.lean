import EverDb.Btree.PopEffect

/-!
# Popping an absent key

`btree_pop` compares the key with the slot that `list_find` returns, also when that slot
lies behind the keys of the node. If a leaf has such a slot and it passes for the key,
the call removes the last entry of the leaf instead; a full leaf has none.
-/

namespace EverDb

open Foundation BPlus

/-- What a call leads to, but for the value it returns. -/
def Foundation.Outcome.dropValue {σ α β : Type} : Outcome σ (α × β) → Outcome σ α
  | .ok result after => .ok result.1 after
  | .error code after => .error code after
  | .stuck => .stuck

section Values

variable {σ α β γ : Type} {first : Code σ α} {next last : α → Code σ (β × γ)}

/-- Two sequences agree but for the value when their second calls do. -/
theorem Foundation.Code.bind_dropValue
    (same : ∀ value after, (next value after).dropValue = (last value after).dropValue)
    (state : σ) :
    ((first >>= next) state).dropValue = ((first >>= last) state).dropValue := by
  cases ran : first state with
  | ok value after =>
      rw [Code.bind_ok ran, Code.bind_ok ran]
      exact same value after
  | error code after => rw [Code.bind_error ran, Code.bind_error ran]
  | stuck => rw [Code.bind_stuck ran, Code.bind_stuck ran]

theorem Foundation.Code.branch_dropValue {exit : Int → Code σ (β × γ)}
    (same : ∀ value after, (next value after).dropValue = (last value after).dropValue)
    (state : σ) :
    (Code.branch first exit next state).dropValue =
    (Code.branch first exit last state).dropValue := by
  unfold Code.branch
  cases first state with
  | ok value after => exact same value after
  | error code after => rfl
  | stuck => rfl

/-- Two calls that agree but for the value, before one that passes it on. -/
theorem Foundation.Code.bind_passes {δ : Type} {call other : Code σ (α × δ)}
    {tail : α × δ → Code σ (β × γ)}
    {state : σ} (same : (call state).dropValue = (other state).dropValue)
    (passes : ∀ code value value' after,
      (tail (code, value) after).dropValue = (tail (code, value') after).dropValue) :
    ((call >>= tail) state).dropValue = ((other >>= tail) state).dropValue := by
  cases ran : call state with
  | ok result after =>
      cases ranOther : other state with
      | ok result' after' =>
          rw [ran, ranOther] at same
          injection same with code state
          rw [Code.bind_ok ran, Code.bind_ok ranOther, ← state]
          have codes : result' = (result.1, result'.2) := by rw [code]
          rw [codes]
          exact passes result.1 result.2 result'.2 after
      | error code after' => rw [ran, ranOther] at same; cases same
      | stuck => rw [ran, ranOther] at same; cases same
  | error code after =>
      cases ranOther : other state with
      | ok result' after' => rw [ran, ranOther] at same; cases same
      | error code' after' =>
          rw [ran, ranOther] at same
          cases same
          rw [Code.bind_error ran, Code.bind_error ranOther]
      | stuck => rw [ran, ranOther] at same; cases same
  | stuck =>
      cases ranOther : other state with
      | ok result' after' => rw [ran, ranOther] at same; cases same
      | error code' after' => rw [ran, ranOther] at same; cases same
      | stuck => rw [Code.bind_stuck ran, Code.bind_stuck ranOther]

end Values

variable {ρ : Type} {api : BlockApi (Db ρ)} {db after middle : Db ρ} {h root k last depth : Nat}
  {held writable : Set Nat} {answers : List Int} {contract : WritableContract api} {node : Placed h}

/-- The repair of a child only passes the value on. -/
theorem btreeRepair_dropValue (root b : Nat) (fromLeft : Bool) (child0 child1 value other : Nat) :
    (btreeRepair api root b fromLeft child0 child1 value db).dropValue =
      (btreeRepair api root b fromLeft child0 child1 other db).dropValue := by
  unfold btreeRepair
  refine Code.bind_dropValue (fun _ _ => Code.bind_dropValue (fun _ _ => Code.bind_dropValue
    (fun b1 state => ?_) _) _) _
  by_cases wide : edbBtreeSplit < Bt.selfSize b1
  · rw [if_pos wide, if_pos wide]
    refine Code.bind_dropValue (fun _ _ => ?_) _
    rfl
  · rw [if_neg wide, if_neg wide]
    refine Code.branch_dropValue (fun _ _ => Code.bind_dropValue (fun bt state => ?_) _) _
    by_cases few : Bt.selfSize bt < edbBtreeSplit
    · rw [if_pos few, if_pos few]
      rfl
    · rw [if_neg few, if_neg few]

theorem popTail_dropValue (root b child0 : Nat) (code : Int) (value other : Nat) :
    (popTail api root b child0 (code, value) db).dropValue =
      (popTail api root b child0 (code, other) db).dropValue := by
  unfold popTail
  by_cases success : code = 0
  · rw [if_pos success, if_pos success]
    refine Code.bind_dropValue (fun _ _ => ?_) _
    rfl
  · rw [if_neg success, if_neg success]
    by_cases empty : code = edbErrorBtreeEmpty
    · rw [if_pos empty, if_pos empty]
      unfold btreeRebalance
      refine Code.bind_dropValue (fun bt state => ?_) _
      by_cases few : Bt.selfSize bt ≤ 1
      · rw [if_pos few, if_pos few]
      · rw [if_neg few, if_neg few]
        exact Code.branch_dropValue (fun _ _ => Code.branch_dropValue (fun _ _ =>
          btreeRepair_dropValue _ _ _ _ _ _ _) _) _
    · rw [if_neg empty, if_neg empty]

/-- No stale separator behind the keys of an internal node on the route passes for one of
a child that may hold the key. -/
def InnerClean (db : Db ρ) (k : Nat) : (h : Nat) → Placed h → Prop
  | 0, _ => True
  | h + 1, node =>
      ((∀ entry ∈ node.entries, entry.1 < k) → node.entries.length < edbBtreeSize →
        Bt.key (db.data node.block) node.entries.length < k) ∧
      ∀ front entry back, Enters k node.entries front entry back → InnerClean db k h entry.2

theorem InnerClean.exchange {result : Nat} (clean : InnerClean db k h node)
    (copied : middle.data result = db.data node.block)
    (same : ∀ block ∈ Placed.below h node, middle.data block = db.data block) :
    InnerClean middle k h (⟨result, node.entries⟩ : Placed h) := by
  induction h generalizing result with
  | zero => exact trivial
  | succ h ih =>
      refine ⟨fun below room => ?_, fun front entry back enters => ?_⟩
      · rw [copied]
        exact clean.1 below room
      · have member : entry ∈ node.entries := by
          rw [enters.shape]
          simp
        have inside : ∀ block ∈ Placed.blocks h entry.2, middle.data block =
            db.data block := fun block under =>
          same block (List.mem_flatMap.mpr ⟨entry, member, under⟩)
        exact ih (clean.2 front entry back enters)
          (inside _ (Placed.block_mem entry.2)) fun block under =>
          inside block (by rw [Placed.blocks_eq]; exact List.mem_cons_of_mem _ under)

/-- A leaf whose slot behind the keys passes for the key, or that has no such slot. -/
theorem btreePopLeaf_stray {leaf : Placed 0} (nodeAt : NodeAt (db.data leaf.block) 0 leaf.entries)
    (ascending : leaf.entries.Pairwise fun left right => left.1 < right.1)
    (small : leaf.entries.length ≤ 510) (stray : ¬NoStray db k 0 leaf) :
    btreePopLeaf leaf.block k db = .stuck ∨
      ∃ last ∈ leafKeys 0 (leaf.entries : BPlus Nat Nat 0), last < k ∧
        (btreePopLeaf leaf.block k db).dropValue = (btreePopLeaf leaf.block last db).dropValue := by
  obtain ⟨below, noSlot⟩ : (∀ entry ∈ leaf.entries, entry.1 < k) ∧
      (leaf.entries.length < edbBtreeSize →
        Bt.key (db.data leaf.block) leaf.entries.length = k) := by
    simpa only [NoStray, Classical.not_imp, not_and, not_not] using stray
  have size := nodeAt.selfSize
  have place : listFind (db.data leaf.block) k = leaf.entries.length := by
    rw [nodeAt.listFind_end ascending below, size]
  have opened : ∀ key, btreePopLeaf leaf.block key db =
      (if edbBtreeSize ≤ listFind (db.data leaf.block) key then .diverge
      else if Bt.key (db.data leaf.block) (listFind (db.data leaf.block) key) ≠ key then
        pure (edbErrorBtreeInvalidKey, 0)
      else if Bt.selfSize (db.data leaf.block) = 0 then .diverge
      else do
        editNode leaf.block fun bt => listRemove bt (listFind (db.data leaf.block) key)
        let after ← .gets fun db => db.data leaf.block
        pure (if Bt.selfSize after < edbBtreeSplit then edbErrorBtreeEmpty else 0,
          Bt.data (db.data leaf.block) (listFind (db.data leaf.block) key)) :
            Code (Db ρ) (Int × Nat)) db :=
    fun _ => rfl
  rw [opened, place, size]
  by_cases room : edbBtreeSize ≤ leaf.entries.length
  · exact .inl (by rw [if_pos room]; rfl)
  · have passes : ¬Bt.key (db.data leaf.block) leaf.entries.length ≠ k :=
      not_not.mpr (noSlot (by omega))
    rw [if_neg room, if_neg passes]
    rcases List.eq_nil_or_concat leaf.entries with none | ⟨front, ⟨last, value⟩, shape⟩
    · left
      rw [if_pos (by rw [none]; rfl)]
      rfl
    · right
      rw [List.concat_eq_append] at shape
      have member : (last, value) ∈ leaf.entries := by simp [shape]
      have length : leaf.entries.length = front.length + 1 := by simp [shape]
      have lastPlace : listFind (db.data leaf.block) last = front.length := by
        rw [shape] at nodeAt ascending
        exact nodeAt.listFind ascending
          (fun other inFront =>
            (List.pairwise_append.mp ascending).2.2 other inFront (last, value) (by simp))
          (Nat.le_refl last)
      have lastKey : Bt.key (db.data leaf.block) front.length = last := by
        rw [shape] at nodeAt
        exact congrArg Prod.fst nodeAt.entry
      refine ⟨last, mem_leafKeys.mpr ⟨value, member⟩, below _ member, ?_⟩
      rw [opened, lastPlace, if_neg (by omega), if_neg (not_not.mpr lastKey), size,
        if_neg (by omega), if_neg (by omega)]
      have same : listRemove (db.data leaf.block) leaf.entries.length =
          listRemove (db.data leaf.block) front.length := Bt.listRemove_behind (by omega) (by omega)
      change Outcome.ok (if Bt.selfSize ((db.write leaf.block
          (listRemove (db.data leaf.block) leaf.entries.length)).data leaf.block) <
            edbBtreeSplit then _ else _)
          (db.write leaf.block (listRemove (db.data leaf.block) leaf.entries.length)) =
        Outcome.ok (if Bt.selfSize ((db.write leaf.block
          (listRemove (db.data leaf.block) front.length)).data leaf.block) <
            edbBtreeSplit then _ else _)
          (db.write leaf.block (listRemove (db.data leaf.block) front.length))
      rw [same]

/-- A removal that goes past the keys of a leaf leaves the array, or takes the last entry
of the leaf. -/
theorem btreePop_stray (valid : contract.Valid held writable answers db)
    (enough : h ≤ answers.length)
    (granted : ∀ code ∈ answers.take h, code = 0) (heldNode : Placed.Held held db h node)
    (bounded : Searchable h (Placed.tree h node)) (small : Every (· ≤ 510) h (Placed.tree h node))
    (clean : InnerClean db k h node) (stray : ¬NoStray db k h node) (deep : h < depth) :
    btreePop api depth node.block k db = .stuck ∨
      ∃ last ∈ leafKeys h (Placed.tree h node), last < k ∧
        (btreePop api depth node.block k db).dropValue =
        (btreePop api depth node.block last db).dropValue := by
  induction h generalizing held writable answers db depth with
  | zero =>
      obtain ⟨depth, rfl⟩ := Nat.exists_eq_succ_of_ne_zero (Nat.ne_of_gt deep)
      have nodeAt : NodeAt (db.data node.block) 0 node.entries :=
        Placed.row_zero node ▸ heldNode.stored.root
      simp only [btreePop_zero heldNode.stored]
      exact btreePopLeaf_stray nodeAt bounded small stray
  | succ h ih =>
      obtain ⟨depth, rfl⟩ := Nat.exists_eq_succ_of_ne_zero
        (Nat.ne_of_gt (Nat.lt_of_le_of_lt (Nat.zero_le _) deep))
      obtain ⟨first, answers, rfl⟩ : ∃ first rest, answers = first :: rest := by
        cases answers with
        | nil => simp at enough
        | cons first rest => exact ⟨first, rest, rfl⟩
      obtain rfl : first = 0 := granted first (by simp)
      have nodeAt := heldNode.stored.root
      have ascending := Placed.ascending bounded
      have length : node.entries.length ≤ 510 := by
        rw [← Placed.tree_length]
        exact small.1
      rcases enters_or_below k node.entries with ⟨front, ⟨separator, child⟩, back, enters⟩ | below
      · have shape : node.entries = front ++ [(separator, child)] ++ back := by simp [enters.shape]
        obtain ⟨root, entries⟩ := node
        obtain rfl : entries = front ++ [(separator, child)] ++ back := shape
        have trunk := Trunk.of_held heldNode
        have routed :
            Enters k (Placed.trees h (front ++ [(separator, child)] ++ back)) (Placed.trees h front)
            (separator, Placed.tree h child) (Placed.trees h back) := enters.trees
        have strayBelow : ¬NoStray db k h child := by
          intro calm
          refine stray ⟨fun below => ?_, fun front' entry back' enters' => ?_⟩
          · exact absurd (below (separator, child) (by simp)) (Nat.not_lt_of_le enters.reached)
          · have same := enters.enter_eq.symm.trans enters'.enter_eq
            injection same with same
            injection same with _ same
            injection same with same _
            subst same
            exact calm
        obtain ⟨result, opened, starts, ran⟩ := trunk.opened valid nodeAt length
        have start : btreePop api (depth + 1) root k db = _ :=
          btreePop_entered nodeAt ascending length enters
        have strayOpened : ¬NoStray opened k h (⟨result, child.entries⟩ : Placed h) := fun calm =>
          strayBelow (calm.exchange starts.copied.symm fun block inside =>
            (starts.same block (Placed.below_moved child result ▸ inside)).symm)
        rcases ih starts.valid (by simpa using enough) (fun code member =>
          granted code (by simp [member]))
            starts.trunk.child
              (by rw [Placed.tree_moved]; exact (bounded.2 _ routed.cut.mem_child).2)
            (by rw [Placed.tree_moved]; exact small.2 _ routed.cut.mem_child)
            ((clean.2 front _ back enters).exchange starts.copied starts.same) strayOpened
            (Nat.lt_of_succ_lt_succ deep) with
          gone | ⟨last, stored, less, same⟩
        · left
          rw [start, ran]
          exact Code.bind_stuck gone
        · right
          rw [Placed.tree_moved] at stored
          have entersLast :
              Enters last (front ++ [(separator, child)] ++ back) front (separator, child) back :=
            ⟨enters.shape, fun other member => bounded.above_front member stored,
              (bounded.2 _ routed.cut.mem_child).1 last stored⟩
          have startLast : btreePop api (depth + 1) root last db = _ :=
            btreePop_entered nodeAt ascending length entersLast
          refine ⟨last, (stored_routed entersLast.trees bounded).mpr stored, less, ?_⟩
          rw [start, startLast, ran, ran]
          exact Code.bind_passes same fun code value other after => popTail_dropValue _ _ _ _ _ _
      · left
        have room : ¬node.entries.length < edbBtreeSize := by
          intro room
          refine stray ⟨fun _ => ⟨room, clean.1 below room⟩, fun front entry back enters => ?_⟩
          have member : entry ∈ node.entries := by
            rw [enters.shape]
            simp
          exact absurd (below entry member) (Nat.not_lt_of_le enters.reached)
        rw [btreePop_succ nodeAt, listFind_below nodeAt rfl ascending below,
          if_pos (Nat.le_of_not_lt room)]
        rfl

/-- What popping an absent key must do. -/
def CleanlyRefused (db : Db ρ) (depth root : Nat) (outcome : Outcome (Db ρ) (Int × Nat)) : Prop :=
  ∃ after, outcome = .ok (edbErrorBtreeInvalidKey, 0) after ∧
    ∀ key, btreeGet after depth root key = btreeGet db depth root key

/-- A removal that takes a stored key is not clean. -/
theorem not_cleanlyRefused_of_removed (heldNode : Placed.Held held db h node)
    (bounded : Searchable h (Placed.tree h node)) (deep : h < depth)
    {outcome : Outcome (Db ρ) (Int × Nat)} (stored : last ∈ leafKeys h (Placed.tree h node))
    (removed : ∀ code value after, outcome = .ok (code, value) after →
      Left held db node (fun tree => last ∉ leafKeys h tree) after) :
    ¬CleanlyRefused db depth node.block outcome := by
  rintro ⟨after, ran, same⟩
  obtain ⟨next, block, storedNext, absent, _⟩ := removed _ _ _ ran
  obtain ⟨value, member⟩ := mem_leafKeys.mp stored
  have found := same last
  rw [btreeGet_eq heldNode.stored bounded deep, (get_eq_some bounded).mpr member, ← block] at found
  exact absent (stored_of_btreeGet storedNext found)

/-- `btree_pop` refuses an absent key cleanly exactly when no node on its route, with only
keys below it, is full or has a slot behind its keys that passes for the key. -/
theorem btreePop_absent_iff (contract : WritableContract api)
    (valid : contract.Valid held writable answers db)
    (proper : ∀ code ∈ answers, code ≠ edbErrorBtreeEmpty) (enough : popCost h ≤ answers.length)
    (granted : ∀ code ∈ answers.take h, code = 0) (heldNode : Placed.Held held db h node)
    (bounded : Searchable h (Placed.tree h node)) (small : Every (· ≤ 510) h (Placed.tree h node))
    (absent : k ∉ leafKeys h (Placed.tree h node)) (clean : InnerClean db k h node)
    (deep : h < depth) :
    CleanlyRefused db depth node.block (btreePop api depth node.block k db) ↔
    NoStray db k h node := by
  constructor
  · intro refused
    refine Classical.by_contradiction fun stray => ?_
    have few : h ≤ answers.length := by
      rw [popCost] at enough
      omega
    rcases btreePop_stray valid few granted heldNode bounded small clean stray deep with
      gone | ⟨last, stored, _, same⟩
    · obtain ⟨after, ran, _⟩ := refused
      rw [gone] at ran
      cases ran
    · refine not_cleanlyRefused_of_removed heldNode bounded deep stored
        (fun code value after ran => ?_) refused
      rw [ran] at same
      rcases btreePop_run valid proper enough heldNode bounded small
        (noStray_of_stored bounded stored) deep with
        ⟨early, _⟩ | ⟨_, settled⟩
      · exact absurd ⟨stored, granted⟩ early
      · cases outcomeOf :
          settleAll 510 (repairs 127 h (Placed.tree h node) last) (answers.drop h) with
        | stuck =>
            rw [outcomeOf] at settled
            rw [settled] at same
            cases same
        | broken =>
            rw [outcomeOf] at settled
            obtain ⟨_, final, popped, _, left⟩ := settled
            rw [popped] at same
            injection same with _ states
            rw [states]
            exact left
        | done rest =>
            rw [outcomeOf] at settled
            obtain ⟨_, final, _, popped, later, _, next, _, block, target, heldNext, confined, _⟩ :=
              settled
            rw [popped] at same
            injection same with _ states
            rw [states]
            refine ⟨next, block, heldNext.stored, ?_, fun other member outside =>
              (confined.kept other member outside).2⟩
            rw [target]
            exact absent_remove bounded
  · intro noStray
    rcases btreePop_run valid proper enough heldNode bounded small noStray deep with
      ⟨_, code, after, ran, _, named, next, block, stored, tree, _⟩ | ⟨both, _⟩
    · refine ⟨after, by rw [ran, named granted], fun key => ?_⟩
      rw [← block, btreeGet_eq stored (by rwa [tree]) deep, block,
        btreeGet_eq heldNode.stored bounded deep, tree]
    · exact absurd both.1 absent

/-- Popping a key that would lie between two keys of the second leaf. -/
theorem btreePop_absent_iff_twin :
    CleanlyRefused twinMemory 2 1 (btreePop mockApi 2 1 8 twinMemory) := by
  have bounded : Searchable 1 (Placed.tree 1 twin) := by decide
  have small : Every (· ≤ 510) 1 (Placed.tree 1 twin) := by decide
  have clean : InnerClean twinMemory 8 1 twin := by
    refine ⟨fun below => ?_, fun _ _ _ _ => trivial⟩
    exact absurd (below (9, (⟨3, [(7, 70), (9, 90)]⟩ : Placed 0)) (by simp [twin])) (by decide)
  exact (btreePop_absent_iff mockContract.writableHolder twin_valid zeros_proper (by decide)
    (fun code member => (List.mem_replicate.mp (List.mem_of_mem_take member)).2)
    twin_held bounded small
    (by decide) clean (by decide)).mpr twin_noStray

/-- A memory with free blocks. -/
def blankMemory : Db (List Nat) := ⟨fun _ => Image.zero, [2, 3]⟩

/-- In a fresh tree the key 0 passes for the empty slot, and the removal leaves the arrays. -/
theorem btreePop_takes_empty_slot : ∃ after, btreeInit 1 blankMemory = .ok () after ∧
    btreePop mockApi 1 1 0 after = .stuck ∧
    ¬CleanlyRefused after 1 1 (btreePop mockApi 1 1 0 after) := by
  have popped : btreePop mockApi 1 1 0 (blankMemory.write 1 btreeInitImage) = .stuck := by rfl
  refine ⟨_, rfl, popped, ?_⟩
  rintro ⟨final, ran, _⟩
  rw [popped] at ran
  cases ran

end EverDb
