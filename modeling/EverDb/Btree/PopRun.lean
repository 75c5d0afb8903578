import EverDb.Btree.Rebalance

/-!
# btree_pop on a tree

The recursive call removes the key below one child; its return code says whether the
node repairs that child. What a call leads to is composed level by level.
-/

namespace EverDb

open Foundation BPlus

variable {ρ : Type} {api : BlockApi (Db ρ)} {db middle after : Db ρ} {h root k separator : Nat}
  {held writable : Set Nat} {answers : List Int} {contract : WritableContract api}
  {front back : List (Nat × Ref (h + 1))} {child : Placed h} {node : Placed (h + 1)}

theorem Foundation.BPlus.Enters.trees {entries : List (Nat × Ref (h + 1))}
    (enters : Enters k entries front (separator, child) back) :
    Enters k (Placed.trees h entries) (Placed.trees h front) (separator, Placed.tree h child)
      (Placed.trees h back) := by
  obtain ⟨shape, skipped, reached⟩ := enters
  refine ⟨?_, ?_, reached⟩
  · rw [shape]
    simp [Placed.trees]
  · intro other member
    obtain ⟨entry, inside, rfl⟩ := List.mem_map.mp member
    exact skipped entry inside

/-- The slots behind the keys are read from the blocks of the tree. -/
theorem NoStray.exchange {node : Placed h} {result : Nat} (noStray : NoStray db k h node)
    (copied : middle.data result = db.data node.block)
    (same : ∀ block ∈ Placed.below h node, middle.data block = db.data block) :
    NoStray middle k h (⟨result, node.entries⟩ : Placed h) := by
  induction h generalizing result with
  | zero =>
      intro below
      rw [copied]
      exact noStray below
  | succ h ih =>
      refine ⟨fun below => ?_, fun front entry back enters => ?_⟩
      · rw [copied]
        exact noStray.1 below
      · have member : entry ∈ node.entries := by
          rw [enters.shape]
          simp
        have inside : ∀ block ∈ Placed.blocks h entry.2, middle.data block =
            db.data block := fun block under =>
          same block (List.mem_flatMap.mpr ⟨entry, member, under⟩)
        exact ih (noStray.2 front entry back enters)
          (inside _ (Placed.block_mem entry.2)) fun block under =>
          inside block (by rw [Placed.blocks_eq]; exact List.mem_cons_of_mem _ under)

section Routing

variable {tree outer behind : BPlus Nat Nat (h + 1)} {inner : BPlus Nat Nat h}

/-- A key is stored where the search goes. -/
theorem stored_routed (enters : Enters k tree outer (separator, inner) behind)
    (bounded : Searchable (h + 1) tree) : k ∈ leafKeys (h + 1) tree ↔ k ∈ leafKeys h inner := by
  obtain ⟨rfl, skipped, reached⟩ := enters
  rw [mem_leafKeys, mem_leafKeys]
  constructor
  · rintro ⟨value, member⟩
    exact ⟨value, bounded.routed skipped reached member⟩
  · rintro ⟨value, member⟩
    exact ⟨value, mem_pairs_succ.mpr ⟨(separator, inner), by simp, member⟩⟩

/-- A key that is missing from the child the search goes to is missing. -/
theorem absent_routed {next : BPlus Nat Nat h}
    (enters : Enters k tree outer (separator, inner) behind)
    (bounded : Searchable (h + 1) tree) (absent : k ∉ leafKeys h next) (label : Nat) :
    k ∉ leafKeys (h + 1) (outer ++ [(label, next)] ++ behind : BPlus Nat Nat (h + 1)) := by
  obtain ⟨before, beyond⟩ := enters.cut.apart bounded
  intro stored
  obtain ⟨value, member⟩ := mem_leafKeys.mp stored
  rw [pairs_append, pairs_append, List.mem_append, List.mem_append] at member
  rcases member with (inOuter | inNext) | inBehind
  · exact before _ inOuter rfl
  · obtain ⟨entry, here, inside⟩ := mem_pairs_succ.mp inNext
    rw [List.mem_singleton] at here
    subst here
    exact absent (mem_leafKeys.mpr ⟨value, inside⟩)
  · exact beyond _ inBehind rfl

theorem absent_below (bounded : Searchable (h + 1) tree) (below : ∀ entry ∈ tree, entry.1 < k) :
    k ∉ leafKeys (h + 1) tree := by
  intro stored
  obtain ⟨value, member⟩ := mem_leafKeys.mp stored
  obtain ⟨entry, inside, under⟩ := mem_pairs_succ.mp member
  exact absurd (below entry inside)
    (not_lt_of_ge ((bounded.2 entry inside).1 k (mem_leafKeys.mpr ⟨value, under⟩)))

end Routing

/-- The keys under a child are above the separators before it. -/
theorem Foundation.BPlus.Bounded.above_front {front back : List (Nat × Ref (h + 1))}
    {entry : Nat × Ref (h + 1)}
    (bounded : Searchable (h + 1) (Placed.trees h (front ++ [(separator, child)] ++ back)))
    (member : entry ∈ front) {key : Nat}
    (stored : key ∈ leafKeys h (Placed.tree h child)) : entry.1 < key := by
  have shape : Placed.trees h (front ++ [(separator, child)] ++ back) =
      Placed.trees h front ++ (separator, Placed.tree h child) :: Placed.trees h back := by
    simp [Placed.trees]
  rw [shape] at bounded
  exact ((List.pairwise_append.mp bounded.1).2.2 _ (List.mem_map.mpr ⟨entry, member, rfl⟩) _
    List.mem_cons_self).2 key stored

theorem Left.imp {node : Placed h} {result other : BPlus Nat Nat h → Prop}
    (left : Left held db node result after) (weaker : ∀ tree, result tree → other tree) :
    Left held db node other after := by
  obtain ⟨next, block, stored, reached, same⟩ := left
  exact ⟨next, block, stored, weaker _ reached, same⟩

/-- A tree left at the place of a child. -/
theorem Left.inParent {result : BPlus Nat Nat h → Prop}
    (trunk : Trunk held db h root (front ++ [(separator, child)] ++ back))
    (nodeAt :
      NodeAt (db.data root) (h + 1) (Placed.rows (h + 1) (front ++ [(separator, child)] ++ back)))
    (left : Left held db child result after) :
    Left held db (⟨root, front ++ [(separator, child)] ++ back⟩ : Placed (h + 1))
      (fun tree => ∃ next, result next ∧
        tree = Placed.trees h front ++ [(separator, next)] ++ Placed.trees h back) after := by
  obtain ⟨next, block, stored, reached, same⟩ := left
  have outer := Placed.not_mem_kids.mp trunk.apart
  rw [Placed.kids_single] at outer
  obtain ⟨groveFront, groveChild, apartChild⟩ := Grove.append.mp (Grove.append.mp trunk.grove).1
  have groveBack := (Grove.append.mp trunk.grove).2
  refine ⟨⟨root, front ++ [(separator, next)] ++ back⟩, rfl, ⟨?_, ?_⟩,
    ⟨_, reached, Placed.tree_split⟩, ?_⟩
  · have number : Placed.rows (h + 1) (front ++ [(separator, next)] ++ back) =
        Placed.rows (h + 1) (front ++ [(separator, child)] ++ back) := by
      rw [Placed.rows_single, Placed.rows_single, block]
    rw [Placed.row, number, same root trunk.mine outer.2.1]
    exact nodeAt
  · intro entry member
    rcases List.mem_append.mp member with early | inBack
    · rcases List.mem_append.mp early with inFront | here
      · refine (groveFront.stored entry inFront).congr fun block inside => ?_
        have inKids := Placed.mem_kids.mpr ⟨entry, inFront, inside⟩
        refine same block (groveFront.mine block inKids) fun inChild => apartChild block inKids ?_
        rw [Placed.kids_single]
        exact inChild
      · rw [List.mem_singleton.mp here]
        exact stored
    · refine (groveBack.1.stored entry inBack).congr fun block inside => ?_
      have inKids := Placed.mem_kids.mpr ⟨entry, inBack, inside⟩
      refine same block (groveBack.1.mine block inKids) fun inChild => groveBack.2 block ?_ inKids
      rw [Placed.mem_kids_append, Placed.kids_single]
      exact .inr inChild
  · intro block member outside
    rw [Placed.blocks_succ, List.mem_cons, not_or, Placed.not_mem_kids,
      Placed.kids_single] at outside
    exact same block member outside.2.2.1

/-- What a call leads to, seen from a tree that other calls have moved. -/
theorem PopSpec.after_change {heldMiddle writableMiddle : Set Nat} {tree moved : Placed h}
    {outcome : Outcome (Db ρ) (Int × Nat)} (block : Node.block moved = Node.block tree)
    (listed : Placed.tree h moved = Placed.tree h tree)
    (confined : Confined held heldMiddle db middle (Placed.blocks h tree) (Placed.blocks h moved))
    (owned : ∀ block ∈ held, block ∉ Placed.below h tree → block ∈ writable →
      block ∈ writableMiddle)
    (heldMoved : Placed.Held heldMiddle middle h moved)
    (spec : PopSpec contract heldMiddle writableMiddle answers middle moved k outcome) :
    PopSpec contract held writable answers db tree k outcome := by
  have outside : ∀ other ∈ held, other ∉ Placed.blocks h tree →
      other ∈ heldMiddle ∧ other ∉ Placed.blocks h moved ∧ middle.data other = db.data other := by
    intro other member apart
    obtain ⟨kept, same⟩ := confined.kept other member apart
    exact ⟨kept, fun inside => (confined.fresh other inside).elim apart fun absent =>
      absent member, same⟩
  have left : ∀ {result : BPlus Nat Nat h → Prop} {after : Db ρ},
      Left heldMiddle middle moved result after → Left held db tree result after := by
    rintro result after ⟨next, nextBlock, stored, reached, same⟩
    refine ⟨next, nextBlock.trans block, stored, reached, fun other member apart => ?_⟩
    obtain ⟨kept, still, equal⟩ := outside other member apart
    exact (same other kept still).trans equal
  rw [PopSpec, listed] at spec
  rcases spec with ⟨absent, code, after, ran, failed, named, untouched⟩ | ⟨present, settled⟩
  · exact .inl ⟨absent, code, after, ran, failed, named, left untouched⟩
  · refine .inr ⟨present, ?_⟩
    cases outcomeOf : settleAll 510 (repairs 127 h (Placed.tree h tree) k) (answers.drop h) with
    | stuck =>
        rw [outcomeOf] at settled
        exact settled
    | broken =>
        rw [outcomeOf] at settled
        obtain ⟨code, after, ran, failed, gone⟩ := settled
        exact ⟨code, after, ran, failed, left gone⟩
    | done rest =>
        rw [outcomeOf] at settled
        obtain ⟨value, after, stored, ran, later, writableLater, next, valid, nextBlock,
            tree', heldNext,
          call, ownedLater⟩ := settled
        refine ⟨value, after, stored, ran, later, writableLater, next, valid,
          nextBlock.trans block, tree',
          heldNext, confined.trans call, fun other member apart writableOther => ?_⟩
        have middleOwned := owned other member apart writableOther
        by_cases isRoot : other = Node.block tree
        · rw [isRoot, ← block] at middleOwned ⊢
          have distinct := heldMoved.distinct
          rw [Placed.blocks_eq, List.nodup_cons] at distinct
          exact ownedLater _ (heldMoved.mine _ (Placed.block_mem moved)) distinct.1 middleOwned
        · obtain ⟨kept, still, _⟩ := outside other member (by
            rw [Placed.blocks_eq, List.mem_cons, not_or]
            exact ⟨isRoot, apart⟩)
          rw [Placed.blocks_eq, List.mem_cons, not_or] at still
          exact ownedLater other kept still.2 middleOwned

/-- The rest of `btree_pop` after the recursive call. -/
def popTail (api : BlockApi (Db ρ)) (root b child0 : Nat) (result : Int × Nat) :
    Code (Db ρ) (Int × Nat) :=
  if result.1 = 0 then do
    labelChild root b child0
    pure (0, result.2)
  else if result.1 = edbErrorBtreeEmpty then btreeRebalance api root b child0 result.2
  else pure (result.1, 0)

/-- A child whose removal made it not too small still has entries. -/
theorem remove_filled {tree : BPlus Nat Nat h} (bounded : Searchable h tree)
    (stored : k ∈ leafKeys h tree)
    (kept : short 127 h tree k = false) : remove 127 h tree k ≠ [] := by
  intro empty
  have length := remove_length 127 bounded stored
  rw [empty, List.length_nil, kept] at length
  cases h with
  | zero =>
      have wide := of_decide_eq_false kept
      simp at length
      omega
  | succ h =>
      simp at length
      obtain ⟨front, separator, child, back, enters, _⟩ := bounded.enters stored
      have count := congrArg List.length enters.shape
      rw [← length] at count
      simp at count

theorem settleAll_single (cap : Nat) (repair : Repair) (answers : List Int) :
    settleAll cap [repair] answers = settle cap repair answers := by
  rw [settleAll]
  cases settle cap repair answers <;> rfl

/-- The repair, or the new separator, after the key has been removed below a child. -/
theorem popTail_done (value : Nat) {rest : List Int} {old : Placed h}
    (valid : contract.Valid held writable rest db)
    (proper : ∀ code ∈ rest, code ≠ edbErrorBtreeEmpty)
    (enough : 3 ≤ rest.length)
    (bounded : Searchable (h + 1) (Placed.trees h (front ++ [(separator, old)] ++ back)))
    (enters : Enters k (front ++ [(separator, old)] ++ back) front (separator, old) back)
    (present : k ∈ leafKeys h (Placed.tree h old))
    (reached : Placed.tree h child = remove 127 h (Placed.tree h old) k)
    (small : Every (· ≤ 510) (h + 1) (Placed.trees h (front ++ [(separator, old)] ++ back)))
    (trunk : Trunk held db h root (front ++ [(separator, child)] ++ back))
    (nodeAt :
      NodeAt (db.data root) (h + 1) (Placed.rows (h + 1) (front ++ [(separator, child)] ++ back)))
    (owned : child.block ∈ writable) {step : List Repair}
    (steps : (if short 127 h (Placed.tree h old) k then
      [repairOf 127 ((Placed.tree h old).length - 1)
        (Placed.trees h (front ++ [(separator, old)] ++ back)).length
        (beside (Placed.trees h front) (Placed.trees h back))] else []) = step) :
    RebalanceSpec contract held writable db root (front ++ [(separator, child)] ++ back)
      (remove 127 (h + 1) (Placed.trees h (front ++ [(separator, old)] ++ back)) k)
      (short 127 (h + 1) (Placed.trees h (front ++ [(separator, old)] ++ back)) k)
      (step.any Repair.clears) value
      (popTail api root front.length child.block
        (if short 127 h (Placed.tree h old) k then edbErrorBtreeEmpty else 0, value) db)
      (settleAll 510 step rest) := by
  let tree := Placed.trees h (front ++ [(separator, old)] ++ back)
  have entersTree :
      Enters k tree (Placed.trees h front) (separator, Placed.tree h old) (Placed.trees h back) :=
    enters.trees
  have inTree : (separator, Placed.tree h old) ∈ tree := entersTree.cut.mem_child
  have inner := (bounded.2 _ inTree).2
  have count : tree.length = (front ++ [(separator, child)] ++ back).length := by
    simp [tree, Placed.trees]
  have length : (front ++ [(separator, child)] ++ back).length ≤ 510 := count ▸ small.1
  by_cases few : short 127 h (Placed.tree h old) k = true
  · have width : (Placed.tree h old).length - 1 = child.entries.length := by
      rw [← Placed.tree_length, reached, remove_length _ inner present, if_pos (.inr few)]
    have lessOld : (Placed.tree h old).length ≤ 510 := (every_iff.mp (small.2 _ inTree)).1
    have single :
        step = [repairOf 127 child.entries.length (front ++ [(separator, child)] ++ back).length
        (beside (Placed.trees h front) (Placed.trees h back))] := by
      rw [← width, ← count, ← steps]
      exact if_pos few
    have again : short 127 (h + 1) tree k = (repairOf 127 child.entries.length
        (front ++ [(separator, child)] ++ back).length
        (beside (Placed.trees h front) (Placed.trees h back))).again := by
      rw [short_succ entersTree, few, Bool.true_and, width, count]
    have target : remove 127 (h + 1) tree k =
        BPlus.rebalance 127 (Placed.trees h front) separator (Placed.tree h child)
          (Placed.trees h back) := by
      rw [remove_short entersTree few, reached]
    have start : popTail api root front.length child.block (edbErrorBtreeEmpty, value) db =
        btreeRebalance api root front.length child.block value db := rfl
    rw [single, settleAll_single, List.any_cons, List.any_nil, Bool.or_false, again, target,
      if_pos few, start]
    refine btreeRebalance_run valid proper enough trunk nodeAt length (by omega)
      (fun entry member => ?_) owned
    rw [← Placed.tree_length]
    have inOther : (entry.1, Placed.tree h entry.2) ∈ tree := by
      refine List.mem_map.mpr ⟨entry, ?_, rfl⟩
      rcases List.mem_append.mp member with inFront | inBack
      · simp [inFront]
      · simp [inBack]
    exact (every_iff.mp (small.2 _ inOther)).1
  · have kept : short 127 h (Placed.tree h old) k = false := by simpa using few
    have none : step = [] := steps.symm.trans (if_neg few)
    have again : short 127 (h + 1) tree k = false := by
      rw [short_succ entersTree, kept]
      rfl
    have filled : child.entries ≠ [] := by
      have some := remove_filled inner present kept
      rw [← reached] at some
      intro empty
      apply some
      rw [← List.length_eq_zero_iff, Placed.tree_length, empty, List.length_nil]
    have target : remove 127 (h + 1) tree k = Placed.trees h front ++
        [(BPlus.lastKey separator (Placed.tree h child), Placed.tree h child)] ++
        Placed.trees h back := by
      rw [remove_kept entersTree kept, reached]
      simp [labelled]
    obtain ⟨image, ran, trunkAfter, nodeAtAfter⟩ :=
      labelChild_run trunk nodeAt length filled separator
    rw [none, again, if_neg few, target]
    refine ⟨_, held, writable, _, ?_, contract.write valid trunk.mine image, trunkAfter, ?_,
      Placed.tree_split, ?_, fun _ _ _ member => member⟩
    · have start : popTail api root front.length child.block (0, value) db =
          (labelChild root front.length child.block >>= fun _ => pure (0, value)) db := rfl
      rw [start, Code.bind_ok ran]
      rfl
    · rw [Db.write_data_self]
      exact nodeAtAfter
    · have same : Placed.kids h
          (front ++ [(BPlus.lastKey separator (Placed.tree h child), child)] ++ back) =
          Placed.kids h (front ++ [(separator, child)] ++ back) := Placed.kids_relabel (by simp)
      rw [same]
      exact Confined.write List.mem_cons_self image

/-- The tail of `btree_pop`, after any recursive call. -/
theorem popTail_run {outcome : Outcome (Db ρ) (Int × Nat)}
    (spec : PopSpec contract held writable answers db child k outcome)
    (proper : ∀ code ∈ answers, code ≠ edbErrorBtreeEmpty) (enough : popCost h + 3 ≤ answers.length)
    (bounded : Searchable (h + 1) (Placed.trees h (front ++ [(separator, child)] ++ back)))
    (enters : Enters k (front ++ [(separator, child)] ++ back) front (separator, child) back)
    (small : Every (· ≤ 510) (h + 1) (Placed.trees h (front ++ [(separator, child)] ++ back)))
    (trunk : Trunk held db h root (front ++ [(separator, child)] ++ back))
    (nodeAt :
      NodeAt (db.data root) (h + 1) (Placed.rows (h + 1) (front ++ [(separator, child)] ++ back)))
    (owned : child.block ∈ writable) :
    PopSpec contract held writable (0 :: answers) db
      (⟨root, front ++ [(separator, child)] ++ back⟩ : Placed (h + 1)) k
      (Code.andThen (fun _ => outcome) (popTail api root front.length child.block) db) := by
  have routed := stored_routed enters.trees bounded
  have granted : (∀ code ∈ ((0 : Int) :: answers).take (h + 1), code = 0) ↔
      ∀ code ∈ answers.take h, code = 0 := by
    simp
  rw [PopSpec, Placed.tree_succ, routed, granted]
  rcases spec with ⟨absent, code, after, ran, failed, named, left⟩ | ⟨present, settled⟩
  · refine .inl ⟨absent, code, after, ?_, failed, named, (left.inParent trunk nodeAt).imp ?_⟩
    · rw [ran]
      change popTail api root front.length child.block (code, 0) after = _
      rw [popTail, if_neg failed.1, if_neg failed.2]
      rfl
    · rintro _ ⟨next, rfl, rfl⟩
      exact Placed.tree_split.symm
  · refine .inr ⟨present, ?_⟩
    obtain ⟨step, steps⟩ : ∃ step, (if short 127 h (Placed.tree h child) k then
      [repairOf 127 ((Placed.tree h child).length - 1)
        (Placed.trees h (front ++ [(separator, child)] ++ back)).length
        (beside (Placed.trees h front) (Placed.trees h back))] else []) = step := ⟨_, rfl⟩
    rw [repairs_succ enters.trees, steps, settleAll_append, List.drop_succ_cons]
    cases below : settleAll 510 (repairs 127 h (Placed.tree h child) k) (answers.drop h) with
    | stuck =>
        rw [below] at settled
        change Code.andThen _ _ db = .stuck
        simp only [Code.andThen, settled]
    | broken =>
        rw [below] at settled
        obtain ⟨code, after, ran, failed, left⟩ := settled
        refine ⟨code, after, ?_, failed, (left.inParent trunk nodeAt).imp ?_⟩
        · rw [ran]
          change popTail api root front.length child.block (code, 0) after = _
          rw [popTail, if_neg failed.1, if_neg failed.2]
          rfl
        · rintro _ ⟨next, absent, rfl⟩
          exact absent_routed enters.trees bounded absent separator
    | done rest =>
        rw [below] at settled
        obtain ⟨value, after, stored, ran, later, writableLater, next, valid, block,
            reached, heldNext, call,
          ownedLater⟩ := settled
        obtain ⟨trunkNext, nodeAtNext, confined⟩ := trunk.callChild nodeAt call heldNext block
        have ownedNext : next.block ∈ writableLater := by
          rw [block]
          have distinct := trunk.child.distinct
          rw [Placed.blocks_eq, List.nodup_cons] at distinct
          exact ownedLater _ (trunk.child.mine _ (Placed.block_mem child)) distinct.1 owned
        obtain ⟨used, among⟩ := settleAll_done below
        have atMost := repairs_length 127 (Placed.tree h child) k
        have left : 3 ≤ rest.length := by
          rw [List.length_drop] at used
          rw [popCost] at enough
          omega
        have properRest : ∀ code ∈ rest, code ≠ edbErrorBtreeEmpty := fun code member =>
          proper code (List.mem_of_mem_drop (among code member))
        have spec :=
          popTail_done (if (repairs 127 h (Placed.tree h child) k).any Repair.clears then 0
          else value) valid properRest left bounded enters present.1 reached small trunkNext
            nodeAtNext ownedNext
          steps
        rw [block] at spec
        have start :
            Code.andThen (fun _ => outcome) (popTail api root front.length child.block) db =
            popTail api root front.length child.block (if short 127 h (Placed.tree h child) k then
              edbErrorBtreeEmpty
                else 0, if (repairs 127 h (Placed.tree h child) k).any Repair.clears then 0
              else value) after := by
          rw [ran]
          rfl
        rw [start]
        dsimp only
        cases last : settleAll 510 step rest with
        | stuck =>
            rw [last] at spec
            exact spec
        | broken =>
            rw [last] at spec
            obtain ⟨code, final, others, ranFinal, failed, nodeAtFinal, storedFinal, fewer, same⟩ :=
              spec
            refine ⟨code, final, ranFinal, failed, ⟨root, others⟩, rfl,
              ⟨nodeAtFinal, storedFinal⟩, ?_, ?_⟩
            · have gone : k ∉ leafKeys h (Placed.tree h next) := by
                rw [reached]
                exact absent_remove (bounded.2 _ enters.trees.cut.mem_child).2
              have absent := absent_routed enters.trees bounded gone separator
              rw [← Placed.tree_split] at absent
              intro present
              obtain ⟨found, member⟩ := mem_leafKeys.mp present
              exact absent (mem_leafKeys.mpr ⟨found, fewer _ member⟩)
            · intro other member outside
              rw [Placed.blocks_succ] at outside
              obtain ⟨kept, equal⟩ := confined.kept other member outside
              refine (same other kept fun inside => ?_).trans equal
              exact (confined.fresh other inside).elim outside fun absent => absent member
        | done final =>
            rw [last] at spec
            obtain ⟨state, lastHeld, lastWritable, others, ranFinal, validFinal, trunkFinal,
                nodeAtFinal, target,
              confinedFinal, ownedFinal⟩ := spec
            refine ⟨value, state,
              mem_pairs_succ.mpr ⟨_, enters.trees.cut.mem_child, stored⟩, ?_, lastHeld,
              lastWritable, ⟨root, others⟩, validFinal, rfl, target, trunkFinal.toHeld nodeAtFinal,
              confined.trans confinedFinal, ?_⟩
            · rw [ranFinal, List.any_append]
              cases step.any Repair.clears with
              | true => simp
              | false => simp
            · intro other member outside writableOther
              have kids : Placed.below (h + 1)
                  (⟨root, front ++ [(separator, child)] ++ back⟩ : Placed (h + 1)) =
                  Placed.kids h (front ++ [(separator, child)] ++ back) := rfl
              rw [kids] at outside
              have ownedOther : other ∈ writableLater := by
                refine ownedLater other member (fun inside => outside ?_) writableOther
                refine Placed.mem_kids.mpr ⟨(separator, child), by simp, ?_⟩
                rw [Placed.blocks_eq]
                exact List.mem_cons_of_mem _ inside
              by_cases isRoot : other = root
              · rw [isRoot] at ownedOther ⊢
                exact ownedFinal root trunkNext.mine trunkNext.apart ownedOther
              · have apart :
                    other ∉ root :: Placed.kids h (front ++ [(separator, child)] ++ back) := by
                  rw [List.mem_cons, not_or]
                  exact ⟨isRoot, outside⟩
                refine ownedFinal other (confined.kept other member apart).1
                  (fun inside => ?_) ownedOther
                rcases confined.fresh other (List.mem_cons_of_mem _ inside) with came | absent
                · exact apart came
                · exact absent member

section Opening

variable {depth : Nat}

/-- `btree_pop` on a leaf. -/
theorem btreePop_zero {leaf : Placed 0} (stored : Placed.Stored db 0 leaf) :
    btreePop api (depth + 1) leaf.block k db = btreePopLeaf leaf.block k db := by
  have nodeAt := stored.root
  unfold btreePop
  simp only [Code.gets_bind, nodeAt.isBtree, nodeAt.magic, nodeMagic, Bool.not_true,
    Bool.false_eq_true, if_false, if_true]

/-- `btree_pop` on an internal node. -/
theorem btreePop_succ {row : List (Nat × Nat)} (nodeAt : NodeAt (db.data root) (h + 1) row) :
    btreePop api (depth + 1) root k db =
      (if edbBtreeSize ≤ listFind (db.data root) k then .diverge
      else if Bt.key (db.data root) (listFind (db.data root) k) < k then pure
        (edbErrorBtreeInvalidKey, 0)
      else .branch (api.modify (Bt.data (db.data root) (listFind (db.data root) k)))
        (fun code => pure (code, 0)) fun child0 => do
          editNode root fun bt => Bt.setData bt (listFind (db.data root) k) child0
          let result ← btreePop api depth child0 k
          popTail api root (listFind (db.data root) k) child0 result :
            Code (Db ρ) (Int × Nat)) db := by
  have other : edbMagicBtree ≠ edbMagicBtreeLeaf := by decide
  conv_lhs => unfold btreePop
  simp only [Code.gets_bind, nodeAt.isBtree, nodeAt.magic, nodeMagic, Bool.not_true,
    Bool.false_eq_true, if_false, if_neg other]
  rfl

/-- `btree_pop` goes to the child that the search enters. -/
theorem btreePop_entered
    (nodeAt :
      NodeAt (db.data root) (h + 1) (Placed.rows (h + 1) (front ++ [(separator, child)] ++ back)))
    (ascending : (front ++ [(separator, child)] ++ back).Pairwise fun left right =>
      left.1 < right.1)
    (small : (front ++ [(separator, child)] ++ back).length ≤ 510)
    (enters : Enters k (front ++ [(separator, child)] ++ back) front (separator, child) back) :
    btreePop api (depth + 1) root k db =
      (.branch (api.modify child.block) (fun code => pure (code, 0)) fun child0 => do
        editNode root fun bt => Bt.setData bt front.length child0
        let result ← btreePop api depth child0 k
        popTail api root front.length child0 result : Code (Db ρ) (Int × Nat)) db := by
  have rowAt := nodeAt
  have rowAscending : (Placed.rows (h + 1) (front ++ [(separator, child)] ++ back)).Pairwise
      fun left right => left.1 < right.1 := List.pairwise_map.mpr ascending
  rw [Placed.rows_single] at rowAt rowAscending
  have place : listFind (db.data root) k = front.length := by
    rw [rowAt.listFind rowAscending (fun other member => ?_) enters.reached, Placed.rows_length]
    obtain ⟨entry, inside, rfl⟩ := List.mem_map.mp member
    exact enters.skipped entry inside
  have found : Bt.entry (db.data root) front.length = (separator, child.block) := by
    have here := rowAt.entry
    rwa [Placed.rows_length] at here
  have key : Bt.key (db.data root) front.length = separator := congrArg Prod.fst found
  have number : Bt.data (db.data root) front.length = child.block := congrArg Prod.snd found
  have inside : ¬edbBtreeSize ≤ front.length := by
    simp only [List.length_append, List.length_cons, List.length_nil] at small
    simp only [edbBtreeSize]
    omega
  rw [btreePop_succ nodeAt, place, if_neg inside, key,
    if_neg (Nat.not_lt_of_le enters.reached), number]

/-- The place behind the keys of a node that are all below the one sought. -/
theorem listFind_below {node : Placed h} {row : List (Nat × Nat)}
    (nodeAt : NodeAt (db.data root) h row)
    (rowIs : row = node.row) (ascending : node.entries.Pairwise fun left right => left.1 < right.1)
    (below : ∀ entry ∈ node.entries, entry.1 < k) :
    listFind (db.data root) k = node.entries.length := by
  subst rowIs
  have rowAscending : node.row.Pairwise fun left right => left.1 < right.1 :=
    List.pairwise_map.mpr ascending
  rw [nodeAt.listFind_end rowAscending fun entry member => ?_, nodeAt.selfSize, Placed.row_length]
  obtain ⟨entry, inside, rfl⟩ := List.mem_map.mp member
  exact below entry inside

/-- The state in which the recursive call starts, once `edb_modify_block` has returned
`result` for the child. -/
structure Opened (contract : WritableContract api) (held writable : Set Nat)
    (answers : List Int) (db : Db ρ)
    (root : Nat) (front : List (Nat × Ref (h + 1))) (separator : Nat) (child : Placed h)
    (back : List (Nat × Ref (h + 1))) (result : Nat) (opened : Db ρ) : Prop where
  valid : contract.Valid (insert result (held \ {child.block}))
    (insert result (writable \ {child.block})) answers
    opened
  trunk : Trunk (insert result (held \ {child.block})) opened h root
    (front ++ [(separator, ⟨result, child.entries⟩)] ++ back)
  nodeAt : NodeAt (opened.data root) (h + 1)
    (Placed.rows (h + 1) (front ++ [(separator, ⟨result, child.entries⟩)] ++ back))
  confined : Confined held (insert result (held \ {child.block})) db opened
    (root :: Placed.kids h (front ++ [(separator, child)] ++ back))
    (root :: Placed.kids h (front ++ [(separator, ⟨result, child.entries⟩)] ++ back))
  copied : opened.data result = db.data child.block
  same : ∀ block ∈ Placed.below h child, opened.data block = db.data block

/-- Making the child writable and recording its number. -/
theorem Trunk.opened (trunk : Trunk held db h root (front ++ [(separator, child)] ++ back))
    (valid : contract.Valid held writable (0 :: answers) db)
    (nodeAt :
      NodeAt (db.data root) (h + 1) (Placed.rows (h + 1) (front ++ [(separator, child)] ++ back)))
    (small : (front ++ [(separator, child)] ++ back).length ≤ 510) :
    ∃ result opened, Opened contract held writable answers db root front separator child
      back result opened ∧
      ∀ rest : Nat → Code (Db ρ) (Int × Nat),
        (.branch (api.modify child.block) (fun code => pure (code, 0)) fun child0 => do
          editNode root fun bt => Bt.setData bt front.length child0
          rest child0 : Code (Db ρ) (Int × Nat)) db = rest result opened := by
  have childMine := trunk.child.mine _ (Placed.block_mem child)
  obtain ⟨result, middle, ran, fresh, validMiddle, copied, same⟩ := contract.modify valid childMine
  have limit := contract.bounded validMiddle result (Set.mem_insert _ _)
  obtain ⟨trunkMiddle, trunkOpen, nodeAtOpen, confined⟩ :=
    trunk.openChild nodeAt small fresh limit copied same
  have inOld : ∀ block ∈ Placed.blocks h child, block ∈ Placed.kids h
      (front ++ [(separator, child)] ++ back) :=
    fun block inside => Placed.mem_kids.mpr ⟨(separator, child), by simp, inside⟩
  refine ⟨result, middle.write root (Bt.setData (middle.data root) front.length result),
    ⟨contract.write validMiddle trunkMiddle.mine _, trunkOpen, nodeAtOpen, confined, ?_,
      fun block inside => ?_⟩,
    fun rest => ?_⟩
  · have apart : result ≠ root := fun equal => trunkOpen.apart (equal ▸
      Placed.mem_kids.mpr ⟨(separator, ⟨result, child.entries⟩), by simp, Placed.block_mem _⟩)
    rw [Db.write_data_of_ne apart]
    exact copied
  · have under : block ∈ Placed.blocks h child := by
      rw [Placed.blocks_eq]
      exact List.mem_cons_of_mem _ inside
    have apart : block ≠ root := fun equal => trunk.apart (equal ▸ inOld block under)
    rw [Db.write_data_of_ne apart]
    exact same block (trunk.grove.mine block (inOld block under))
  · rw [Code.branch_ok ran]
    rfl

end Opening

/-- The recursive call and the rest of `btree_pop`, seen from the node before the call. -/
theorem Opened.popSpec {result : Nat} {opened : Db ρ} {outcome : Outcome (Db ρ) (Int × Nat)}
    (starts : Opened contract held writable answers db root front separator child
      back result opened)
    (spec : PopSpec contract (insert result (held \ {child.block}))
      (insert result (writable \ {child.block}))
      answers opened (⟨result, child.entries⟩ : Placed h) k outcome)
    (proper : ∀ code ∈ answers, code ≠ edbErrorBtreeEmpty) (enough : popCost h + 3 ≤ answers.length)
    (bounded : Searchable (h + 1) (Placed.trees h (front ++ [(separator, child)] ++ back)))
    (enters : Enters k (front ++ [(separator, child)] ++ back) front (separator, child) back)
    (small : Every (· ≤ 510) (h + 1) (Placed.trees h (front ++ [(separator, child)] ++ back))) :
    PopSpec contract held writable (0 :: answers) db
      (⟨root, front ++ [(separator, child)] ++ back⟩ : Placed (h + 1)) k
      (Code.andThen (fun _ => outcome) (popTail api root front.length result) opened) := by
  have listed := Placed.trees_moved front back separator child result
  have whole := popTail_run spec proper enough (by rw [listed]; exact bounded)
    ⟨by simp, enters.skipped, enters.reached⟩ (by rw [listed]; exact small)
      starts.trunk starts.nodeAt
    (Set.mem_insert _ _)
  have listedTree :
      Placed.tree (h + 1) (⟨root, front ++ [(separator, ⟨result, child.entries⟩)] ++ back⟩ :
      Placed (h + 1)) = Placed.tree (h + 1) ⟨root, front ++ [(separator, child)] ++ back⟩ := listed
  have owned : ∀ block ∈ held, block ∉ Placed.kids h (front ++ [(separator, child)] ++ back) →
      block ∈ writable → block ∈ insert result (writable \ {child.block}) := by
    intro block member outside owned
    refine Set.mem_insert_of_mem _ ⟨owned, fun equal => outside ?_⟩
    rw [Set.mem_singleton_iff] at equal
    rw [equal]
    exact Placed.mem_kids.mpr ⟨(separator, child), by simp, Placed.block_mem child⟩
  refine PopSpec.after_change ?_ listedTree starts.confined owned
    (starts.trunk.toHeld starts.nodeAt) whole
  rfl

/-- `btree_pop` on a tree of the holder. -/
theorem btreePop_run {node : Placed h} {depth : Nat}
    (valid : contract.Valid held writable answers db)
    (proper : ∀ code ∈ answers, code ≠ edbErrorBtreeEmpty) (enough : popCost h ≤ answers.length)
    (heldNode : Placed.Held held db h node) (bounded : Searchable h (Placed.tree h node))
    (small : Every (· ≤ 510) h (Placed.tree h node)) (noStray : NoStray db k h node)
    (deep : h < depth) :
    PopSpec contract held writable answers db node k (btreePop api depth node.block k db) := by
  induction h generalizing held writable answers db depth with
  | zero =>
      obtain ⟨depth, rfl⟩ := Nat.exists_eq_succ_of_ne_zero (Nat.ne_of_gt deep)
      rw [btreePop_zero heldNode.stored]
      exact btreePopLeaf_run valid heldNode bounded small noStray
  | succ h ih =>
      obtain ⟨depth, rfl⟩ := Nat.exists_eq_succ_of_ne_zero
        (Nat.ne_of_gt (Nat.lt_of_le_of_lt (Nat.zero_le _) deep))
      obtain ⟨first, answers, rfl⟩ : ∃ first rest, answers = first :: rest := by
        cases answers with
        | nil => simp [popCost] at enough
        | cons first rest => exact ⟨first, rest, rfl⟩
      have nodeAt := heldNode.stored.root
      have ascending := Placed.ascending bounded
      have length : node.entries.length ≤ 510 := by
        rw [← Placed.tree_length]
        exact small.1
      rcases enters_or_below k node.entries with ⟨front, ⟨separator, child⟩, back, enters⟩ | below
      · have shape : node.entries = front ++ [(separator, child)] ++ back := by simp [enters.shape]
        obtain ⟨root, entries⟩ := node
        obtain rfl : entries = front ++ [(separator, child)] ++ back := shape
        have trunk := Trunk.of_held heldNode
        have start : btreePop api (depth + 1) root k db = _ :=
          btreePop_entered nodeAt ascending length enters
        rw [start]
        by_cases granted : first = 0
        · subst granted
          obtain ⟨result, opened, starts, ran⟩ := trunk.opened valid nodeAt length
          have routed : Enters k (Placed.trees h (front ++ [(separator, child)] ++ back))
              (Placed.trees h front)
              (separator, Placed.tree h child) (Placed.trees h back) := enters.trees
          have properRest : ∀ code ∈ answers, code ≠ edbErrorBtreeEmpty := fun code member =>
            proper code (List.mem_cons_of_mem _ member)
          simp only [popCost, List.length_cons] at enough
          have spec := ih starts.valid properRest (by simp only [popCost]; omega) starts.trunk.child
            (by rw [Placed.tree_moved]; exact (bounded.2 _ routed.cut.mem_child).2)
            (by rw [Placed.tree_moved]; exact small.2 _ routed.cut.mem_child)
            ((noStray.2 front _ back enters).exchange starts.copied starts.same)
            (Nat.lt_of_succ_lt_succ deep)
          rw [ran]
          exact starts.popSpec spec properRest (by simp only [popCost]; omega) bounded enters small
        · obtain ⟨after, ran, same⟩ := contract.modify_refused valid granted
            (trunk.child.mine _ (Placed.block_mem child))
          refine .inl ⟨fun both => granted (both.2 first (by simp)), first, after, ?_,
            ⟨granted, proper first (by simp)⟩, fun zeros => absurd (zeros first (by simp)) granted,
            ⟨root, front ++ [(separator, child)] ++ back⟩, rfl, ?_, rfl, fun block member _ =>
              same block member⟩
          · rw [Code.branch_error ran]
            rfl
          · exact heldNode.stored.congr fun block member => same block (heldNode.mine block member)
      · have absent : k ∉ leafKeys (h + 1) (Placed.tree (h + 1) node) := by
          refine absent_below bounded fun entry member => ?_
          obtain ⟨entry, inside, rfl⟩ := List.mem_map.mp member
          exact below entry inside
        obtain ⟨room, lower⟩ := noStray.1 below
        rw [btreePop_succ nodeAt, listFind_below nodeAt rfl ascending below,
          if_neg (Nat.not_le_of_lt room), if_pos lower]
        exact .inl ⟨fun both => absent both.1, edbErrorBtreeInvalidKey, db, rfl,
          failed_invalidKey, fun _ => rfl,
          node, rfl, heldNode.stored, rfl, fun _ _ _ => rfl⟩

end EverDb
