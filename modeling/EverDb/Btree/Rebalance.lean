import EverDb.Btree.Removal

/-!
# The repair of a child

`btreeRebalance` carries out the repair that the tree calls for, as far as its calls
succeed.
-/

namespace EverDb

open Foundation BPlus

variable {ρ : Type} {api : BlockApi (Db ρ)} {db after : Db ρ} {h root value : Nat}
  {held writable : Set Nat}
  {answers : List Int} {contract : WritableContract api} {front back : List (Nat × Ref (h + 1))}
  {lower upper : Nat × Ref (h + 1)}

/-- The end of a repair that joins two children. -/
def joinTail (api : BlockApi (Db ρ)) (root first lower upper value : Nat) :
    Code (Db ρ) (Int × Nat) :=
  .branch (btreeMerge api root first lower upper) (fun code => pure (code, 0)) fun _ => do
    let bt ← .gets fun db => db.data root
    if Bt.selfSize bt < edbBtreeSplit then pure (edbErrorBtreeEmpty, value)
    else pure (edbErrorBtreeEmpty, 0)

/-- What joining two children leads to, with the codes of the calls to come. -/
def JoinSpec (contract : WritableContract api) (held writable : Set Nat) (db : Db ρ) (root : Nat)
    (front : List (Nat × Ref (h + 1))) (lower upper : Nat × Ref (h + 1))
    (back : List (Nat × Ref (h + 1)))
    (value : Nat) (outcome : Outcome (Db ρ) (Int × Nat)) : RepairOutcome → Prop
  | .done rest => ∃ after, outcome = .ok (edbErrorBtreeEmpty,
        if edbBtreeSplit ≤ (front ++ [lower, upper] ++ back).length - 1 then 0 else value) after ∧
      contract.Valid (held \ {upper.2.block}) (writable \ {upper.2.block}) rest after ∧
      let next := front ++
        [Placed.labelled lower.1 ⟨lower.2.block, lower.2.entries ++ upper.2.entries⟩] ++ back
      Trunk (held \ {upper.2.block}) after h root next ∧
      NodeAt (after.data root) (h + 1) (Placed.rows (h + 1) next) ∧
      Confined held (held \ {upper.2.block}) db after
        (root :: Placed.kids h (front ++ [lower, upper] ++ back)) (root :: Placed.kids h next)
  | .broken => ∃ code after, outcome = .ok (code, 0) after ∧ Failed code ∧
      NodeAt (after.data lower.2.block) h (Placed.rows h (lower.2.entries ++ upper.2.entries)) ∧
      ∀ other ∈ held, other ≠ lower.2.block → after.data other = db.data other
  | .stuck => outcome = .stuck

/-- Joining two children. -/
theorem joinTail_run {third : Int} {rest : List Int} {left : Nat}
    (valid : contract.Valid held writable (third :: rest) db)
    (proper : third ≠ edbErrorBtreeEmpty)
    (trunk : Trunk held db h root (front ++ [lower, upper] ++ back))
    (nodeAt : NodeAt (db.data root) (h + 1) (Placed.rows (h + 1) (front ++ [lower, upper] ++ back)))
    (small : (front ++ [lower, upper] ++ back).length ≤ 510) {merged : Nat}
    (count : lower.2.entries.length + upper.2.entries.length = merged) :
    JoinSpec contract held writable db root front lower upper back value
      (joinTail api root front.length lower.2.block upper.2.block value db)
      (settle 510 (.merge merged left) (0 :: 0 :: third :: rest)) := by
  have settled : settle 510 (.merge merged left) (0 :: 0 :: third :: rest) =
      if 510 < merged then .stuck else if third ≠ 0 then .broken
        else if merged = 0 then .stuck else .done rest := by
    simp [settle]
  rw [settled]
  by_cases wide : 510 < merged
  · rw [if_pos wide]
    have sizes := trunk.window
    have lowerSize : Bt.selfSize (db.data lower.2.block) = lower.2.entries.length := by
      rw [sizes.1.stored.root.selfSize, Placed.row_length]
    have upperSize : Bt.selfSize (db.data upper.2.block) = upper.2.entries.length := by
      rw [sizes.2.stored.root.selfSize, Placed.row_length]
    have stuck : btreeMerge api root front.length lower.2.block upper.2.block db = .stuck :=
      btreeMerge_overflow (by rw [lowerSize, upperSize, count]; exact wide)
    change joinTail api root front.length lower.2.block upper.2.block value db = .stuck
    simp only [joinTail, Code.branch, stuck]
  · rw [if_neg wide]
    have fits : lower.2.entries.length + upper.2.entries.length ≤ 510 := by omega
    by_cases granted : third = 0
    · subst granted
      rw [if_neg (by simp)]
      rcases btreeMerge_run valid trunk nodeAt small fits with ⟨empty, stuck⟩ |
        ⟨filled, after, ran, validAfter, trunkAfter, nodeAtAfter, confined⟩
      · have none : merged = 0 := by
          rw [← count, ← List.length_append, empty]
          rfl
        rw [if_pos none]
        change joinTail api root front.length lower.2.block upper.2.block value db = .stuck
        simp only [joinTail, Code.branch, stuck]
      · have some : merged ≠ 0 := by
          rw [← count, ← List.length_append]
          exact fun zero => filled (List.length_eq_zero_iff.mp zero)
        rw [if_neg some]
        have size :
            Bt.selfSize (after.data root) = (front ++ [lower, upper] ++ back).length - 1 := by
          rw [nodeAtAfter.selfSize, Placed.rows_length]
          simp only [List.length_append, List.length_cons, List.length_nil]
          omega
        refine ⟨after, ?_, validAfter, trunkAfter, nodeAtAfter, confined⟩
        rw [joinTail, Code.branch_ok ran]
        change (if Bt.selfSize (after.data root) < edbBtreeSplit then _
          else _ : Code (Db ρ) (Int × Nat)) after = _
        rw [size]
        by_cases few : (front ++ [lower, upper] ++ back).length - 1 < 127
        · rw [if_pos few, if_neg (Nat.not_le_of_lt few)]
          rfl
        · rw [if_neg few, if_pos (Nat.le_of_not_lt few)]
          rfl
    · rw [if_pos granted]
      obtain ⟨after, ran, joinedAt, same⟩ := btreeMerge_refused valid granted trunk fits
      refine ⟨third, after, ?_, ⟨granted, proper⟩, joinedAt, same⟩
      rw [joinTail, Code.branch_error ran]
      rfl

/-- Writing the numbers of two adjacent children. -/
theorem NodeAt.setPair {bt : Image} {before behind : List (Nat × Nat)}
    {lowKey highKey low high : Nat}
    {first last : Nat} (nodeAt : NodeAt bt h (before ++ (lowKey, low) :: (highKey, high) :: behind))
    (small : (before ++ (lowKey, low) :: (highKey, high) :: behind).length ≤ 510)
    (firstBounded : first < 4294967296) (lastBounded : last < 4294967296) :
    NodeAt (Bt.setData (Bt.setData bt before.length first) (before.length + 1) last) h
        (before ++ (lowKey, first) :: (highKey, last) :: behind) ∧
      NodeAt (Bt.setData (Bt.setData bt (before.length + 1) last) before.length first) h
        (before ++ (lowKey, first) :: (highKey, last) :: behind) := by
  have shape : ∀ a b : Nat × Nat, before ++ a :: b :: behind = (before ++ [a]) ++ b :: behind := by
    intro a b
    simp
  have place : ∀ a : Nat × Nat, (before ++ [a]).length = before.length + 1 := by simp
  have small' : ∀ a b : Nat × Nat, (before ++ a :: b :: behind).length ≤ 510 := by
    intro a b
    simpa using small
  constructor
  · have one := nodeAt.setData small firstBounded
    rw [shape] at one
    have two := one.setData (by rw [← shape]; exact small' _ _) lastBounded
    rw [place] at two
    rw [shape]
    exact two
  · rw [shape] at nodeAt
    have one := nodeAt.setData (by rw [← shape]; exact small' _ _) lastBounded
    rw [place, ← shape] at one
    exact one.setData (small' _ _) firstBounded

/-- What a repair leads to, with the codes of the calls to come. -/
def RebalanceSpec (contract : WritableContract api) (held writable : Set Nat)
    (db : Db ρ) (root : Nat)
    (old : List (Nat × Ref (h + 1))) (target : BPlus Nat Nat (h + 1))
    (again clears : Bool) (value : Nat)
    (outcome : Outcome (Db ρ) (Int × Nat)) : RepairOutcome → Prop
  | .done rest => ∃ after later writableLater next,
      outcome = .ok (if again then edbErrorBtreeEmpty else 0, if clears then 0 else value) after ∧
      contract.Valid later writableLater rest after ∧ Trunk later after h root next ∧
      NodeAt (after.data root) (h + 1) (Placed.rows (h + 1) next) ∧ Placed.trees h next = target ∧
      Confined held later db after (root :: Placed.kids h old) (root :: Placed.kids h next) ∧
      ∀ block ∈ held, block ∉ Placed.kids h old → block ∈ writable → block ∈ writableLater
  | .broken => ∃ code after next, outcome = .ok (code, 0) after ∧ Failed code ∧
      NodeAt (after.data root) (h + 1) (Placed.rows (h + 1) next) ∧
      (∀ entry ∈ next, Placed.Stored after h entry.2) ∧
      (∀ pair ∈ pairs (h + 1) (Placed.trees h next), pair ∈ pairs (h + 1) (Placed.trees h old)) ∧
      ∀ block ∈ held, block ∉ root :: Placed.kids h old → after.data block = db.data block
  | .stuck => outcome = .stuck

/-- The tree of a node put together from two others. -/
theorem Placed.tree_append (left right : Placed h) (block : Nat) :
    Placed.tree h (⟨block, left.entries ++ right.entries⟩ : Placed h) =
      (Placed.tree h left ++ Placed.tree h right : BPlus Nat Nat h) := by
  cases h with
  | zero => rfl
  | succ h => exact List.map_append

/-- The trees of two adjacent children after a new division of their entries. -/
theorem Placed.trees_divided (low high : Nat) (cut : Nat) :
    Placed.trees h
      (front ++ [Placed.labelled lower.1 ⟨low, (lower.2.entries ++ upper.2.entries).take cut⟩,
        Placed.labelled upper.1 ⟨high, (lower.2.entries ++ upper.2.entries).drop cut⟩] ++ back) =
      Placed.trees h front ++
        [BPlus.labelled lower.1
          ((Placed.tree h lower.2 ++ Placed.tree h upper.2 : BPlus Nat Nat h).take cut),
          BPlus.labelled upper.1
            ((Placed.tree h lower.2 ++ Placed.tree h upper.2 : BPlus Nat Nat h).drop cut)] ++
        Placed.trees h back := by
  have whole := Placed.tree_append lower.2 upper.2 low
  have wholeHigh := Placed.tree_append lower.2 upper.2 high
  have lowTree := Placed.tree_take (⟨low, lower.2.entries ++ upper.2.entries⟩ : Placed h) cut
  have highTree := Placed.tree_drop (⟨high, lower.2.entries ++ upper.2.entries⟩ : Placed h) high cut
  rw [whole] at lowTree
  rw [wholeHigh] at highTree
  simp [Placed.trees, Placed.labelled, BPlus.labelled, lowTree, highTree]

/-- The tree of two adjacent children that have been joined. -/
theorem Placed.trees_joined (block : Nat) :
    Placed.trees h
      (front ++ [Placed.labelled lower.1 ⟨block, lower.2.entries ++ upper.2.entries⟩] ++ back) =
      Placed.trees h front ++
        [BPlus.labelled lower.1
          (Placed.tree h lower.2 ++ Placed.tree h upper.2 : BPlus Nat Nat h)] ++
        Placed.trees h back := by
  have whole := Placed.tree_append lower.2 upper.2 block
  simp [Placed.trees, Placed.labelled, BPlus.labelled, whole]

/-- A refused `edb_free_block` leaves the entries of the upper child in both children. -/
theorem Trunk.leftJoined (trunk : Trunk held db h root (front ++ [lower, upper] ++ back))
    (nodeAt : NodeAt (db.data root) (h + 1) (Placed.rows (h + 1) (front ++ [lower, upper] ++ back)))
    (joinedAt : NodeAt (after.data lower.2.block) h
      (Placed.rows h (lower.2.entries ++ upper.2.entries)))
    (same : ∀ other ∈ held, other ≠ lower.2.block → after.data other = db.data other) :
    let next :=
      front ++ [(lower.1, ⟨lower.2.block, lower.2.entries ++ upper.2.entries⟩), upper] ++ back
    NodeAt (after.data root) (h + 1) (Placed.rows (h + 1) next) ∧
      (∀ entry ∈ next, Placed.Stored after h entry.2) ∧
      (∀ pair ∈ pairs (h + 1) (Placed.trees h next),
        pair ∈ pairs (h + 1) (Placed.trees h (front ++ [lower, upper] ++ back))) ∧
      ∀ block ∈ held, block ∉ root :: Placed.kids h (front ++ [lower, upper] ++ back) →
        after.data block = db.data block := by
  have lowerIn : lower.2.block ∈ Placed.kids h (front ++ [lower, upper] ++ back) :=
    Placed.mem_kids.mpr ⟨lower, by simp, Placed.block_mem lower.2⟩
  have rootNe : root ≠ lower.2.block := fun equal => trunk.apart (equal ▸ lowerIn)
  have distinct := trunk.grove.distinct
  intro next
  refine ⟨?_, ?_, ?_, ?_⟩
  · rw [same root trunk.mine rootNe, Placed.rows_two]
    rw [Placed.rows_two] at nodeAt
    exact nodeAt
  · -- no block of another child, and none below the two, is the lower child's
    have elsewhere : ∀ entry ∈ front ++ [upper] ++ back, ∀ block ∈ Placed.blocks h entry.2,
        after.data block = db.data block := by
      intro entry member block inside
      have inOld : entry ∈ front ++ [lower, upper] ++ back := by
        rcases List.mem_append.mp member with rest | inBack
        · rcases List.mem_append.mp rest with inFront | here
          · simp [inFront]
          · simp [List.mem_singleton.mp here]
        · simp [inBack]
      refine same block (trunk.grove.mine block (Placed.mem_kids.mpr ⟨entry, inOld, inside⟩)) ?_
      rintro rfl
      have perm : (Placed.kids h (front ++ [lower, upper] ++ back)).Perm
          (Placed.blocks h lower.2 ++ Placed.kids h (front ++ [upper] ++ back)) := by
        have shape : front ++ [lower, upper] ++ back = front ++ lower :: ([upper] ++ back) := by
          simp
        have rest : front ++ [upper] ++ back = front ++ ([upper] ++ back) := by simp
        rw [shape, rest]
        exact List.perm_middle.flatMap_right _
      have apart := (List.nodup_append.mp (perm.nodup_iff.mp distinct)).2.2
      exact apart _ (Placed.block_mem lower.2) _ (Placed.mem_kids.mpr ⟨entry, member, inside⟩) rfl
    have window := (Grove.append.mp (Grove.append.mp trunk.grove).1).2.1
    intro entry member
    have stored : ∀ other ∈ front ++ [upper] ++ back, Placed.Stored after h other.2 := by
      intro other otherIn
      refine (trunk.grove.stored other ?_).congr (elsewhere other otherIn)
      rcases List.mem_append.mp otherIn with rest | inBack
      · rcases List.mem_append.mp rest with inFront | here
        · simp [inFront]
        · simp [List.mem_singleton.mp here]
      · simp [inBack]
    have shape : next = front ++ (lower.1, ⟨lower.2.block, lower.2.entries ++ upper.2.entries⟩) ::
        ([upper] ++ back) := by simp [next]
    rw [shape, List.mem_append, List.mem_cons] at member
    rcases member with inFront | rfl | inBack
    · exact stored entry (by simp [inFront])
    · refine Placed.Stored.of_content joinedAt window.stored (fun entry member => ?_)
        fun block inside => ?_
      · simpa [Placed.content] using member
      · have perm := Placed.kids_perm [lower, upper]
        have inKids := perm.mem_iff.mpr (List.mem_append_right _ inside)
        refine same block (window.mine block inKids) ?_
        rintro rfl
        have apart := (List.nodup_append.mp (perm.nodup_iff.mp window.distinct)).2.2
        exact apart _ (by simp [Placed.roots]) _ inside rfl
    · exact stored entry (by rw [List.append_assoc]; exact List.mem_append_right _ inBack)
  · intro pair member
    have whole := Placed.tree_append lower.2 upper.2 lower.2.block
    have old : ∀ first : Nat × Ref (h + 1), pairs (h + 1)
        (Placed.trees h (front ++ [first, upper] ++ back)) =
        pairs (h + 1) (Placed.trees h front) ++ (pairs h (Placed.tree h first.2) ++
          (pairs h (Placed.tree h upper.2) ++ pairs (h + 1) (Placed.trees h back))) := by
      intro first
      simp [pairs, Placed.trees]
    rw [old, whole, pairs_append] at member
    rw [old]
    simp only [List.mem_append] at member ⊢
    rcases member with inFront | (inLower | inUpper) | inUpper | inBack
    · exact .inl inFront
    · exact .inr (.inl inLower)
    · exact .inr (.inr (.inl inUpper))
    · exact .inr (.inr (.inl inUpper))
    · exact .inr (.inr (.inr inBack))
  · intro block member outside
    rw [List.mem_cons, not_or] at outside
    exact same block member fun equal => outside.2 (equal ▸ lowerIn)

/-- Joining two children is what the tree asks for. -/
theorem JoinSpec.rebalance {outcome : Outcome (Db ρ) (Int × Nat)} {settled : RepairOutcome}
    (trunk : Trunk held db h root (front ++ [lower, upper] ++ back))
    (nodeAt : NodeAt (db.data root) (h + 1) (Placed.rows (h + 1) (front ++ [lower, upper] ++ back)))
    (joined : JoinSpec contract held writable db root front lower upper back value outcome settled)
    {merged : Nat} :
    RebalanceSpec contract held writable db root (front ++ [lower, upper] ++ back)
      (Placed.trees h front ++
        [BPlus.labelled lower.1
          (Placed.tree h lower.2 ++ Placed.tree h upper.2 : BPlus Nat Nat h)] ++
        Placed.trees h back)
      true
        (Repair.clears (.merge merged ((front ++ [lower, upper] ++ back).length - 1))) value outcome
      settled := by
  cases settled with
  | stuck => exact joined
  | broken =>
      obtain ⟨code, after, ran, failed, joinedAt, same⟩ := joined
      exact ⟨code, after, _, ran, failed, trunk.leftJoined nodeAt joinedAt same⟩
  | done rest =>
      obtain ⟨after, ran, valid, trunkAfter, nodeAtAfter, confined⟩ := joined
      refine ⟨after, _, _, _, ?_, valid, trunkAfter, nodeAtAfter,
        Placed.trees_joined _, confined, ?_⟩
      · rw [ran]
        simp [Repair.clears]
      · intro block member outside owned
        refine ⟨owned, fun equal => outside ?_⟩
        rw [Set.mem_singleton_iff] at equal
        rw [equal]
        exact Placed.mem_kids.mpr ⟨upper, by simp, Placed.block_mem upper.2⟩

/-- A new division of the entries of two children is what the tree asks for. -/
theorem Exchanges.rebalance {cut : Nat} {call : Code (Db ρ) Unit}
    (exchanges : Exchanges contract held writable answers db root front lower upper back
      ((lower.2.entries ++ upper.2.entries).take cut)
        ((lower.2.entries ++ upper.2.entries).drop cut) call) :
    RebalanceSpec contract held writable db root (front ++ [lower, upper] ++ back)
      (Placed.trees h front ++
        [BPlus.labelled lower.1
          ((Placed.tree h lower.2 ++ Placed.tree h upper.2 : BPlus Nat Nat h).take cut),
          BPlus.labelled upper.1
            ((Placed.tree h lower.2 ++ Placed.tree h upper.2 : BPlus Nat Nat h).drop cut)] ++
        Placed.trees h back)
      false false value ((call >>= fun _ => pure (0, value)) db) (.done answers) := by
  obtain ⟨after, ran, valid, trunk, nodeAt, confined⟩ := exchanges
  refine ⟨after, held, writable, _, ?_, valid, trunk, nodeAt, Placed.trees_divided _ _ _, confined,
    fun _ _ _ owned => owned⟩
  rw [Code.bind_ok ran]
  rfl

/-- A repair after other changes to the node. -/
theorem RebalanceSpec.after_change {heldMiddle writableMiddle : Set Nat} {middle : Db ρ}
    {old oldMiddle : List (Nat × Ref (h + 1))} {target : BPlus Nat Nat (h + 1)}
    {again clears : Bool} {outcome : Outcome (Db ρ) (Int × Nat)} {settled : RepairOutcome}
    (trunk : Trunk heldMiddle middle h root oldMiddle)
    (confined : Confined held heldMiddle db middle (root :: Placed.kids h old)
      (root :: Placed.kids h oldMiddle))
    (owned : ∀ block ∈ held, block ∉ Placed.kids h old → block ∈ writable → block ∈ writableMiddle)
    (listed : Placed.trees h oldMiddle = Placed.trees h old)
    (spec : RebalanceSpec contract heldMiddle writableMiddle middle root oldMiddle target
      again clears value
      outcome settled) :
    RebalanceSpec contract held writable db root old target again clears value outcome settled := by
  have outside : ∀ block ∈ held, block ∉ root :: Placed.kids h old →
      block ∈ heldMiddle ∧ block ∉ root :: Placed.kids h oldMiddle ∧
      middle.data block = db.data block := by
    intro block member apart
    obtain ⟨kept, same⟩ := confined.kept block member apart
    exact ⟨kept, fun inside => (confined.fresh block inside).elim apart fun absent =>
      absent member, same⟩
  cases settled with
  | stuck => exact spec
  | broken =>
      obtain ⟨code, after, next, ran, failed, nodeAt, stored, fewer, same⟩ := spec
      refine ⟨code, after, next, ran, failed, nodeAt, stored, fun pair member => ?_,
        fun block member apart => ?_⟩
      · rw [← listed]
        exact fewer pair member
      · obtain ⟨kept, other, equal⟩ := outside block member apart
        exact (same block kept other).trans equal
  | done rest =>
      obtain ⟨after, later, writableLater, next, ran, valid, trunkNext, nodeAt, tree, call,
          ownedLater⟩ := spec
      refine ⟨after, later, writableLater, next, ran, valid, trunkNext, nodeAt, tree,
        confined.trans call, ?_⟩
      intro block member apart writableBlock
      have middleOwned := owned block member apart writableBlock
      by_cases isRoot : block = root
      · subst isRoot
        exact ownedLater block trunk.mine trunk.apart middleOwned
      · obtain ⟨kept, other, _⟩ :=
          outside block member (by rw [List.mem_cons, not_or]; exact ⟨isRoot, apart⟩)
        exact ownedLater block kept (fun inside =>
          other (List.mem_cons_of_mem _ inside)) middleOwned

/-- The repair of a child that has a child after it. -/
theorem btreeRepair_next (value : Nat) {third : Int} {lowNumber highNumber : Nat} {rest : List Int}
    (valid : contract.Valid held writable (third :: rest) db) (proper : third ≠ edbErrorBtreeEmpty)
    (trunk : Trunk held db h root (front ++ [lower, upper] ++ back))
    (nodeAt : NodeAt (db.data root) (h + 1) (Placed.rows (h + 1) front ++ (lower.1, lowNumber) ::
      (upper.1, highNumber) :: Placed.rows (h + 1) back))
    (small : (front ++ [lower, upper] ++ back).length ≤ 510) (room : lower.2.entries.length < 510)
    (most : upper.2.entries.length ≤ 510) :
    let repair := repairOf 127 lower.2.entries.length (front ++ [lower, upper] ++ back).length
      (beside (Placed.trees h front) (Placed.trees h (upper :: back)))
    RebalanceSpec contract held writable db root (front ++ [lower, upper] ++ back)
      (BPlus.rebalance 127 (Placed.trees h front) lower.1 (Placed.tree h lower.2)
        (Placed.trees h (upper :: back)))
      repair.again repair.clears value
      (btreeRepair api root front.length false lower.2.block upper.2.block value db)
      (settle 510 repair (0 :: 0 :: third :: rest)) := by
  have count : (Placed.rows (h + 1) front).length = front.length := Placed.rows_length front
  have written := (nodeAt.setPair (by
    rw [List.length_append, List.length_cons, List.length_cons, Placed.rows_length,
      Placed.rows_length]
    simp only [List.length_append, List.length_cons, List.length_nil] at small
    omega) (contract.bounded valid _ (trunk.window.1.mine _ (Placed.block_mem lower.2)))
    (contract.bounded valid _ (trunk.window.2.mine _ (Placed.block_mem upper.2)))).1
  rw [count, ← Placed.rows_two front back lower upper] at written
  -- the state after the two writes
  let named := db.write root
    (Bt.setData (Bt.setData (db.data root) front.length lower.2.block)
      (front.length + 1) upper.2.block)
  have namedAt :
      NodeAt (named.data root) (h + 1) (Placed.rows (h + 1) (front ++ [lower, upper] ++ back)) := by
    rw [Db.write_data_self]
    exact written
  have validNamed : contract.Valid held writable (third :: rest) named :=
    contract.write valid trunk.mine _
  have trunkNamed : Trunk held named h root (front ++ [lower, upper] ++ back) := trunk.write _
  have size : Bt.selfSize (named.data upper.2.block) = upper.2.entries.length := by
    rw [trunkNamed.window.2.stored.root.selfSize, Placed.row_length]
  have start : btreeRepair api root front.length false lower.2.block upper.2.block value db =
      (if edbBtreeSplit < Bt.selfSize (named.data upper.2.block) then do
        btreeSteal root front.length (front.length + 1) lower.2.block upper.2.block
        pure (0, value)
      else joinTail api root front.length lower.2.block upper.2.block value :
        Code (Db ρ) (Int × Nat)) named := by
    have state : (db.write root (Bt.setData (db.data root) front.length lower.2.block)).write root
        (Bt.setData
          ((db.write root (Bt.setData (db.data root) front.length lower.2.block)).data root)
          (front.length + 1) upper.2.block) = named := by
      rw [Db.write_write, Db.write_data_self]
    rw [← state]
    rfl
  have width := Placed.tree_length upper.2
  have lowerWidth := Placed.tree_length lower.2
  intro repair
  refine RebalanceSpec.after_change trunkNamed (Confined.write List.mem_cons_self _)
    (fun _ _ _ owned => owned) rfl ?_
  rw [start, size]
  by_cases steal : 127 < upper.2.entries.length
  · have kind : repair = .steal := by
      change (if 127 < (Placed.tree h upper.2).length then _ else _) = _
      rw [width, if_pos steal]
    have target : BPlus.rebalance 127 (Placed.trees h front) lower.1 (Placed.tree h lower.2)
        (Placed.trees h (upper :: back)) = Placed.trees h front ++
          [BPlus.labelled lower.1
            ((Placed.tree h lower.2 ++ Placed.tree h upper.2 : BPlus Nat Nat h).take
            (lower.2.entries.length + 1)),
          BPlus.labelled upper.1
            ((Placed.tree h lower.2 ++ Placed.tree h upper.2 : BPlus Nat Nat h).drop
            (lower.2.entries.length + 1))] ++ Placed.trees h back := by
      rw [← lowerWidth]
      change Placed.trees h front ++ (if 127 < (Placed.tree h upper.2).length then _
        else _) ++ _ = _
      rw [width, if_pos steal]
      rfl
    rw [kind, target, if_pos steal]
    exact (btreeSteal_next validNamed trunkNamed namedAt small room most (by omega)).rebalance
  · have kind : repair = .merge (lower.2.entries.length + upper.2.entries.length)
        ((front ++ [lower, upper] ++ back).length - 1) := by
      change (if 127 < (Placed.tree h upper.2).length then _
        else Repair.merge (_ + (Placed.tree h upper.2).length)
        _) = _
      rw [width, if_neg steal]
    have target : BPlus.rebalance 127 (Placed.trees h front) lower.1 (Placed.tree h lower.2)
        (Placed.trees h (upper :: back)) = Placed.trees h front ++
          [BPlus.labelled lower.1
            (Placed.tree h lower.2 ++ Placed.tree h upper.2 : BPlus Nat Nat h)] ++
          Placed.trees h back := by
      change Placed.trees h front ++ (if 127 < (Placed.tree h upper.2).length then _
        else _) ++ _ = _
      rw [width, if_neg steal]
      rfl
    rw [kind, target, if_neg steal]
    exact (joinTail_run validNamed proper trunkNamed namedAt small rfl).rebalance trunkNamed namedAt

/-- The repair of the last child. -/
theorem btreeRepair_previous (value : Nat) {third : Int} {lowNumber highNumber : Nat}
    {rest : List Int}
    (valid : contract.Valid held writable (third :: rest) db) (proper : third ≠ edbErrorBtreeEmpty)
    (trunk : Trunk held db h root (front ++ [lower, upper] ++ []))
    (nodeAt : NodeAt (db.data root) (h + 1) (Placed.rows (h + 1) front ++ (lower.1, lowNumber) ::
      (upper.1, highNumber) :: []))
    (small : (front ++ [lower, upper] ++ []).length ≤ 510) (room : upper.2.entries.length < 510)
    (most : lower.2.entries.length ≤ 510) :
    let repair := repairOf 127 upper.2.entries.length (front ++ [lower, upper] ++ []).length
      (beside (Placed.trees h (front ++ [lower])) [])
    RebalanceSpec contract held writable db root (front ++ [lower, upper] ++ [])
      (BPlus.rebalance 127 (Placed.trees h (front ++ [lower])) upper.1 (Placed.tree h upper.2) [])
      repair.again repair.clears value
      (btreeRepair api root (front.length + 1) true upper.2.block lower.2.block value db)
      (settle 510 repair (0 :: 0 :: third :: rest)) := by
  have count : (Placed.rows (h + 1) front).length = front.length := Placed.rows_length front
  have written := (nodeAt.setPair (by
    rw [List.length_append, List.length_cons, List.length_cons, Placed.rows_length, List.length_nil]
    simp only [List.length_append, List.length_cons, List.length_nil] at small
    omega) (contract.bounded valid _ (trunk.window.1.mine _ (Placed.block_mem lower.2)))
    (contract.bounded valid _ (trunk.window.2.mine _ (Placed.block_mem upper.2)))).2
  have rows := Placed.rows_two front [] lower upper
  rw [show Placed.rows (h + 1) ([] : List (Nat × Ref (h + 1))) = [] from rfl] at rows
  rw [count, ← rows] at written
  let named := db.write root
    (Bt.setData (Bt.setData (db.data root) (front.length + 1) upper.2.block)
      front.length lower.2.block)
  have namedAt :
      NodeAt (named.data root) (h + 1) (Placed.rows (h + 1) (front ++ [lower, upper] ++ [])) := by
    rw [Db.write_data_self]
    exact written
  have validNamed : contract.Valid held writable (third :: rest) named :=
    contract.write valid trunk.mine _
  have trunkNamed : Trunk held named h root (front ++ [lower, upper] ++ []) := trunk.write _
  have size : Bt.selfSize (named.data lower.2.block) = lower.2.entries.length := by
    rw [trunkNamed.window.1.stored.root.selfSize, Placed.row_length]
  have start : btreeRepair api root (front.length + 1) true upper.2.block lower.2.block value db =
      (if edbBtreeSplit < Bt.selfSize (named.data lower.2.block) then do
        btreeSteal root (front.length + 1) front.length upper.2.block lower.2.block
        pure (0, value)
      else joinTail api root front.length lower.2.block upper.2.block value :
        Code (Db ρ) (Int × Nat)) named := by
    have state :
        (db.write root (Bt.setData (db.data root) (front.length + 1) upper.2.block)).write root
        (Bt.setData
          ((db.write root (Bt.setData (db.data root) (front.length + 1) upper.2.block)).data root)
          front.length lower.2.block) = named := by
      rw [Db.write_write, Db.write_data_self]
    rw [← state]
    rfl
  have width := Placed.tree_length lower.2
  have shape : Placed.trees h (front ++ [lower]) =
      Placed.trees h front ++ [(lower.1, Placed.tree h lower.2)] := by
    simp [Placed.trees]
  intro repair
  refine RebalanceSpec.after_change trunkNamed (Confined.write List.mem_cons_self _)
    (fun _ _ _ owned => owned) rfl ?_
  rw [start, size]
  by_cases steal : 127 < lower.2.entries.length
  · have kind : repair = .steal := by
      change repairOf 127 _ _ (beside (Placed.trees h (front ++ [lower])) []) = _
      rw [shape, beside_previous, repairOf, width, if_pos steal]
    have target :
        BPlus.rebalance 127 (Placed.trees h (front ++ [lower])) upper.1 (Placed.tree h upper.2) [] =
        Placed.trees h front ++
          [BPlus.labelled lower.1
            ((Placed.tree h lower.2 ++ Placed.tree h upper.2 : BPlus Nat Nat h).take
            (lower.2.entries.length - 1)),
          BPlus.labelled upper.1
            ((Placed.tree h lower.2 ++ Placed.tree h upper.2 : BPlus Nat Nat h).drop
            (lower.2.entries.length - 1))] ++ Placed.trees h [] := by
      rw [shape, BPlus.rebalance, beside_previous]
      simp only [width, if_pos steal, Placed.trees, List.map_nil, List.append_nil]
    rw [kind, target, if_pos steal]
    exact (btreeSteal_previous validNamed trunkNamed namedAt small room most (by omega)).rebalance
  · have kind : repair = .merge (lower.2.entries.length + upper.2.entries.length)
        ((front ++ [lower, upper] ++ []).length - 1) := by
      change repairOf 127 _ _ (beside (Placed.trees h (front ++ [lower])) []) = _
      rw [shape, beside_previous, repairOf, width, if_neg steal, Nat.add_comm]
    have target :
        BPlus.rebalance 127 (Placed.trees h (front ++ [lower])) upper.1 (Placed.tree h upper.2) [] =
        Placed.trees h front ++
          [BPlus.labelled lower.1
            (Placed.tree h lower.2 ++ Placed.tree h upper.2 : BPlus Nat Nat h)] ++
          Placed.trees h [] := by
      rw [shape, BPlus.rebalance, beside_previous]
      simp only [width, if_neg steal, Placed.trees, List.map_nil, List.append_nil]
    rw [kind, target, if_neg steal]
    exact (joinTail_run validNamed proper trunkNamed namedAt small rfl).rebalance trunkNamed namedAt

/-- A call that fails before the repair has changed anything. -/
theorem RebalanceSpec.refused {old : List (Nat × Ref (h + 1))} {target : BPlus Nat Nat (h + 1)}
    {again clears : Bool} {outcome : Outcome (Db ρ) (Int × Nat)} {code : Int}
    (trunk : Trunk held db h root old)
    (nodeAt : NodeAt (db.data root) (h + 1) (Placed.rows (h + 1) old))
    (ran : outcome = .ok (code, 0) after) (failed : Failed code)
    (same : ∀ block ∈ held, after.data block = db.data block) :
    RebalanceSpec contract held writable db root old target again clears value outcome .broken := by
  refine ⟨code, after, old, ran, failed, ?_, fun entry member => ?_, fun _ member => member,
    fun block member _ => same block member⟩
  · rw [same root trunk.mine]
    exact nodeAt
  · refine (trunk.grove.stored entry member).congr fun block inside =>
      same block (trunk.grove.mine block ?_)
    exact Placed.mem_kids.mpr ⟨entry, member, inside⟩

theorem settle_refused {cap : Nat} {repair : Repair} {first second third : Int} {rest : List Int}
    (nonzero : first ≠ 0 ∨ second ≠ 0) :
    settle cap repair (first :: second :: third :: rest) = .broken := by
  cases repair with
  | alone => rfl
  | steal => rw [settle, if_neg fun zeros => nonzero.elim (· zeros.1) (· zeros.2)]
  | merge merged left => rw [settle, if_pos nonzero]

section Opening

variable {before behind : List (Nat × Ref (h + 1))} {label first : Nat} {other : Placed h}

/-- The children that a repair needs, made writable: the first one is already. -/
def openBoth (api : BlockApi (Db ρ)) (first second : Nat)
    (next : Nat → Nat → Code (Db ρ) (Int × Nat)) :
    Code (Db ρ) (Int × Nat) :=
  .branch (api.modify first) (fun code => pure (code, 0)) fun child0 =>
    .branch (api.modify second) (fun code => pure (code, 0)) fun child1 => next child0 child1

theorem openBoth_refused {one two : Int} {next : Nat → Nat → Code (Db ρ) (Int × Nat)}
    (valid : contract.Valid held writable (one :: two :: answers) db)
    (proper : one ≠ edbErrorBtreeEmpty ∧ two ≠ edbErrorBtreeEmpty) (mine : first ∈ held)
    (owned : first ∈ writable) (otherMine : other.block ∈ held) (nonzero : one ≠ 0 ∨ two ≠ 0) :
    ∃ code after, openBoth api first other.block next db = .ok (code, 0) after ∧ Failed code ∧
      ∀ block ∈ held, after.data block = db.data block := by
  by_cases refused : one ≠ 0
  · obtain ⟨after, ran, same⟩ := contract.modify_refused valid refused mine
    refine ⟨one, after, ?_, ⟨refused, proper.1⟩, same⟩
    rw [openBoth, Code.branch_error ran]
    rfl
  · have granted : one = 0 := Classical.not_not.mp refused
    have denied : two ≠ 0 := nonzero.resolve_left refused
    subst granted
    obtain ⟨middle, ran, validMiddle, sameMiddle⟩ := contract.modify_writable valid mine owned
    obtain ⟨after, ranOther, same⟩ := contract.modify_refused validMiddle denied otherMine
    refine ⟨two, after, ?_, ⟨denied, proper.2⟩, fun block member =>
      (same block member).trans (sameMiddle block member)⟩
    rw [openBoth, Code.branch_ok ran, Code.branch_error ranOther]
    rfl

theorem openBoth_run {next : Nat → Nat → Code (Db ρ) (Int × Nat)}
    (valid : contract.Valid held writable (0 :: 0 :: answers) db) (mine : first ∈ held)
    (owned : first ∈ writable)
    (trunk : Trunk held db h root (before ++ [(label, other)] ++ behind)) :
    ∃ result middle, openBoth api first other.block next db = next first result middle ∧
      let later := insert result (held \ {other.block})
      let writableLater := insert result (writable \ {other.block})
      let changed := before ++ [(label, (⟨result, other.entries⟩ : Placed h))] ++ behind
      contract.Valid later writableLater answers middle ∧ Trunk later middle h root changed ∧
        middle.data root = db.data root ∧
        Confined held later db middle (root :: Placed.kids h (before ++ [(label, other)] ++ behind))
          (root :: Placed.kids h changed) ∧
        ∀ block ∈ held, block ∉ Placed.kids h (before ++ [(label, other)] ++ behind) →
        block ∈ writable →
          block ∈ writableLater := by
  have otherMine := trunk.child.mine _ (Placed.block_mem other)
  obtain ⟨start, ran, validStart, sameStart⟩ := contract.modify_writable valid mine owned
  obtain ⟨result, middle, ranOther, fresh, validMiddle, copied, same⟩ :=
    contract.modify validStart otherMine
  have sameBoth : ∀ block ∈ held, middle.data block = db.data block := fun block member =>
    (same block member).trans (sameStart block member)
  obtain ⟨moved, call⟩ := trunk.child.exchange fresh (copied.trans (sameStart _ otherMine)) sameBoth
  obtain ⟨trunkMiddle, rootSame, confined⟩ := trunk.replaceChild label call moved
  refine ⟨result, middle, ?_, validMiddle, trunkMiddle, rootSame, confined, ?_⟩
  · rw [openBoth, Code.branch_ok ran, Code.branch_ok ranOther]
  · intro block member outside writableBlock
    refine Set.mem_insert_of_mem _ ⟨writableBlock, fun equal => outside ?_⟩
    rw [Set.mem_singleton_iff] at equal
    rw [equal]
    exact Placed.mem_kids.mpr ⟨(label, other), by simp, Placed.block_mem other⟩

end Opening

/-- The trees of some children, one of them moved to another block. -/
theorem Placed.trees_moved (front back : List (Nat × Ref (h + 1))) (label : Nat) (child : Placed h)
    (block : Nat) :
    Placed.trees h (front ++ [(label, (⟨block, child.entries⟩ : Placed h))] ++ back) =
      Placed.trees h (front ++ [(label, child)] ++ back) := by
  rw [Placed.tree_split, Placed.tree_split, Placed.tree_moved]

theorem Trunk.atUpper (trunk : Trunk held db h root (front ++ [lower, upper] ++ back)) :
    Trunk held db h root ((front ++ [lower]) ++ [upper] ++ back) := by
  have shape : front ++ [lower, upper] ++ back = (front ++ [lower]) ++ [upper] ++ back := by simp
  exact shape ▸ trunk

theorem Trunk.atLower (trunk : Trunk held db h root (front ++ [lower, upper] ++ back)) :
    Trunk held db h root (front ++ [lower] ++ (upper :: back)) := by
  have shape : front ++ [lower, upper] ++ back = front ++ [lower] ++ (upper :: back) := by simp
  exact shape ▸ trunk

section Calls

variable {one two third : Int} {rest : List Int}

/-- Making both children writable, and the repair of the lower one. -/
theorem openBoth_next (valid : contract.Valid held writable (one :: two :: third :: rest) db)
    (proper : one ≠ edbErrorBtreeEmpty ∧ two ≠ edbErrorBtreeEmpty)
    (last : third ≠ edbErrorBtreeEmpty)
    (trunk : Trunk held db h root (front ++ [lower, upper] ++ back))
    (nodeAt : NodeAt (db.data root) (h + 1) (Placed.rows (h + 1) (front ++ [lower, upper] ++ back)))
    (small : (front ++ [lower, upper] ++ back).length ≤ 510) (room : lower.2.entries.length < 510)
    (most : upper.2.entries.length ≤ 510) (owned : lower.2.block ∈ writable) :
    let repair := repairOf 127 lower.2.entries.length (front ++ [lower, upper] ++ back).length
      (beside (Placed.trees h front) (Placed.trees h (upper :: back)))
    RebalanceSpec contract held writable db root (front ++ [lower, upper] ++ back)
      (BPlus.rebalance 127 (Placed.trees h front) lower.1 (Placed.tree h lower.2)
        (Placed.trees h (upper :: back)))
      repair.again repair.clears value
      (openBoth api lower.2.block upper.2.block (fun child0 child1 =>
        btreeRepair api root front.length false child0 child1 value) db)
      (settle 510 repair (one :: two :: third :: rest)) := by
  intro repair
  have lowerMine := trunk.window.1.mine _ (Placed.block_mem lower.2)
  by_cases refused : one ≠ 0 ∨ two ≠ 0
  · obtain ⟨code, after, ran, failed, same⟩ := openBoth_refused valid proper lowerMine owned
      (trunk.window.2.mine _ (Placed.block_mem upper.2)) refused
    rw [settle_refused refused]
    exact RebalanceSpec.refused trunk nodeAt ran failed same
  · obtain ⟨rfl, rfl⟩ : one = 0 ∧ two = 0 := by simpa only [not_or, not_not] using refused
    obtain ⟨result, middle, ran, validMiddle, trunkMiddle, rootSame, confined, ownedLater⟩ :=
      openBoth_run valid lowerMine owned trunk.atUpper
    rw [ran]
    have moved := Placed.trees_moved (front ++ [lower]) back upper.1 upper.2 result
    have movedBack := Placed.trees_moved [] back upper.1 upper.2 result
    have still : ∀ entry : Nat × Ref (h + 1), (front ++ [lower]) ++ [entry] ++ back =
        front ++ [lower, entry] ++ back := by simp
    rw [still] at trunkMiddle moved
    rw [still, still] at confined
    rw [still] at ownedLater moved
    rw [Placed.rows_two] at nodeAt
    have spec :=
      btreeRepair_next value validMiddle last trunkMiddle (rootSame ▸ nodeAt)
        (by simpa using small) room most
    refine RebalanceSpec.after_change trunkMiddle confined ownedLater moved ?_
    rw [List.nil_append, List.singleton_append] at movedBack
    have counted :
        (front ++ [lower, (upper.1, (⟨result, upper.2.entries⟩ : Placed h))] ++ back).length =
        (front ++ [lower, upper] ++ back).length := by simp
    rw [movedBack, counted] at spec
    exact spec

/-- Making both children writable, and the repair of the upper one, which is the last. -/
theorem openBoth_previous (valid : contract.Valid held writable (one :: two :: third :: rest) db)
    (proper : one ≠ edbErrorBtreeEmpty ∧ two ≠ edbErrorBtreeEmpty)
    (last : third ≠ edbErrorBtreeEmpty)
    (trunk : Trunk held db h root (front ++ [lower, upper] ++ []))
    (nodeAt : NodeAt (db.data root) (h + 1) (Placed.rows (h + 1) (front ++ [lower, upper] ++ [])))
    (small : (front ++ [lower, upper] ++ []).length ≤ 510) (room : upper.2.entries.length < 510)
    (most : lower.2.entries.length ≤ 510) (owned : upper.2.block ∈ writable) :
    let repair := repairOf 127 upper.2.entries.length (front ++ [lower, upper] ++ []).length
      (beside (Placed.trees h (front ++ [lower])) [])
    RebalanceSpec contract held writable db root (front ++ [lower, upper] ++ [])
      (BPlus.rebalance 127 (Placed.trees h (front ++ [lower])) upper.1 (Placed.tree h upper.2) [])
      repair.again repair.clears value
      (openBoth api upper.2.block lower.2.block (fun child0 child1 =>
        btreeRepair api root (front.length + 1) true child0 child1 value) db)
      (settle 510 repair (one :: two :: third :: rest)) := by
  intro repair
  have upperMine := trunk.window.2.mine _ (Placed.block_mem upper.2)
  by_cases refused : one ≠ 0 ∨ two ≠ 0
  · obtain ⟨code, after, ran, failed, same⟩ := openBoth_refused valid proper upperMine owned
      (trunk.window.1.mine _ (Placed.block_mem lower.2)) refused
    rw [settle_refused refused]
    exact RebalanceSpec.refused trunk nodeAt ran failed same
  · obtain ⟨rfl, rfl⟩ : one = 0 ∧ two = 0 := by simpa only [not_or, not_not] using refused
    obtain ⟨result, middle, ran, validMiddle, trunkMiddle, rootSame, confined, ownedLater⟩ :=
      openBoth_run valid upperMine owned trunk.atLower
    rw [ran]
    have moved := Placed.trees_moved front [upper] lower.1 lower.2 result
    have movedFront := Placed.trees_moved front [] lower.1 lower.2 result
    have still : ∀ entry : Nat × Ref (h + 1), front ++ [entry] ++ [upper] = front ++
        [entry, upper] ++ [] := by
      simp
    rw [still] at trunkMiddle moved
    rw [still, still] at confined
    rw [still] at ownedLater moved
    rw [Placed.rows_two] at nodeAt
    have spec := btreeRepair_previous value validMiddle last trunkMiddle (rootSame ▸ nodeAt)
      (by simpa using small) room most
    refine RebalanceSpec.after_change trunkMiddle confined ownedLater moved ?_
    rw [List.append_nil, List.append_nil] at movedFront
    have counted :
        (front ++ [(lower.1, (⟨result, lower.2.entries⟩ : Placed h)), upper] ++ []).length =
        (front ++ [lower, upper] ++ []).length := by simp
    rw [movedFront, counted] at spec
    exact spec

end Calls

/-- What `btree_pop` does about a child that has become too small. -/
theorem btreeRebalance_run {separator : Nat} {child : Placed h}
    (valid : contract.Valid held writable answers db)
    (proper : ∀ code ∈ answers, code ≠ edbErrorBtreeEmpty)
    (enough : 3 ≤ answers.length)
    (trunk : Trunk held db h root (front ++ [(separator, child)] ++ back))
    (nodeAt :
      NodeAt (db.data root) (h + 1) (Placed.rows (h + 1) (front ++ [(separator, child)] ++ back)))
    (small : (front ++ [(separator, child)] ++ back).length ≤ 510)
    (room : child.entries.length < 510)
    (most : ∀ entry ∈ front ++ back, (Node.entries entry.2).length ≤ 510)
    (owned : child.block ∈ writable) :
    let repair := repairOf 127 child.entries.length (front ++ [(separator, child)] ++ back).length
      (beside (Placed.trees h front) (Placed.trees h back))
    RebalanceSpec contract held writable db root (front ++ [(separator, child)] ++ back)
      (BPlus.rebalance 127 (Placed.trees h front) separator (Placed.tree h child)
        (Placed.trees h back))
      repair.again repair.clears value (btreeRebalance api root front.length child.block value db)
      (settle 510 repair answers) := by
  obtain ⟨one, two, third, rest, rfl⟩ :
      ∃ one two third rest, answers = one :: two :: third :: rest := by
    match answers, enough with
    | one :: two :: third :: rest, _ => exact ⟨one, two, third, rest, rfl⟩
  have properTwo := proper two (by simp)
  have properThird := proper third (by simp)
  have properOne := proper one (by simp)
  have size := nodeAt.selfSize
  rw [Placed.rows_length] at size
  -- the choice of the child beside it
  have start : ∀ total : Nat, (front ++ [(separator, child)] ++ back).length = total → 1 < total →
      btreeRebalance api root front.length child.block value db =
        openBoth api child.block (Bt.data (db.data root)
          (if front.length + 1 = total then front.length - 1 else front.length + 1))
          (fun child0 child1 =>
          btreeRepair api root front.length (decide (front.length + 1 = total)) child0 child1 value)
            db := by
    intro total counted many
    change (if Bt.selfSize (db.data root) ≤ 1 then _ else _ : Code (Db ρ) (Int × Nat)) db = _
    rw [size, counted, if_neg (Nat.not_le_of_lt many)]
    simp only [decide_eq_true_eq]
    rfl
  rcases beside_cases front back with ⟨rfl, rfl⟩ | ⟨⟨label, other⟩, behind, rfl⟩ |
    ⟨before, ⟨label, other⟩, rfl, rfl⟩
  · -- an only child
    have few :
        btreeRebalance api root 0 child.block value db = .ok (edbErrorBtreeReallyEmpty, 0) db := by
      change (if Bt.selfSize (db.data root) ≤ 1 then _ else _ : Code (Db ρ) (Int × Nat)) db = _
      rw [size, if_pos (by simp)]
      rfl
    exact RebalanceSpec.refused trunk nodeAt few ⟨by decide, by decide⟩ fun _ _ => rfl
  · have shape : front ++ [(separator, child)] ++ (label, other) :: behind =
        front ++ [(separator, child), (label, other)] ++ behind := by simp
    rw [shape] at trunk nodeAt small ⊢
    have number : Bt.data (db.data root) (front.length + 1) = other.block := by
      have found := nodeAt
      have split : Placed.rows (h + 1) (front ++ [(separator, child), (label, other)] ++ behind) =
          Placed.rows (h + 1) (front ++ [(separator, child)]) ++ (label, other.block) ::
            Placed.rows (h + 1) behind := by
        rw [Placed.rows_two, Placed.rows_append]
        simp [Placed.rows, Ref.number]
      rw [split] at found
      have here := congrArg Prod.snd found.entry
      rw [Placed.rows_length, List.length_append] at here
      exact here
    have total : (front ++ [(separator, child)] ++ (label, other) :: behind).length =
        front.length + behind.length + 2 := by
      simp only [List.length_append, List.length_cons, List.length_nil]
      omega
    have inner : front.length + 1 ≠ front.length + behind.length + 2 := by omega
    rw [start _ total (by omega), if_neg inner, decide_eq_false inner, number]
    exact openBoth_next valid ⟨properOne, properTwo⟩ properThird trunk nodeAt small room
      (most (label, other) (by simp)) owned
  · have shape : (before ++ [(label, other)]) ++ [(separator, child)] ++ [] =
        before ++ [(label, other), (separator, child)] ++ [] := by simp
    have number : Bt.data (db.data root) before.length = other.block := by
      have found := nodeAt
      rw [shape, Placed.rows_two] at found
      have here := congrArg Prod.snd found.entry
      rw [Placed.rows_length] at here
      exact here
    have place : (before ++ [(label, other)]).length = before.length + 1 := by simp
    have total : ((before ++ [(label, other)]) ++ [(separator, child)] ++ []).length =
        before.length + 2 := by simp
    rw [start _ total (by omega), place, if_pos rfl, decide_eq_true rfl, Nat.add_sub_cancel, number]
    rw [shape] at trunk nodeAt small ⊢
    exact openBoth_previous valid ⟨properOne, properTwo⟩ properThird trunk nodeAt small room
      (most (label, other) (by simp)) owned

end EverDb
